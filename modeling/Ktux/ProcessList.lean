import Ktux.FormatReference
import Ktux.RingOperations
import Ktux.RoundRobin
import Ktux.Sprintf

set_option autoImplicit false

/-!
# The process list

`ps` walks `lThreads` backwards. It runs with interrupts off, so it sees one state, which may be any state
that the scheduler reaches: also one where a dead thread is still linked.
-/
namespace Ktux.ProcessList
open Words Runs CircularList Scheduler ContextSwitch ThreadTable RoundRobin Printf FormatReference
open PrintfEmit PrintfScan Sprintf

/-- `PROCESS_INIT` to `PROCESS_FREE`. -/
def statusNumber : Status → ℕ
  | .init => 1
  | .ready => 2
  | .running => 3
  | .wait => 4
  | .sleep => 5
  | .stop => 6
  | .zombie => 7
  | .free => 8

def plainText (s : String) : List Item := s.toList.map fun c => .literal (ascii c)

def conversion (c : Conversion) : Item := .directive ⟨false, false, [], [], c⟩

def threadItems : List Item :=
  plainText "thread : (" ++ conversion .unsigned :: plainText ") " ++ conversion .string :: plainText "\n"

def priorityItems : List Item :=
  plainText "priority : " ++ conversion .decimal :: plainText "\tstatus : " ++ conversion .unsigned ::
    plainText "\n"

def esp0Items : List Item :=
  plainText "esp0 : " ++ .directive ⟨false, true, [⟨8, by decide⟩], [], .hex⟩ :: plainText "\tcpu_time: " ++
    conversion .unsigned :: plainText "\n"

def wordArg (n : ℕ) : Arg := ⟨n, []⟩

/-- The three lines for a thread with the text `name` in its `name` array. -/
def psEntry (name : List UInt8) (k : KernelThread) : List UInt8 :=
  render threadItems [wordArg k.id, ⟨0, name⟩] ++
    render priorityItems [wordArg (k.priority % (wordSize : ℤ)).toNat, wordArg (statusNumber k.status)] ++
    render esp0Items [wordArg k.esp0, wordArg k.time]

/-- `list_entry`: the thread that a node is the `list` member of. -/
def listEntry : Node → Option ℕ
  | .lThreads => none
  | .thread t => some t

def ps (name : ℕ → List UInt8) (fuel : ℕ) (s : Sched) : Option (List UInt8) :=
  (walk s.lThreads.prev .lThreads fuel).map fun w =>
    ascii '\n' :: (w.visited.filterMap listEntry).flatMap fun t => psEntry (name t) (s.thread t)

example : formatText threadItems = "thread : (%u) %s\n".toList.map ascii ∧
    formatText priorityItems = "priority : %d\tstatus : %u\n".toList.map ascii ∧
    formatText esp0Items = "esp0 : %08x\tcpu_time: %u\n".toList.map ascii := by decide

section Printed
variable {P : Type} {sink : Sink P} {out : P} {slots : ℕ → ℕ} {readable : ℕ → List UInt8 → Prop} {n : ℕ}

/-- Where the formats of `ps` and the names of the threads are. -/
structure PsStrings where
  newline : ℕ
  thread : ℕ
  priority : ℕ
  esp0 : ℕ
  name : ℕ → ℕ

/-- The calls of `kprintf` for the thread `t`. -/
def entryLines (p : PsStrings) (name : ℕ → List UInt8) (s : Sched) (t : ℕ) : List Line :=
  let tmp := s.thread t
  [⟨p.thread, threadItems, [wordArg tmp.id, ⟨p.name t, name t⟩]⟩,
    ⟨p.priority, priorityItems,
      [wordArg (tmp.priority % (wordSize : ℤ)).toNat, wordArg (statusNumber tmp.status)]⟩,
    ⟨p.esp0, esp0Items, [wordArg tmp.esp0, wordArg tmp.time]⟩]

def psLines (p : PsStrings) (name : ℕ → List UInt8) (s : Sched) (shown : List ℕ) : List Line :=
  ⟨p.newline, plainText "\n", []⟩ :: shown.flatMap (entryLines p name s)

/-- The strings are in memory, and what is printed does not change them. -/
structure PsStrings.Stay (p : PsStrings) (sink : Sink P) (out : P) (name : ℕ → List UInt8) (text : List UInt8)
    (shown : List ℕ) : Prop where
  newline : Readable sink out text p.newline (formatText (plainText "\n"))
  thread : Readable sink out text p.thread (formatText threadItems)
  priority : Readable sink out text p.priority (formatText priorityItems)
  esp0 : Readable sink out text p.esp0 (formatText esp0Items)
  name : ∀ t ∈ shown, p.name t < wordSize ∧ Readable sink out text (p.name t) (name t)

structure WordFields (k : KernelThread) : Prop where
  id : k.id < wordSize
  esp0 : k.esp0 < wordSize
  time : k.time < wordSize

theorem supplied_plainText (text : String) {items : List Item} {as : List Arg}
    (h : Supplied slots readable n items as) : Supplied slots readable n (plainText text ++ items) as := by
  unfold plainText
  induction text.toList with
  | nil => exact h
  | cons c cs ih => exact ih

theorem supplied_end (text : String) : Supplied slots readable n (plainText text) [] := by
  have h := supplied_plainText text (show Supplied slots readable n [] [] from rfl)
  rwa [List.append_nil] at h

/-- A number for a conversion that is no text. -/
theorem supplied_word {d : Directive} {w : ℕ} {items : List Item} {as : List Arg} (hchar : d.conversion ≠ .char)
    (hstring : d.conversion ≠ .string) (hslot : slots n = w) (hw : w < wordSize)
    (h : Supplied slots readable (n + 1) items as) :
    Supplied slots readable n (.directive d :: items) (wordArg w :: as) :=
  ⟨⟨hslot, hw, fun heq => absurd heq hchar, fun heq => absurd heq hstring⟩, h⟩

theorem entryLines_text (p : PsStrings) (name : ℕ → List UInt8) (s : Sched) (t : ℕ) :
    (entryLines p name s t).flatMap Line.text = psEntry (name t) (s.thread t) := by
  simp only [entryLines, List.flatMap_cons, List.flatMap_nil, List.append_nil, Line.text, psEntry,
    List.append_assoc]
  rfl

theorem statusNumber_lt (status : Status) : statusNumber status < wordSize := by
  cases status <;> decide

theorem plainText_wellFormed {text : String}
    (h : 0 ∉ text.toList.map ascii ∧ ascii '%' ∉ text.toList.map ascii) : ∀ i ∈ plainText text, i.WellFormed :=
  List.forall_mem_map.mpr fun _ hc => ⟨fun heq => h.1 (heq ▸ List.mem_map_of_mem hc),
    fun heq => h.2 (heq ▸ List.mem_map_of_mem hc)⟩

theorem conversion_wellFormed (c : Conversion) : (conversion c).WellFormed :=
  ⟨(by decide : widthValue [] < wordSize), fun _ h => by cases h⟩

theorem threadItems_wellFormed : ∀ i ∈ threadItems, i.WellFormed := by
  simp only [threadItems, List.forall_mem_append, List.forall_mem_cons]
  exact ⟨⟨plainText_wellFormed (by decide), conversion_wellFormed _, plainText_wellFormed (by decide)⟩,
    conversion_wellFormed _, plainText_wellFormed (by decide)⟩

theorem priorityItems_wellFormed : ∀ i ∈ priorityItems, i.WellFormed := by
  simp only [priorityItems, List.forall_mem_append, List.forall_mem_cons]
  exact ⟨⟨plainText_wellFormed (by decide), conversion_wellFormed _, plainText_wellFormed (by decide)⟩,
    conversion_wellFormed _, plainText_wellFormed (by decide)⟩

theorem esp0Items_wellFormed : ∀ i ∈ esp0Items, i.WellFormed := by
  simp only [esp0Items, List.forall_mem_append, List.forall_mem_cons]
  exact ⟨⟨plainText_wellFormed (by decide), ⟨by decide, by decide⟩, plainText_wellFormed (by decide)⟩,
    conversion_wellFormed _, plainText_wellFormed (by decide)⟩

theorem entryLines_printable {p : PsStrings} {name : ℕ → List UInt8} {text : List UInt8} {shown : List ℕ}
    {s : Sched} {t : ℕ} (h : p.Stay sink out name text shown) (ht : t ∈ shown)
    (hfields : WordFields (s.thread t)) : ∀ l ∈ entryLines p name s t, l.Printable sink out text := by
  obtain ⟨hadr, hname⟩ := h.name t ht
  have hpriority : ((s.thread t).priority % (wordSize : ℤ)).toNat < wordSize := by
    rw [wordSize_eq]
    omega
  refine List.forall_mem_cons.mpr ⟨⟨threadItems_wellFormed, h.thread, ?_⟩, List.forall_mem_cons.mpr
    ⟨⟨priorityItems_wellFormed, h.priority, ?_⟩,
      List.forall_mem_singleton.mpr ⟨esp0Items_wellFormed, h.esp0, ?_⟩⟩⟩
  · unfold threadItems
    rw [List.append_assoc]
    apply supplied_plainText
    apply supplied_word (by decide) (by decide) rfl hfields.id
    apply supplied_plainText
    exact ⟨⟨rfl, hadr, fun heq => absurd heq (by decide), fun _ => hname⟩, supplied_end "\n"⟩
  · unfold priorityItems
    rw [List.append_assoc]
    apply supplied_plainText
    apply supplied_word (by decide) (by decide) rfl hpriority
    apply supplied_plainText
    apply supplied_word (by decide) (by decide) rfl (statusNumber_lt _)
    exact supplied_end "\n"
  · unfold esp0Items
    rw [List.append_assoc]
    apply supplied_plainText
    apply supplied_word (by decide) (by decide) rfl hfields.esp0
    apply supplied_plainText
    apply supplied_word (by decide) (by decide) rfl hfields.time
    exact supplied_end "\n"

/-- The text of `ps` is what its calls of `kprintf` print, whatever prints their characters. -/
theorem ps_prints {p : PsStrings} {name : ℕ → List UInt8} {s : Sched} {shown : List ℕ} {text : List UInt8}
    (htext : text = ascii '\n' :: shown.flatMap fun t => psEntry (name t) (s.thread t))
    (hstay : p.Stay sink out name text shown) (hfields : ∀ t ∈ shown, WordFields (s.thread t)) :
    ∃ m, ∀ fuel, m ≤ fuel →
      printLines sink fuel (psLines p name s shown) out = some (passAll sink text out) := by
  have hlines : (psLines p name s shown).flatMap Line.text = text := by
    rw [htext, psLines, List.flatMap_cons, List.flatMap_assoc]
    simp only [entryLines_text]
    rfl
  rw [← hlines]
  apply printLines_eq
  rw [hlines]
  refine List.forall_mem_cons.mpr ⟨⟨plainText_wellFormed (by decide), hstay.newline, supplied_end "\n"⟩,
    fun l hl => ?_⟩
  obtain ⟨t, ht, hl⟩ := List.mem_flatMap.mp hl
  exact entryLines_printable hstay ht (hfields t ht) l hl

end Printed

/-- What every run keeps of the list: the threads `xs` in it, newest first, with each one that lives. -/
structure Listed (xs : List ℕ) (s : Sched) : Prop where
  ring : Ring s.lThreads .lThreads (xs.map .thread)
  created : xs.Sublist s.allocated
  alive : ∀ t ∈ s.allocated, Living (s.thread t) → t ∈ xs
  ordinary : s.pCurrentTask ≠ 0 → Scheduled (s.phase s.pCurrentTask) → Living (s.thread s.pCurrentTask)
  linked : s.pCurrentTask ≠ 0 → s.phase s.pCurrentTask = .zombied ∨ s.phase s.pCurrentTask = .masked →
    s.pCurrentTask ∈ xs
  spent : s.pCurrentTask ≠ 0 → s.phase s.pCurrentTask = .leaving → (s.thread s.pCurrentTask).quantum = 0

theorem listed_clear (thread : ℕ → KernelThread) (links : Links Node) :
    Listed [] (clearThreads thread links) :=
  ⟨ring_init _ _, List.Sublist.refl [], fun _ ht => absurd ht List.not_mem_nil, fun h => absurd rfl h,
    fun h => absurd rfl h, fun h => absurd rfl h⟩

section Invariant
variable {xs : List ℕ} {s u : Sched}

theorem Listed.mem_allocated (h : Listed xs s) {t : ℕ} (ht : t ∈ xs) : t ∈ s.allocated := h.created.subset ht

/-- A step that leaves the list and the current thread, and brings nobody to life. -/
theorem Listed.frame (h : Listed xs s) {thread : ℕ → KernelThread} {phase : ℕ → Phase}
    (hback : ∀ t, Living (thread t) → Living (s.thread t))
    (hordinary : s.pCurrentTask ≠ 0 → Scheduled (phase s.pCurrentTask) → Living (thread s.pCurrentTask))
    (hlinked : s.pCurrentTask ≠ 0 → phase s.pCurrentTask = .zombied ∨ phase s.pCurrentTask = .masked →
      s.pCurrentTask ∈ xs)
    (hspent : s.pCurrentTask ≠ 0 → phase s.pCurrentTask = .leaving → (thread s.pCurrentTask).quantum = 0) :
    Listed xs { s with thread := thread, phase := phase } :=
  ⟨h.ring, h.created, fun t ht hl => h.alive t ht (hback t hl), hordinary, hlinked, hspent⟩

theorem Listed.setThread (h : Listed xs s) (t : ℕ) {f : KernelThread → KernelThread}
    (hstatus : ∀ k, (f k).status = k.status) (hquantum : ∀ k, k.quantum = 0 → (f k).quantum = 0) :
    Listed xs (s.setThread t f) := by
  have hsame := setThread_field (·.status) s t (hstatus (s.thread t))
  refine h.frame (fun t' hl => hl.congr (hsame t').symm) (fun hne hp => (h.ordinary hne hp).congr (hsame _))
    h.linked fun hne hp => ?_
  have hzero := h.spent hne hp
  by_cases heq : s.pCurrentTask = t
  · subst heq
    exact (congrArg KernelThread.quantum (setThread_self s s.pCurrentTask f)).trans (hquantum _ hzero)
  · exact (congrArg KernelThread.quantum (setThread_other s f heq)).trans hzero

theorem Listed.pNice (h : Listed xs s) (t : ℕ) (newPriority : ℤ) : Listed xs (pNice t newPriority s) := by
  unfold Scheduler.pNice
  split_ifs
  · exact h.setThread t (fun _ => rfl) fun _ hzero => hzero
  · exact h

/-- The current thread moves on to the point `p`. -/
theorem Listed.move (h : Listed xs s) {f : KernelThread → KernelThread} {p : Phase}
    (hback : ∀ k, Living (f k) → Living k)
    (hordinary : Scheduled p → Living (f (s.thread s.pCurrentTask)))
    (hlinked : p = .zombied ∨ p = .masked → s.pCurrentTask ∈ xs)
    (hspent : p = .leaving → (f (s.thread s.pCurrentTask)).quantum = 0) :
    Listed xs ((s.setThread s.pCurrentTask f).setPhase s.pCurrentTask p) := by
  have hphase : Function.update s.phase s.pCurrentTask p s.pCurrentTask = p := Function.update_self ..
  have hself := setThread_self s s.pCurrentTask f
  refine h.frame (fun t hl => ?_) (fun _ hp => ?_) (fun _ hp => ?_) fun _ hp => ?_
  · by_cases heq : t = s.pCurrentTask
    · subst heq
      rw [hself] at hl
      exact hback _ hl
    · rwa [setThread_other s f heq] at hl
  · rw [hself]
    exact hordinary (hphase ▸ hp)
  · exact hlinked (hphase ▸ hp)
  · rw [hself]
    exact hspent (hphase ▸ hp)

theorem Listed.setPhase (h : Listed xs s) {p : Phase} (hp : ¬ Scheduled p)
    (hlinked : p = .zombied ∨ p = .masked → s.pCurrentTask ∈ xs) (hspent : p ≠ .leaving) :
    Listed xs (s.setPhase s.pCurrentTask p) := by
  have hphase : Function.update s.phase s.pCurrentTask p s.pCurrentTask = p := Function.update_self ..
  refine h.frame (fun _ hl => hl) (fun _ hq => absurd (hphase ▸ hq) hp) (fun _ hq => hlinked (hphase ▸ hq))
    fun _ hq => absurd (hphase.symm.trans hq) hspent

theorem Listed.create (h : Listed xs s) (hplaced : Placed s) {t : ℕ} (stackBase eip : ℕ)
    (hfresh : t ∉ s.allocated) : Listed (t :: xs) (createKernelThread t stackBase eip s) := by
  obtain ⟨-, -, hthread, -⟩ := createKernelThread_created t stackBase eip s
  have hne : ∀ t' ∈ s.allocated, t' ≠ t := fun t' ht' heq => hfresh (heq ▸ ht')
  have hcurrent : s.pCurrentTask ≠ 0 → s.pCurrentTask ≠ t := fun hcur => hne _ (hplaced.current hcur).1
  refine ⟨?_, h.created.cons_cons t, fun t' ht' hl => ?_, fun hcur hp => ?_, fun hcur hp => ?_,
    fun hcur hp => ?_⟩
  · refine h.ring.listAdd (List.not_mem_cons_of_ne_of_not_mem (fun heq => (by cases heq)) ?_)
    rw [List.mem_map_of_injective thread_injective]
    exact fun ht => hfresh (h.mem_allocated ht)
  · rcases List.mem_cons.mp ht' with rfl | ht'
    · exact List.mem_cons_self ..
    · rw [(hthread t' (hne t' ht')).1] at hl
      exact List.mem_cons_of_mem _ (h.alive t' ht' hl)
  · obtain ⟨hkeep, hkept⟩ := hthread _ (hcurrent hcur)
    change Scheduled ((createKernelThread t stackBase eip s).phase s.pCurrentTask) at hp
    change Living ((createKernelThread t stackBase eip s).thread s.pCurrentTask)
    rw [hkept] at hp
    rw [hkeep]
    exact h.ordinary hcur hp
  · change (createKernelThread t stackBase eip s).phase s.pCurrentTask = _ ∨
      (createKernelThread t stackBase eip s).phase s.pCurrentTask = _ at hp
    rw [(hthread _ (hcurrent hcur)).2] at hp
    exact List.mem_cons_of_mem _ (h.linked hcur hp)
  · obtain ⟨hkeep, hkept⟩ := hthread _ (hcurrent hcur)
    change (createKernelThread t stackBase eip s).phase s.pCurrentTask = _ at hp
    change ((createKernelThread t stackBase eip s).thread s.pCurrentTask).quantum = 0
    rw [hkept] at hp
    rw [hkeep]
    exact h.spent hcur hp

theorem Listed.start (h : Listed xs s) (hplaced : Placed s) (hcur : s.pCurrentTask = 0) :
    Listed xs (startScheduler s) := by
  unfold startScheduler
  split_ifs
  · exact h
  · have hfirst : s.pThreads 0 ≠ 0 → Scheduled (s.phase (s.pThreads 0)) ∧ Living (s.thread (s.pThreads 0)) := by
      intro hne
      have hmem := hplaced.tabled 0 hne
      have hl := hplaced.fresh hcur _ hmem
      exact ⟨hplaced.scheduled _ hmem hl, hl⟩
    have hset : Listed xs (s.setCurrent 0 (s.pThreads 0)) := by
      refine ⟨h.ring, h.created, h.alive, fun hne _ => (hfirst hne).2, fun hne hp => ?_, fun hne hp => ?_⟩
      · rcases (hfirst hne).1 with hq | hq <;> rcases hp with hp | hp <;> cases hq.symm.trans hp
      · rcases (hfirst hne).1 with hq | hq <;> cases hq.symm.trans hp
    exact hset.setThread _ (fun _ => rfl) fun _ _ => rfl

/-- A switch away from a thread leaves the list, and goes to a thread in ordinary code. -/
theorem Listed.switched (hring : Ring s.lThreads .lThreads (xs.map .thread)) (hcreated : xs.Sublist s.allocated)
    (halive : ∀ t ∈ s.allocated, Living (s.thread t) → t ∈ xs) (hplaced : Placed s) (hcur : s.pCurrentTask ≠ 0)
    (hquantum : (s.thread s.pCurrentTask).quantum = 0) {currentESP c into : ℕ} (hinto : s.pThreads c = into)
    (hnull : into ≠ 0) (hrun : runnable ((retired currentESP s).thread into) = true) :
    Listed xs (switchedTo currentESP c into s) := by
  have hliving := switchedTo_living (c := c) hplaced hcur hquantum hrun
  have hmem : into ∈ s.allocated := hinto ▸ hplaced.tabled c (hinto ▸ hnull)
  have hinto' : Living ((switchedTo currentESP c into s).thread into) := by
    rw [Living, (switchedTo_into s currentESP c into).1]
    decide
  have hscheduled : Scheduled (s.phase into) := hplaced.scheduled into hmem ((hliving into).mp hinto')
  refine ⟨hring, hcreated, fun t ht hl => halive t ht ((hliving t).mp hl), fun _ _ => hinto', fun _ hp => ?_,
    fun _ hp => ?_⟩
  · have hp' : s.phase into = .zombied ∨ s.phase into = .masked := hp
    rcases hscheduled with hq | hq <;> rcases hp' with hp | hp <;> cases hq.symm.trans hp
  · have hp' : s.phase into = .leaving := hp
    rcases hscheduled with hq | hq <;> cases hq.symm.trans hp'

theorem Listed.interrupt (h : Listed xs s) (hplaced : Placed s) {fuel currentESP esp : ℕ}
    (hrun : taskSwitch fuel currentESP s = some (esp, u)) : Listed xs u := by
  rcases taskSwitch_cases hrun with
    ⟨-, -, rfl⟩ | ⟨-, -, -, rfl⟩ | ⟨hcur, hquantum, c, into, hinto, hnull, hr, -, rfl⟩
  · exact h
  · refine h.setThread s.pCurrentTask (fun _ => rfl) fun k hzero => ?_
    change k.quantum - 1 = 0
    rw [hzero]
  · exact Listed.switched h.ring h.created h.alive hplaced hcur hquantum hinto hnull hr

theorem Listed.softInterrupt (h : Listed xs s) (hplaced : Placed s) (hcur : s.pCurrentTask ≠ 0)
    (hphase : s.phase s.pCurrentTask = .yielding ∨ s.phase s.pCurrentTask = .leaving) {fuel currentESP esp : ℕ}
    (hrun : taskSwitch fuel currentESP (s.setPhase s.pCurrentTask .running) = some (esp, u)) : Listed xs u := by
  have hplaced' := hplaced.setRunning hcur
  rcases hphase with hp | hp
  · have hliving := h.ordinary hcur (Or.inr hp)
    have hmoved : Listed xs (s.setPhase s.pCurrentTask .running) := by
      have hself : (s.setPhase s.pCurrentTask .running).phase s.pCurrentTask = .running :=
        Function.update_self ..
      refine h.frame (fun _ hl => hl) (fun _ _ => hliving) (fun _ hq => ?_) fun _ hq => ?_
      · rcases hq with hq | hq <;> cases hself.symm.trans hq
      · cases hself.symm.trans hq
    exact hmoved.interrupt hplaced' hrun
  · rcases taskSwitch_cases hrun with
      ⟨hz, -, -⟩ | ⟨-, hpos, -, -⟩ | ⟨-, hquantum, c, into, hinto, hnull, hr, -, rfl⟩
    · exact absurd hz hcur
    · exact absurd (h.spent hcur hp) (Nat.pos_iff_ne_zero.mp hpos)
    · exact @Listed.switched xs (s.setPhase s.pCurrentTask .running) h.ring h.created h.alive hplaced' hcur
        hquantum currentESP c into hinto hnull hr

/-- Inside `kill` the current thread is dead, so that unlinking it loses no other. -/
theorem Listed.unlink (h : Listed xs s) (hplaced : Placed s) (hphase : s.phase s.pCurrentTask = .masked) :
    Listed (xs.erase s.pCurrentTask) (killUnlink s) := by
  obtain ⟨hcur, hdead⟩ := hplaced.dying hphase (not_scheduled (by decide) (by decide))
  have hmem := h.linked hcur (Or.inr hphase)
  have hring := h.ring.listDel (List.mem_map_of_mem hmem)
  rw [← List.map_erase thread_injective] at hring
  have hself : (killUnlink s).phase s.pCurrentTask = .unlinked := Function.update_self ..
  refine ⟨hring, List.erase_sublist.trans h.created, fun t ht hl => ?_, fun _ hp => ?_, fun _ hp => ?_,
    fun _ hp => ?_⟩
  · have hne : t ≠ s.pCurrentTask := fun heq => hdead (heq ▸ hl)
    exact (List.mem_erase_of_ne hne).mpr (h.alive t ht hl)
  · rcases hp with hp | hp <;> cases hself.symm.trans hp
  · rcases hp with hp | hp <;> cases hself.symm.trans hp
  · cases hself.symm.trans hp

theorem Listed.step {e : Event} (h : Listed xs s) (hplaced : Placed s) (hstep : SchedStep s e u) :
    ∃ ys, Listed ys u := by
  cases hstep with
  | create t stackBase eip _ _ hfresh => exact ⟨_, h.create hplaced stackBase eip hfresh⟩
  | createError => exact ⟨xs, h⟩
  | start hcur => exact ⟨xs, h.start hplaced hcur⟩
  | nice newPriority => exact ⟨xs, h.pNice s.pCurrentTask newPriority⟩
  | pNice t newPriority => exact ⟨xs, h.pNice t newPriority⟩
  | interrupt _ hrun => exact ⟨xs, h.interrupt hplaced hrun⟩
  | softInterrupt hcur hphase hrun => exact ⟨xs, h.softInterrupt hplaced hcur hphase hrun⟩
  | yieldQuantum hcur hphase =>
    refine ⟨xs, h.move (fun _ hl => hl) (fun _ => h.ordinary hcur (Or.inl hphase)) (fun hp => ?_) fun hp => ?_⟩
    · rcases hp with hp | hp <;> cases hp
    · cases hp
  | killStatus hcur hphase =>
    have hmem := h.alive _ (hplaced.current hcur).1 (h.ordinary hcur (Or.inl hphase))
    refine ⟨xs, h.move (fun _ hl => absurd rfl hl.1) (fun hp => ?_) (fun _ => hmem) fun hp => ?_⟩
    · rcases hp with hp | hp <;> cases hp
    · cases hp
  | killMask hphase =>
    obtain ⟨hcur, -⟩ := hplaced.dying hphase (not_scheduled (by decide) (by decide))
    exact ⟨xs, h.setPhase (not_scheduled (by decide) (by decide)) (fun _ => h.linked hcur (Or.inl hphase))
      (by decide)⟩
  | killUnlink hphase => exact ⟨_, h.unlink hplaced hphase⟩
  | killClear hphase =>
    obtain ⟨hcur, -⟩ := hplaced.dying hphase (not_scheduled (by decide) (by decide))
    have hmoved : Listed xs (s.setPhase s.pCurrentTask .cleared) := h.setPhase
      (not_scheduled (by decide) (by decide)) (fun hp => by rcases hp with hp | hp <;> cases hp) (by decide)
    exact ⟨xs, hmoved.ring, hmoved.created, hmoved.alive, hmoved.ordinary, hmoved.linked, hmoved.spent⟩
  | killUnmask hphase =>
    obtain ⟨hcur, -⟩ := hplaced.dying hphase (not_scheduled (by decide) (by decide))
    exact ⟨xs, h.setPhase (not_scheduled (by decide) (by decide))
      (fun hp => by rcases hp with hp | hp <;> cases hp) (by decide)⟩
  | killQuantum hphase =>
    obtain ⟨hcur, -⟩ := hplaced.dying hphase (not_scheduled (by decide) (by decide))
    refine ⟨xs, h.move (fun _ hl => hl) (fun hp => ?_) (fun hp => ?_) fun _ => rfl⟩
    · rcases hp with hp | hp <;> cases hp
    · rcases hp with hp | hp <;> cases hp

theorem placed_step {e : Event} (h : Placed s) (hstep : SchedStep s e u) : Placed u := by
  by_cases he : ∃ t stackBase esp0, e = .created t stackBase esp0
  · obtain ⟨t, stackBase, esp0, rfl⟩ := he
    generalize hevent : Event.created t stackBase esp0 = e at hstep
    cases hstep with
    | create t stackBase eip hphase hnull hfresh => exact h.create stackBase eip hnull hfresh
    | interrupt _ hrun => exact h.interrupt hrun
    | softInterrupt hcur _ hrun => exact (h.setRunning hcur).interrupt hrun
    | _ => cases hevent
  · exact h.event (fun t stackBase esp0 heq => he ⟨t, stackBase, esp0, heq⟩) hstep

theorem run_listed {thread : ℕ → KernelThread} {links : Links Node} {events : List Event}
    (hrun : Run SchedStep (clearThreads thread links) events s) : ∃ xs, Listed xs s := by
  have hboth : Placed s ∧ ∃ xs, Listed xs s := by
    refine hrun.invariant (fun s => Placed s ∧ ∃ xs, Listed xs s)
      ⟨placed_clear thread links, [], listed_clear thread links⟩ ?_
    rintro v e w ⟨hplaced, xs, hlisted⟩ hstep
    exact ⟨placed_step hplaced hstep, hlisted.step hplaced hstep⟩
  exact hboth.2

end Invariant

/-- In every state that the scheduler reaches `ps` ends. It shows threads that were created, in the order
of their creation and each once, and among them every thread that lives. -/
theorem ps_shows (name : ℕ → List UInt8) {thread : ℕ → KernelThread} {links : Links Node} {events : List Event}
    {s : Sched} (hrun : Run SchedStep (clearThreads thread links) events s) :
    ∃ shown : List ℕ, shown.Sublist s.allocated.reverse ∧ (∀ t ∈ s.allocated, Living (s.thread t) → t ∈ shown) ∧
      shown.Nodup ∧ ∀ rest, ps name (shown.length + 1 + rest) s =
        some (ascii '\n' :: shown.flatMap fun t => psEntry (name t) (s.thread t)) := by
  obtain ⟨xs, h⟩ := run_listed hrun
  have hnodup : xs.Nodup := List.Nodup.of_map _ (List.nodup_cons.mp h.ring.nodup).2
  refine ⟨xs.reverse, h.created.reverse, fun t ht hl => List.mem_reverse.mpr (h.alive t ht hl),
    List.nodup_reverse.mpr hnodup, fun rest => ?_⟩
  have hwalk := h.ring.walk_prev rest
  rw [List.length_map] at hwalk
  rw [List.length_reverse, ps, hwalk, Option.map_some, ← List.map_reverse, List.filterMap_map]
  congr 2
  exact congrArg (fun shown => List.flatMap _ shown) (List.filterMap_some ..)

def twoNames (t : ℕ) : List UInt8 := if t = 0x1000 then "init".toList.map ascii else "foo".toList.map ascii

theorem ps_shows_two : ps twoNames 3 twoThreads = some (ascii '\n' ::
    (psEntry ("init".toList.map ascii) (twoThreads.thread 0x1000) ++
      psEntry ("foo".toList.map ascii) (twoThreads.thread 0x2000))) := by
  have hrun : Run SchedStep bootState [.created 0x1000 0x6000 (initialESP 0x6000 0),
      .created 0x2000 0x8000 (initialESP 0x8000 0), .started] twoThreads := by
    refine .next (.create 0x1000 0x6000 0 rfl (by decide) (by decide) (by decide)) ?_
    refine .next (.create 0x2000 0x8000 0 rfl (by decide) (by decide) (by decide)) ?_
    exact .single (.start rfl (by decide))
  have hliving : ∀ t ∈ twoThreads.allocated, Living (twoThreads.thread t) := by
    unfold Living
    decide
  obtain ⟨shown, hcreated, halive, hnodup, hps⟩ := ps_shows twoNames hrun
  have hall : [0x1000, 0x2000] ⊆ shown := by
    intro t ht
    have ht' : t ∈ twoThreads.allocated := List.mem_reverse.mp ht
    exact halive t ht' (hliving t ht')
  have hlength := (List.subperm_of_subset (by decide) hall).length_le
  obtain rfl : shown = [0x1000, 0x2000] := hcreated.eq_of_length_le hlength
  exact hps 0

end Ktux.ProcessList
