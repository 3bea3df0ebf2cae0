import Ktux.Scheduler

set_option autoImplicit false

/-!
# Stack pointers across context switches

The history of a run determines the stack pointer that each thread was last stopped with. The invariant is
that every runnable thread still has it in `esp0`.
-/
namespace Ktux.ContextSwitch
open Runs CircularList Scheduler

def record (saved : ℕ → Option ℕ) : Event → ℕ → Option ℕ
  | .created t _ esp0 => Function.update saved t (some esp0)
  | .switched _ out currentESP _ _ => Function.update saved out (some currentESP)
  | _ => saved

/-- The stack pointer of the interrupt that last switched a thread out, or its initial frame. -/
def savedESP (events : List Event) : ℕ → Option ℕ := events.foldl record fun _ => none

/-- What a step may do with stack pointers: a switch goes to the one that the next thread saved. -/
structure SwitchSound (pre : List Event) (s : Sched) (e : Event) (u : Sched) : Prop where
  returned : ∀ cause currentESP esp, e = .returned cause currentESP esp →
    esp = currentESP ∧ u.pCurrentTask = s.pCurrentTask
  dispatched : ∀ cause out currentESP into esp, e = .switched cause out currentESP into esp →
    savedESP (pre ++ [e]) into = some esp
  untouched : ∀ t ∈ s.allocated, t ≠ s.pCurrentTask → (u.thread t).esp0 = (s.thread t).esp0
  running : ∀ t ∈ u.allocated, (u.thread t).status = .running → t = u.pCurrentTask

/-- A freed thread is dispatched nowhere later in the run. -/
def NeverRevived (s : Sched) (events : List Event) : Prop :=
  ∀ pre post u, events = pre ++ post → Run SchedStep s pre u → (∃ v, Run SchedStep u post v) →
    ∀ t ∈ u.allocated, (u.thread t).status = .free →
      ∀ cause out currentESP esp, Event.switched cause out currentESP t esp ∉ post

/-- The invariant of a history and the state it leads to. -/
structure Saved (events : List Event) (s : Sched) : Prop where
  nonnull : 0 ∉ s.allocated
  table : ∀ i, s.pThreads i ≠ 0 → s.pThreads i ∈ s.allocated
  current : s.pCurrentTask ≠ 0 → s.pCurrentTask ∈ s.allocated
  booting : s.pCurrentTask = 0 → ∀ t ∈ s.allocated, (s.thread t).status = .ready
  alive : s.pCurrentTask ≠ 0 → (s.thread s.pCurrentTask).status ≠ .free
  running : ∀ t ∈ s.allocated, (s.thread t).status = .running → t = s.pCurrentTask
  saved : ∀ t ∈ s.allocated, runnable (s.thread t) = true → savedESP events t = some (s.thread t).esp0

theorem savedESP_snoc (events : List Event) (e : Event) :
    savedESP (events ++ [e]) = record (savedESP events) e := by
  rw [savedESP, List.foldl_append]
  rfl

theorem runnable_iff (t : KernelThread) : runnable t = true ↔ t.status = .ready ∨ t.status = .wait := by
  simp [runnable]

theorem saved_clear (thread : ℕ → KernelThread) (links : Links Node) :
    Saved [] (clearThreads thread links) :=
  ⟨List.not_mem_nil, fun _ h => absurd rfl h, fun h => absurd rfl h,
    fun _ _ ht => absurd ht List.not_mem_nil, fun h => absurd rfl h,
    fun _ ht => absurd ht List.not_mem_nil, fun _ ht => absurd ht List.not_mem_nil⟩

section Invariant
variable {pre : List Event} {s u : Sched}

structure SameThreads (s u : Sched) : Prop where
  status : ∀ t, (u.thread t).status = (s.thread t).status
  esp0 : ∀ t, (u.thread t).esp0 = (s.thread t).esp0
  allocated : u.allocated = s.allocated
  current : u.pCurrentTask = s.pCurrentTask
  table : ∀ i, u.pThreads i ≠ 0 → u.pThreads i = s.pThreads i

theorem sameThreads_refl (s : Sched) : SameThreads s s :=
  ⟨fun _ => rfl, fun _ => rfl, rfl, rfl, fun _ _ => rfl⟩

theorem sameThreads_set (s : Sched) (t : ℕ) (f : KernelThread → KernelThread)
    (hstatus : ∀ k, (f k).status = k.status) (hesp0 : ∀ k, (f k).esp0 = k.esp0) :
    SameThreads s (s.setThread t f) where
  status := setThread_field (·.status) s t (hstatus _)
  esp0 := setThread_field (·.esp0) s t (hesp0 _)
  allocated := rfl
  current := rfl
  table := fun _ _ => rfl

theorem SameThreads.trans {v : Sched} (h : SameThreads s u) (h' : SameThreads u v) : SameThreads s v := by
  refine ⟨fun t => (h'.status t).trans (h.status t), fun t => (h'.esp0 t).trans (h.esp0 t),
    h'.allocated.trans h.allocated, h'.current.trans h.current, fun i hi => ?_⟩
  have hu := h'.table i hi
  rw [hu] at hi ⊢
  exact h.table i hi

theorem Saved.same (h : Saved pre s) (hsame : SameThreads s u) : Saved pre u := by
  have hrun : ∀ t, runnable (u.thread t) = runnable (s.thread t) := fun t => by
    simp only [runnable, hsame.status]
  refine ⟨?_, ?_, ?_, ?_, ?_, ?_, ?_⟩
  · rw [hsame.allocated]
    exact h.nonnull
  · intro i hi
    have heq := hsame.table i hi
    rw [heq] at hi
    rw [heq, hsame.allocated]
    exact h.table i hi
  · rw [hsame.current, hsame.allocated]
    exact h.current
  · intro hcur t ht
    rw [hsame.status]
    exact h.booting (hsame.current ▸ hcur) t (hsame.allocated ▸ ht)
  · rw [hsame.current, hsame.status]
    exact h.alive
  · intro t ht hst
    rw [hsame.current]
    exact h.running t (hsame.allocated ▸ ht) (hsame.status t ▸ hst)
  · intro t ht hr
    rw [hsame.esp0]
    exact h.saved t (hsame.allocated ▸ ht) (hrun t ▸ hr)

theorem record_silent {e : Event} (he : e.silent = true) (saved : ℕ → Option ℕ) : record saved e = saved := by
  cases e with
  | created | switched => cases he
  | _ => rfl

theorem Saved.silent (h : Saved pre s) {e : Event} (he : e.silent = true) : Saved (pre ++ [e]) s := by
  refine ⟨h.nonnull, h.table, h.current, h.booting, h.alive, h.running, fun t ht hr => ?_⟩
  rw [savedESP_snoc, record_silent he]
  exact h.saved t ht hr

theorem Saved.returned (h : Saved pre s) (cause : Cause) (currentESP esp : ℕ) :
    Saved (pre ++ [.returned cause currentESP esp]) s := by
  refine ⟨h.nonnull, h.table, h.current, h.booting, h.alive, h.running, fun t ht hr => ?_⟩
  rw [savedESP_snoc]
  exact h.saved t ht hr

theorem createKernelThread_old (s : Sched) {t t' : ℕ} (stackBase eip : ℕ) (hfresh : t ∉ s.allocated)
    (ht' : t' ∈ s.allocated) : (createKernelThread t stackBase eip s).thread t' = s.thread t' := by
  have hne : t' ≠ t := fun heq => hfresh (heq ▸ ht')
  exact Function.update_of_ne hne _ _

theorem Saved.create (h : Saved pre s) {t : ℕ} (stackBase eip : ℕ) (hnull : t ≠ 0)
    (hfresh : t ∉ s.allocated) :
    Saved (pre ++ [.created t stackBase (initialESP stackBase eip)]) (createKernelThread t stackBase eip s) := by
  have hcreated := createKernelThread_created t stackBase eip s
  have hne : ∀ t' ∈ s.allocated, t' ≠ t := fun t' ht' heq => hfresh (heq ▸ ht')
  have hold : ∀ t' ∈ s.allocated, (createKernelThread t stackBase eip s).thread t' = s.thread t' :=
    fun t' ht' => createKernelThread_old s stackBase eip hfresh ht'
  have hnew : ((createKernelThread t stackBase eip s).thread t).status = .ready ∧
      ((createKernelThread t stackBase eip s).thread t).esp0 = initialESP stackBase eip := by
    change (Function.update s.thread t _ t).status = _ ∧ (Function.update s.thread t _ t).esp0 = _
    rw [Function.update_self]
    exact ⟨rfl, rfl⟩
  refine ⟨?_, ?_, ?_, ?_, ?_, ?_, ?_⟩
  · exact List.not_mem_cons_of_ne_of_not_mem hnull.symm h.nonnull
  · exact fun i hi => hcreated.tabled h.table hi
  · exact fun hcur => List.mem_cons_of_mem _ (h.current hcur)
  · intro hcur t' ht'
    rcases List.mem_cons.mp ht' with rfl | ht'
    · exact hnew.1
    · rw [hold t' ht']
      exact h.booting hcur t' ht'
  · intro hcur
    have hkeep := hold _ (h.current hcur)
    exact hkeep ▸ h.alive hcur
  · intro t' ht' hst
    rcases List.mem_cons.mp ht' with rfl | ht'
    · rw [hnew.1] at hst
      cases hst
    · rw [hold t' ht'] at hst
      exact h.running t' ht' hst
  · intro t' ht' hr
    rw [savedESP_snoc]
    rcases List.mem_cons.mp ht' with rfl | ht'
    · rw [hnew.2]
      exact Function.update_self _ _ _
    · rw [hold t' ht'] at hr ⊢
      exact (Function.update_of_ne (hne t' ht') _ _).trans (h.saved t' ht' hr)

theorem Saved.start (h : Saved pre s) (hcur : s.pCurrentTask = 0) : Saved pre (startScheduler s) := by
  unfold startScheduler
  split_ifs
  · exact h
  · have hready := h.booting hcur
    have hset : Saved pre (s.setCurrent 0 (s.pThreads 0)) := by
      refine ⟨h.nonnull, h.table, fun hne => h.table 0 hne, fun _ => hready, fun hne hfree => ?_,
        fun t ht hst => ?_, h.saved⟩
      · have hst := hready _ (h.table 0 hne)
        change (s.thread (s.pThreads 0)).status = .free at hfree
        rw [hst] at hfree
        cases hfree
      · have hst' : (s.thread t).status = .running := hst
        rw [hready t ht] at hst'
        cases hst'
    exact hset.same (sameThreads_set _ _ _ (fun _ => rfl) (fun _ => rfl))

theorem Saved.killed (h : Saved pre s) (hcur : s.pCurrentTask ≠ 0) : Saved pre (killStatus s) := by
  have hself : ((killStatus s).thread s.pCurrentTask).status = .zombie := by
    change (Function.update s.thread s.pCurrentTask _ s.pCurrentTask).status = _
    rw [Function.update_self]
  have hother : ∀ t, t ≠ s.pCurrentTask → (killStatus s).thread t = s.thread t :=
    fun t ht => Function.update_of_ne ht _ _
  refine ⟨h.nonnull, h.table, h.current, fun hz => absurd hz hcur, fun _ hfree => ?_, ?_, ?_⟩
  · change ((killStatus s).thread s.pCurrentTask).status = .free at hfree
    rw [hself] at hfree
    cases hfree
  · intro t ht hst
    by_cases heq : t = s.pCurrentTask
    · exact heq
    · rw [hother t heq] at hst
      exact h.running t ht hst
  · intro t ht hr
    by_cases heq : t = s.pCurrentTask
    · rw [heq, runnable_iff, hself] at hr
      rcases hr with hr | hr <;> cases hr
    · rw [hother t heq] at hr ⊢
      exact h.saved t ht hr

theorem retire_cases (currentESP : ℕ) (t : KernelThread) (hquantum : t.quantum = 0) :
    t.status = .zombie ∧ (retire currentESP t).status = .free ∨
      (retire currentESP t).status = .wait ∧ (retire currentESP t).esp0 = currentESP := by
  unfold retire
  split_ifs with hz
  · exact Or.inl ⟨hz, rfl⟩
  · exact Or.inr ⟨rfl, rfl⟩

section Switch
variable {currentESP c into : ℕ}

theorem switchedTo_into (s : Sched) (currentESP c into : ℕ) :
    ((switchedTo currentESP c into s).thread into).status = .running ∧
      ((switchedTo currentESP c into s).thread into).esp0 =
        ((s.setThread s.pCurrentTask (retire currentESP)).thread into).esp0 := by
  rw [switchedTo, setThread_self]
  exact ⟨rfl, rfl⟩

theorem switchedTo_out {t : ℕ} (hinto : t ≠ into) :
    (switchedTo currentESP c into s).thread t =
      (s.setThread s.pCurrentTask (retire currentESP)).thread t := Function.update_of_ne hinto _ _

/-- After the current thread is retired no thread is running, and every runnable thread has the pointer
that it was stopped with. -/
theorem Saved.retired (h : Saved pre s)
    (hquantum : (s.thread s.pCurrentTask).quantum = 0) (cause : Cause) (into esp : ℕ) :
    (∀ t ∈ s.allocated,
      ((s.setThread s.pCurrentTask (retire currentESP)).thread t).status ≠ .running) ∧
    ∀ t ∈ s.allocated, runnable ((s.setThread s.pCurrentTask (retire currentESP)).thread t) = true →
      savedESP (pre ++ [.switched cause s.pCurrentTask currentESP into esp]) t =
        some ((s.setThread s.pCurrentTask (retire currentESP)).thread t).esp0 := by
  have hretire := retire_cases currentESP (s.thread s.pCurrentTask) hquantum
  constructor
  · intro t ht
    by_cases heq : t = s.pCurrentTask
    · rw [heq, setThread_self]
      rcases hretire with ⟨_, hst⟩ | ⟨hst, _⟩ <;> rw [hst] <;> decide
    · rw [setThread_other s _ heq]
      exact fun hst => heq (h.running t ht hst)
  · intro t ht hr
    rw [savedESP_snoc]
    by_cases heq : t = s.pCurrentTask
    · rw [heq, setThread_self] at hr ⊢
      rcases hretire with ⟨_, hst⟩ | ⟨_, hesp⟩
      · rw [runnable_iff, hst] at hr
        rcases hr with hr | hr <;> cases hr
      · rw [hesp]
        exact Function.update_self _ _ _
    · rw [setThread_other s _ heq] at hr ⊢
      exact (Function.update_of_ne heq _ _).trans (h.saved t ht hr)

theorem Saved.switched (h : Saved pre s) (cause : Cause) {esp : ℕ}
    (hquantum : (s.thread s.pCurrentTask).quantum = 0) (hinto : s.pThreads c = into) (hnull : into ≠ 0)
    (hrunnable : runnable ((s.setThread s.pCurrentTask (retire currentESP)).thread into) = true)
    (hesp : esp = ((s.setThread s.pCurrentTask (retire currentESP)).thread into).esp0) :
    Saved (pre ++ [.switched cause s.pCurrentTask currentESP into esp]) (switchedTo currentESP c into s) ∧
      SwitchSound pre s (.switched cause s.pCurrentTask currentESP into esp)
        (switchedTo currentESP c into s) := by
  have hmem : into ∈ s.allocated := hinto ▸ h.table c (by rwa [hinto])
  obtain ⟨hstopped, hsaved⟩ := @Saved.retired _ _ currentESP h hquantum cause into esp
  obtain ⟨hst, hkept⟩ := switchedTo_into s currentESP c into
  have hrunning : ∀ t ∈ s.allocated, ((switchedTo currentESP c into s).thread t).status = .running →
      t = into := by
    intro t ht hr
    by_contra hne
    rw [switchedTo_out hne] at hr
    exact hstopped t ht hr
  refine ⟨⟨h.nonnull, h.table, fun _ => hmem, fun hz => absurd hz hnull, fun _ hfree => ?_, hrunning, ?_⟩,
    ⟨fun _ _ _ heq => (by cases heq), ?_, ?_, hrunning⟩⟩
  · change ((switchedTo currentESP c into s).thread into).status = .free at hfree
    rw [hst] at hfree
    cases hfree
  · intro t ht hr
    by_cases heq : t = into
    · rw [heq, runnable_iff, hst] at hr
      rcases hr with hr | hr <;> cases hr
    · rw [switchedTo_out heq] at hr ⊢
      exact hsaved t ht hr
  · intro cause' out esp' t esp heq
    cases heq
    rw [hesp] at hsaved ⊢
    exact hsaved into hmem hrunnable
  · intro t ht hne
    by_cases heq : t = into
    · rw [heq] at hne ⊢
      rw [hkept, setThread_other s _ hne]
    · rw [switchedTo_out heq, setThread_other s _ hne]

end Switch

/-- A silent step neither returns from an interrupt nor dispatches. -/
theorem switchSound_silent {e : Event} (he : e.silent = true)
    (huntouched : ∀ t ∈ s.allocated, t ≠ s.pCurrentTask → (u.thread t).esp0 = (s.thread t).esp0)
    (hrunning : ∀ t ∈ u.allocated, (u.thread t).status = .running → t = u.pCurrentTask) :
    SwitchSound pre s e u := by
  refine ⟨fun _ _ _ heq => ?_, fun _ _ _ _ _ heq => ?_, huntouched, hrunning⟩
  · rw [heq] at he
    cases he
  · rw [heq] at he
    cases he

theorem SameThreads.silent (h : Saved pre s) (hsame : SameThreads s u) {e : Event} (he : e.silent = true) :
    Saved (pre ++ [e]) u ∧ SwitchSound pre s e u := by
  have hu := h.same hsame
  exact ⟨hu.silent he, switchSound_silent he (fun t _ _ => hsame.esp0 t) hu.running⟩

theorem Saved.switchCall (h : Saved pre s) (cause : Cause) {fuel currentESP esp : ℕ}
    (hrun : taskSwitch fuel currentESP s = some (esp, u)) :
    Saved (pre ++ [switchEvent cause s currentESP esp u]) u ∧
      SwitchSound pre s (switchEvent cause s currentESP esp u) u := by
  rcases taskSwitch_cases hrun with ⟨hcur, rfl, rfl⟩ | ⟨_, hquantum, rfl, rfl⟩ |
    ⟨hcur, hquantum, c, into, hinto, hnull, hrunnable, hesp, rfl⟩
  · rw [switchEvent, if_pos (Or.inl hcur)]
    refine ⟨h.returned _ _ _, fun _ _ _ heq => ?_, fun _ _ _ _ _ heq => (by cases heq), fun _ _ _ => rfl,
      h.running⟩
    cases heq
    exact ⟨rfl, rfl⟩
  · have hsame := sameThreads_set s s.pCurrentTask countTick (fun _ => rfl) (fun _ => rfl)
    have hu := h.same hsame
    rw [switchEvent, if_pos (Or.inr hquantum)]
    refine ⟨hu.returned _ _ _, fun _ _ _ heq => ?_, fun _ _ _ _ _ heq => (by cases heq),
      fun t _ _ => hsame.esp0 t, hu.running⟩
    cases heq
    exact ⟨rfl, rfl⟩
  · rw [switchEvent, if_neg (by omega)]
    exact h.switched cause hquantum hinto hnull hrunnable hesp

theorem sameThreads_phase (s : Sched) (t : ℕ) (p : Phase) : SameThreads s (s.setPhase t p) :=
  ⟨fun _ => rfl, fun _ => rfl, rfl, rfl, fun _ _ => rfl⟩

theorem sameThreads_pNice (t : ℕ) (newPriority : ℤ) (s : Sched) :
    SameThreads s (pNice t newPriority s) := by
  unfold pNice
  split_ifs
  · exact sameThreads_set s t _ (fun _ => rfl) (fun _ => rfl)
  · exact sameThreads_refl s

theorem sameThreads_endQuantum (p : Phase) (s : Sched) : SameThreads s (endQuantum p s) :=
  (sameThreads_set s s.pCurrentTask (fun t => { t with quantum := 0 }) (fun _ => rfl)
    (fun _ => rfl)).trans (sameThreads_phase _ _ _)

theorem sameThreads_killUnlink (s : Sched) : SameThreads s (killUnlink s) :=
  ⟨fun _ => rfl, fun _ => rfl, rfl, rfl, fun _ _ => rfl⟩

theorem sameThreads_killClear (s : Sched) : SameThreads s (killClear s) := by
  refine ⟨fun _ => rfl, fun _ => rfl, rfl, rfl, fun i hi => ?_⟩
  have hi' : Function.update s.pThreads s.currentTask 0 i ≠ 0 := hi
  by_cases heq : i = s.currentTask
  · rw [heq, Function.update_self] at hi'
    exact absurd rfl hi'
  · exact Function.update_of_ne heq _ _

theorem startScheduler_thread (s : Sched) (t : ℕ) :
    ((startScheduler s).thread t).esp0 = (s.thread t).esp0 ∧
      ((startScheduler s).thread t).status = (s.thread t).status ∧
      (startScheduler s).allocated = s.allocated := by
  unfold startScheduler
  split_ifs
  · exact ⟨rfl, rfl, rfl⟩
  · have hsame := sameThreads_set (s.setCurrent 0 (s.pThreads 0)) (s.pThreads 0)
      (fun t => { t with time := 0, quantum := 0 }) (fun _ => rfl) (fun _ => rfl)
    exact ⟨hsame.esp0 t, hsame.status t, rfl⟩

theorem killStatus_other {t : ℕ} (ht : t ≠ s.pCurrentTask) : (killStatus s).thread t = s.thread t :=
  Function.update_of_ne ht _ _

theorem Saved.step {e : Event} (h : Saved pre s) (hstep : SchedStep s e u) :
    Saved (pre ++ [e]) u ∧ SwitchSound pre s e u := by
  cases hstep with
  | create t stackBase eip _ hnull hfresh _ =>
    have hu := h.create stackBase eip hnull hfresh
    exact ⟨hu, fun _ _ _ heq => (by cases heq), fun _ _ _ _ _ heq => (by cases heq),
      fun t' ht' _ => congrArg KernelThread.esp0 (createKernelThread_old s stackBase eip hfresh ht'),
      hu.running⟩
  | createError _ => exact (sameThreads_refl s).silent h rfl
  | start hcur _ =>
    have hu := h.start hcur
    exact ⟨hu.silent rfl, switchSound_silent rfl (fun t _ _ => (startScheduler_thread s t).1) hu.running⟩
  | nice newPriority _ => exact (sameThreads_pNice s.pCurrentTask newPriority s).silent h rfl
  | pNice t newPriority _ => exact (sameThreads_pNice t newPriority s).silent h rfl
  | interrupt _ hrun => exact h.switchCall .timer hrun
  | softInterrupt _ _ hrun =>
    have hphase := sameThreads_phase s s.pCurrentTask .running
    obtain ⟨hsaved, hsound⟩ := (h.same hphase).switchCall .int20 hrun
    exact ⟨hsaved, hsound.returned, hsound.dispatched, hsound.untouched, hsound.running⟩
  | yieldQuantum _ _ => exact (sameThreads_endQuantum .yielding s).silent h rfl
  | killStatus hcur _ =>
    have hu := h.killed hcur
    exact ⟨hu.silent rfl, switchSound_silent rfl
      (fun t _ hne => congrArg KernelThread.esp0 (killStatus_other hne)) hu.running⟩
  | killMask _ => exact (sameThreads_phase s s.pCurrentTask .masked).silent h rfl
  | killUnlink _ => exact (sameThreads_killUnlink s).silent h rfl
  | killClear _ => exact (sameThreads_killClear s).silent h rfl
  | killUnmask _ => exact (sameThreads_phase s s.pCurrentTask .unmasked).silent h rfl
  | killQuantum _ => exact (sameThreads_endQuantum .leaving s).silent h rfl

/-- The step to `u` with event `e` leaves `t` free and does not dispatch it. -/
structure StaysFree (t : ℕ) (e : Event) (u : Sched) : Prop where
  allocated : t ∈ u.allocated
  free : (u.thread t).status = .free
  event : ∀ cause out currentESP esp, e ≠ .switched cause out currentESP t esp

theorem silent_ne_switched {e : Event} (he : e.silent = true) (cause : Cause) (out currentESP into esp : ℕ) :
    e ≠ .switched cause out currentESP into esp := by
  rintro rfl
  cases he

theorem SameThreads.staysFree (h : SameThreads s u) {t : ℕ} (ht : t ∈ s.allocated)
    (hfree : (s.thread t).status = .free) {e : Event} (he : e.silent = true) : StaysFree t e u :=
  ⟨h.allocated ▸ ht, (h.status t).trans hfree, fun _ _ _ _ => silent_ne_switched he _ _ _ _ _⟩

theorem switch_staysFree (cause : Cause) {fuel currentESP esp t : ℕ} (ht : t ∈ s.allocated)
    (hfree : (s.thread t).status = .free) (hdead : s.pCurrentTask ≠ 0 → t ≠ s.pCurrentTask)
    (hrun : taskSwitch fuel currentESP s = some (esp, u)) : StaysFree t (switchEvent cause s currentESP esp u) u := by
  rcases taskSwitch_cases hrun with ⟨hcur, rfl, rfl⟩ | ⟨_, hquantum, rfl, rfl⟩ |
    ⟨hcur, hquantum, c, into, hinto, hnull, hrunnable, hesp, rfl⟩
  · rw [switchEvent, if_pos (Or.inl hcur)]
    exact ⟨ht, hfree, fun _ _ _ _ heq => (by cases heq)⟩
  · rw [switchEvent, if_pos (Or.inr hquantum)]
    have hset := sameThreads_set s s.pCurrentTask countTick (fun _ => rfl) (fun _ => rfl)
    exact ⟨ht, (hset.status t).trans hfree, fun _ _ _ _ heq => (by cases heq)⟩
  · have hne := hdead hcur
    have hinto' : t ≠ into := by
      rintro rfl
      rw [setThread_other s _ hne, runnable_iff, hfree] at hrunnable
      rcases hrunnable with hr | hr <;> cases hr
    rw [switchEvent, if_neg (by omega)]
    refine ⟨ht, ?_, fun _ _ _ _ heq => ?_⟩
    · rw [switchedTo_out hinto', setThread_other s _ hne]
      exact hfree
    · cases heq
      exact hinto' rfl

/-- No step takes a freed thread out of that state or dispatches it. -/
theorem Saved.free_kept {e : Event} (h : Saved pre s) (hstep : SchedStep s e u) {t : ℕ}
    (ht : t ∈ s.allocated) (hfree : (s.thread t).status = .free) : StaysFree t e u := by
  have hdead : s.pCurrentTask ≠ 0 → t ≠ s.pCurrentTask := fun hcur heq => h.alive hcur (heq ▸ hfree)
  cases hstep with
  | create t' stackBase eip _ _ hfresh _ =>
    refine ⟨List.mem_cons_of_mem _ ht, ?_, fun _ _ _ _ heq => (by cases heq)⟩
    rw [createKernelThread_old s stackBase eip hfresh ht]
    exact hfree
  | createError _ => exact (sameThreads_refl s).staysFree ht hfree rfl
  | start _ _ =>
    obtain ⟨_, hstatus, halloc⟩ := startScheduler_thread s t
    exact ⟨halloc ▸ ht, hstatus.trans hfree, fun _ _ _ _ heq => (by cases heq)⟩
  | nice newPriority _ => exact (sameThreads_pNice s.pCurrentTask newPriority s).staysFree ht hfree rfl
  | pNice t' newPriority _ => exact (sameThreads_pNice t' newPriority s).staysFree ht hfree rfl
  | interrupt _ hrun => exact switch_staysFree .timer ht hfree hdead hrun
  | softInterrupt _ _ hrun =>
    exact switch_staysFree (s := s.setPhase s.pCurrentTask .running) .int20 ht hfree hdead hrun
  | yieldQuantum _ _ => exact (sameThreads_endQuantum .yielding s).staysFree ht hfree rfl
  | killStatus hcur _ =>
    refine ⟨ht, ?_, fun _ _ _ _ heq => (by cases heq)⟩
    rw [killStatus_other (hdead hcur)]
    exact hfree
  | killMask _ => exact (sameThreads_phase s s.pCurrentTask .masked).staysFree ht hfree rfl
  | killUnlink _ => exact (sameThreads_killUnlink s).staysFree ht hfree rfl
  | killClear _ => exact (sameThreads_killClear s).staysFree ht hfree rfl
  | killUnmask _ => exact (sameThreads_phase s s.pCurrentTask .unmasked).staysFree ht hfree rfl
  | killQuantum _ => exact (sameThreads_endQuantum .leaving s).staysFree ht hfree rfl

end Invariant

theorem run_saved {thread : ℕ → KernelThread} {links : Links Node} {events : List Event} {s : Sched}
    (h : Run SchedStep (clearThreads thread links) events s) : Saved events s :=
  h.history_invariant Saved (saved_clear thread links) fun _ _ _ _ hs hstep => (hs.step hstep).1

theorem free_forever {pre post : List Event} {s u : Sched} (h : Saved pre s)
    (hrun : Run SchedStep s post u) {t : ℕ} (ht : t ∈ s.allocated) (hfree : (s.thread t).status = .free) :
    ∀ cause out currentESP esp, Event.switched cause out currentESP t esp ∉ post := by
  induction hrun generalizing pre with
  | refl _ => exact fun _ _ _ _ => List.not_mem_nil
  | next hstep _ ih =>
    obtain ⟨ht', hfree', hevent⟩ := h.free_kept hstep ht hfree
    intro cause out currentESP esp hmem
    rcases List.mem_cons.mp hmem with heq | hmem
    · exact hevent cause out currentESP esp heq.symm
    · exact ih (h.step hstep).1 ht' hfree' cause out currentESP esp hmem

/-- In every run of the kernel each step is sound for context switches, and no freed thread is ever
dispatched again. -/
theorem contextSwitches_sound (thread : ℕ → KernelThread) (links : Links Node) (events : List Event) :
    Every SchedStep SwitchSound (clearThreads thread links) events ∧
      NeverRevived (clearThreads thread links) events := by
  constructor
  · exact every_of_history_invariant Saved (saved_clear thread links)
      (fun _ _ _ _ hs hstep => (hs.step hstep).1) (fun _ _ _ _ hs hstep => (hs.step hstep).2) events
  · rintro pre post u rfl hpre ⟨v, hpost⟩ t ht hfree
    exact free_forever (run_saved hpre) hpost ht hfree

end Ktux.ContextSwitch
