import Ktux.ContextSwitch

set_option autoImplicit false

/-!
# The thread list and the thread table

`lThreads` and `pThreads` hold the same threads as long as no timer interrupt retires the current thread
between the two statements of `kill` that mark it dead and turn interrupts off.
-/
namespace Ktux.ThreadTable
open Runs CircularList Scheduler ContextSwitch

/-- The list and the table name the same threads, each once, and none of them is free. -/
def Consistent (s : Sched) : Prop :=
  ∃ xs : List ℕ, Ring s.lThreads .lThreads (xs.map .thread) ∧
    (∀ t, t ∈ xs ↔ t ≠ 0 ∧ ∃ i < maxThreads, s.pThreads i = t) ∧
    (∀ i j, i < maxThreads → j < maxThreads → s.pThreads i = s.pThreads j → s.pThreads i ≠ 0 → i = j) ∧
    ∀ t ∈ xs, (s.thread t).status ≠ .free

/-- Whenever interrupts are enabled, list and table agree and hold no freed thread. -/
def DeadThreadsUnlinked (start : Sched) (events : List Event) : Prop :=
  ∀ pre s, pre <+: events → Run SchedStep start pre s → interruptsEnabled s → Consistent s

/-- No context switch away from a thread that is marked dead and still linked. -/
def Timely (_ : List Event) (s : Sched) (e : Event) (_ : Sched) : Prop :=
  s.phase s.pCurrentTask = .zombied → (s.thread s.pCurrentTask).quantum = 0 →
    ∀ cause out currentESP into esp, e ≠ .switched cause out currentESP into esp

def Scheduled (p : Phase) : Prop := p = .running ∨ p = .yielding

/-- What holds of the list `xs` of linked threads at every point. -/
structure Tables (xs : List ℕ) (s : Sched) : Prop where
  nonnull : 0 ∉ s.allocated
  ring : Ring s.lThreads .lThreads (xs.map .thread)
  once : ∀ i j, s.pThreads i = s.pThreads j → s.pThreads i ≠ 0 → i = j
  bound : s.numThreads ≤ maxThreads
  unused : ∀ i, s.numThreads ≤ i → s.pThreads i = 0
  listed : ∀ t ∈ xs, t ∈ s.allocated
  tabled : ∀ i, s.pThreads i ≠ 0 → s.pThreads i ∈ s.allocated
  entries : ∀ t, t ≠ s.pCurrentTask → (t ∈ xs ↔ t ≠ 0 ∧ ∃ i, s.pThreads i = t)
  waiting : ∀ t ∈ xs, t ≠ s.pCurrentTask → Scheduled (s.phase t) ∧ runnable (s.thread t) = true
  booting : s.pCurrentTask = 0 → s.phase 0 = .running

/-- What holds of the current thread, by the point that it has reached. -/
def Current (xs : List ℕ) (s : Sched) : Phase → Prop
  | .running | .yielding => s.pCurrentTask ∈ xs ∧ s.pThreads s.currentTask = s.pCurrentTask ∧
      (s.thread s.pCurrentTask).status ≠ .zombie ∧ (s.thread s.pCurrentTask).status ≠ .free
  | .zombied | .masked => s.pCurrentTask ∈ xs ∧ s.pThreads s.currentTask = s.pCurrentTask ∧
      (s.thread s.pCurrentTask).status = .zombie
  | .unlinked => s.pCurrentTask ∉ xs ∧ s.pThreads s.currentTask = s.pCurrentTask ∧
      (s.thread s.pCurrentTask).status = .zombie
  | .cleared | .unmasked => s.pCurrentTask ∉ xs ∧ ∀ i, s.pThreads i ≠ s.pCurrentTask
  | .leaving => s.pCurrentTask ∉ xs ∧ (∀ i, s.pThreads i ≠ s.pCurrentTask) ∧
      (s.thread s.pCurrentTask).quantum = 0

def Threads (s : Sched) : Prop :=
  ∃ xs, Tables xs s ∧ (s.pCurrentTask ≠ 0 → Current xs s (s.phase s.pCurrentTask))

theorem threads_clear (thread : ℕ → KernelThread) (links : Links Node) :
    Threads (clearThreads thread links) := by
  refine ⟨[], ?_, fun h => absurd rfl h⟩
  constructor
  case ring => exact ring_init _ _
  case entries =>
    intro t ht
    constructor
    · exact fun h => absurd h List.not_mem_nil
    · rintro ⟨_, _, rfl⟩
      exact absurd rfl ht
  case booting => exact fun _ => rfl
  case nonnull => exact List.not_mem_nil
  case once => exact fun _ _ _ h => absurd rfl h
  case bound => exact Nat.zero_le _
  case unused => exact fun _ _ => rfl
  case listed => exact fun _ h => absurd h List.not_mem_nil
  case tabled => exact fun _ h => absurd rfl h
  case waiting => exact fun _ h => absurd h List.not_mem_nil

section Invariant
variable {xs : List ℕ} {s u : Sched}

theorem thread_injective : Function.Injective Node.thread := fun _ _ h => Node.thread.inj h

theorem Tables.index_lt (h : Tables xs s) {i : ℕ} (hi : s.pThreads i ≠ 0) : i < maxThreads :=
  lt_of_lt_of_le (not_le.mp fun hle => hi (h.unused i hle)) h.bound

theorem Threads.consistent (h : Threads s) (henabled : interruptsEnabled s) : Consistent s := by
  obtain ⟨xs, htables, hcur⟩ := h
  have hnull : ∀ t ∈ xs, t ≠ 0 := fun t ht heq => htables.nonnull (heq ▸ htables.listed t ht)
  have hentries : ∀ t, t ∈ xs ↔ t ≠ 0 ∧ ∃ i, s.pThreads i = t := by
    intro t
    by_cases heq : t = s.pCurrentTask
    · by_cases hzero : t = 0
      · exact iff_of_false (fun ht => hnull t ht hzero) fun ht => ht.1 hzero
      · obtain ⟨hmasked, hunlinked, hcleared⟩ := henabled
        have hat := hcur (heq ▸ hzero)
        have hin : s.pCurrentTask ∈ xs → s.pThreads s.currentTask = s.pCurrentTask →
            (t ∈ xs ↔ t ≠ 0 ∧ ∃ i, s.pThreads i = t) := fun hmem hindex =>
          iff_of_true (heq ▸ hmem) ⟨hzero, _, hindex.trans heq.symm⟩
        have hout : s.pCurrentTask ∉ xs → (∀ i, s.pThreads i ≠ s.pCurrentTask) →
            (t ∈ xs ↔ t ≠ 0 ∧ ∃ i, s.pThreads i = t) := fun hmem hindex =>
          iff_of_false (heq ▸ hmem) fun ⟨_, i, hi⟩ => hindex i (hi.trans heq)
        cases hp : s.phase s.pCurrentTask <;> rw [hp] at hat
        case running | yielding | zombied => exact hin hat.1 hat.2.1
        case masked => exact absurd hp hmasked
        case unlinked => exact absurd hp hunlinked
        case cleared => exact absurd hp hcleared
        case unmasked => exact hout hat.1 hat.2
        case leaving => exact hout hat.1 hat.2.1
    · exact htables.entries t heq
  refine ⟨xs, htables.ring, fun t => ?_, fun i j _ _ => htables.once i j, fun t ht hfree => ?_⟩
  · rw [hentries]
    refine and_congr_right fun hzero => exists_congr fun i => ?_
    exact (and_iff_right_of_imp fun hi => htables.index_lt (hi ▸ hzero)).symm
  · by_cases heq : t = s.pCurrentTask
    · have hat := hcur (heq ▸ hnull t ht)
      rw [heq] at ht hfree
      cases hp : s.phase s.pCurrentTask <;> rw [hp] at hat
      case running | yielding => exact hat.2.2.2 hfree
      case zombied | masked =>
        have hzombie := hat.2.2
        rw [hfree] at hzombie
        cases hzombie
      case unlinked | cleared | unmasked | leaving => exact hat.1 ht
    · have hrun := (htables.waiting t ht heq).2
      rw [runnable_iff, hfree] at hrun
      rcases hrun with hrun | hrun <;> cases hrun

theorem Tables.frame (h : Tables xs s) {thread : ℕ → KernelThread} {phase : ℕ → Phase}
    (hstatus : ∀ t, t ≠ s.pCurrentTask → (thread t).status = (s.thread t).status)
    (hphase : ∀ t, t ≠ s.pCurrentTask → phase t = s.phase t)
    (hboot : s.pCurrentTask = 0 → phase 0 = .running) :
    Tables xs { s with thread := thread, phase := phase } := by
  refine ⟨h.nonnull, h.ring, h.once, h.bound, h.unused, h.listed, h.tabled, h.entries, ?_, hboot⟩
  intro t ht hne
  obtain ⟨hscheduled, hrun⟩ := h.waiting t ht hne
  change Scheduled (phase t) ∧ runnable (thread t) = true
  refine ⟨hphase t hne ▸ hscheduled, ?_⟩
  rw [runnable_iff] at hrun ⊢
  rwa [hstatus t hne]

theorem Tables.setCurrentThread (h : Tables xs s) (hcur : s.pCurrentTask ≠ 0)
    (f : KernelThread → KernelThread) (p : Phase) :
    Tables xs ((s.setThread s.pCurrentTask f).setPhase s.pCurrentTask p) :=
  h.frame (fun _ ht => congrArg KernelThread.status (setThread_other s f ht))
    (fun _ ht => Function.update_of_ne ht _ _) fun hzero => absurd hzero hcur

theorem Tables.setPhase (h : Tables xs s) (hcur : s.pCurrentTask ≠ 0) (p : Phase) :
    Tables xs (s.setPhase s.pCurrentTask p) :=
  h.frame (fun _ _ => rfl) (fun _ ht => Function.update_of_ne ht _ _) fun hzero => absurd hzero hcur

theorem Tables.current_ne (h : Tables xs s) {p : Phase} (hphase : s.phase s.pCurrentTask = p)
    (hp : p ≠ .running) : s.pCurrentTask ≠ 0 := by
  intro hzero
  rw [hzero, h.booting hzero] at hphase
  exact hp hphase.symm

/-- Outside ordinary code there is a current thread, at the point that its phase says. -/
theorem Threads.atPhase (h : Threads s) {p : Phase} (hphase : s.phase s.pCurrentTask = p)
    (hp : p ≠ .running) : ∃ xs, Tables xs s ∧ s.pCurrentTask ≠ 0 ∧ Current xs s p := by
  obtain ⟨xs, htables, hcur⟩ := h
  have hne := htables.current_ne hphase hp
  have hat := hcur hne
  rw [hphase] at hat
  exact ⟨xs, htables, hne, hat⟩

theorem Current.congr {p : Phase} (h : Current xs s p) (hcur : u.pCurrentTask = s.pCurrentTask)
    (hindex : u.currentTask = s.currentTask) (htable : u.pThreads = s.pThreads)
    (hstatus : (u.thread s.pCurrentTask).status = (s.thread s.pCurrentTask).status)
    (hquantum : p = .leaving → (u.thread s.pCurrentTask).quantum = 0) : Current xs u p := by
  cases p
  case leaving =>
    simp only [Current, hcur, htable]
    exact ⟨h.1, h.2.1, hquantum rfl⟩
  all_goals
    simp only [Current, hcur, hindex, htable, hstatus]
    exact h

theorem Threads.setPriority (h : Threads s) (t : ℕ) (newPriority : ℤ) :
    Threads (pNice t newPriority s) := by
  unfold pNice
  split_ifs
  · obtain ⟨xs, htables, hcur⟩ := h
    have hsame := sameThreads_set s t (fun k => { k with priority := newPriority }) (fun _ => rfl)
      (fun _ => rfl)
    have hquantum : ((s.setThread t fun k => { k with priority := newPriority }).thread
        s.pCurrentTask).quantum = (s.thread s.pCurrentTask).quantum := by
      by_cases heq : s.pCurrentTask = t
      · rw [← heq, setThread_self]
      · rw [setThread_other s _ heq]
    refine ⟨xs, htables.frame (fun t' _ => hsame.status t') (fun _ _ => rfl) htables.booting, fun hne => ?_⟩
    refine (hcur hne).congr rfl rfl rfl (hsame.status _) fun hp => hquantum.trans ?_
    exact (hp ▸ hcur hne).2.2
  · exact h

theorem Tables.create (h : Tables xs s) {t : ℕ} (stackBase eip : ℕ) (hnull : t ≠ 0) (hfresh : t ∉ s.allocated)
    (hroom : s.numThreads < maxThreads) : Tables (t :: xs) (createKernelThread t stackBase eip s) := by
  have hcreated := createKernelThread_created t stackBase eip s
  have ⟨hindex, hold, hthread, hself⟩ := hcreated
  have hfree : s.pThreads s.numThreads = 0 := h.unused _ le_rfl
  have hnew := not_tabled h.tabled hnull hfresh
  have hne : ∀ t' ∈ xs, t' ≠ t := fun t' ht' heq => hfresh (heq ▸ h.listed t' ht')
  constructor
  case nonnull => exact List.not_mem_cons_of_ne_of_not_mem hnull.symm h.nonnull
  case ring =>
    refine h.ring.listAdd (List.not_mem_cons_of_ne_of_not_mem (fun heq => (by cases heq)) ?_)
    rw [List.mem_map_of_injective thread_injective]
    exact fun ht => hne t ht rfl
  case bound => exact hroom
  case unused => exact fun _ hi => hcreated.unused h.unused hi
  case once => exact fun _ _ heq hi => hcreated.once hnew h.once heq hi
  case listed =>
    intro t' ht'
    rcases List.mem_cons.mp ht' with rfl | ht'
    · exact List.mem_cons_self ..
    · exact List.mem_cons_of_mem _ (h.listed t' ht')
  case tabled => exact fun _ hi => hcreated.tabled h.tabled hi
  case entries =>
    intro t' ht'
    rw [List.mem_cons]
    by_cases heq : t' = t
    · rw [heq]
      exact iff_of_true (Or.inl rfl) ⟨hnull, _, hindex⟩
    · rw [or_iff_right heq, h.entries t' ht']
      refine and_congr_right fun hzero => exists_congr fun i => ?_
      by_cases hin : i = s.numThreads
      · rw [hin, hindex, hfree]
        exact iff_of_false (Ne.symm hzero) (Ne.symm heq)
      · rw [hold i hin]
  case waiting =>
    intro t' ht' hcurrent
    rcases List.mem_cons.mp ht' with rfl | ht'
    · exact ⟨Or.inl hself.1, hself.2⟩
    · obtain ⟨hkeep, hkept⟩ := hthread t' (hne t' ht')
      rw [hkeep, hkept]
      exact h.waiting t' ht' hcurrent
  case booting =>
    intro hzero
    rw [(hthread 0 hnull.symm).2]
    exact h.booting hzero

theorem Threads.create (h : Threads s) {t : ℕ} (stackBase eip : ℕ)
    (hphase : s.phase s.pCurrentTask = .running) (hnull : t ≠ 0) (hfresh : t ∉ s.allocated)
    (hroom : s.numThreads < maxThreads) : Threads (createKernelThread t stackBase eip s) := by
  obtain ⟨xs, htables, hcur⟩ := h
  obtain ⟨-, hold, hthread, -⟩ := createKernelThread_created t stackBase eip s
  refine ⟨t :: xs, htables.create stackBase eip hnull hfresh hroom, fun hzero => ?_⟩
  have hat := hcur hzero
  rw [hphase] at hat
  obtain ⟨hmem, hcurrent, hstatus⟩ := hat
  obtain ⟨hkeep, hkept⟩ := hthread s.pCurrentTask fun heq => hfresh (heq ▸ htables.listed _ hmem)
  have hp : (createKernelThread t stackBase eip s).phase s.pCurrentTask = .running := hkept.trans hphase
  change Current _ _ ((createKernelThread t stackBase eip s).phase s.pCurrentTask)
  rw [hp]
  refine ⟨List.mem_cons_of_mem _ hmem, ?_, ?_⟩
  · refine (hold s.currentTask fun heq => ?_).trans hcurrent
    rw [heq, htables.unused _ le_rfl] at hcurrent
    exact hzero hcurrent.symm
  · change ((createKernelThread t stackBase eip s).thread s.pCurrentTask).status ≠ _ ∧
      ((createKernelThread t stackBase eip s).thread s.pCurrentTask).status ≠ _
    rw [hkeep]
    exact hstatus

theorem Threads.start (h : Threads s) (hzero : s.pCurrentTask = 0) : Threads (startScheduler s) := by
  unfold startScheduler
  split_ifs
  · exact h
  obtain ⟨xs, htables, _⟩ := h
  have hsame := sameThreads_set s (s.pThreads 0) (fun t => { t with time := 0, quantum := 0 })
    (fun _ => rfl) (fun _ => rfl)
  have hentries : ∀ t, t ≠ 0 → (t ∈ xs ↔ t ≠ 0 ∧ ∃ i, s.pThreads i = t) := fun t ht =>
    htables.entries t (hzero ▸ ht)
  have hready : ∀ t ∈ xs, Scheduled (s.phase t) ∧ runnable (s.thread t) = true := fun t ht =>
    htables.waiting t ht fun heq => htables.nonnull ((heq.trans hzero) ▸ htables.listed t ht)
  refine ⟨xs, ⟨htables.nonnull, htables.ring, htables.once, htables.bound, htables.unused, htables.listed,
    htables.tabled, fun t ht => ?_, fun t ht _ => ?_, fun _ => htables.booting hzero⟩, fun hne => ?_⟩
  · by_cases ht0 : t = 0
    · exact iff_of_false (fun hmem => htables.nonnull (ht0 ▸ htables.listed t hmem)) fun h => h.1 ht0
    · exact hentries t ht0
  · refine ⟨(hready t ht).1, ?_⟩
    rw [runnable_iff]
    exact (hsame.status t).symm ▸ (runnable_iff _).mp (hready t ht).2
  · have hmem : s.pThreads 0 ∈ xs := (hentries _ hne).mpr ⟨hne, 0, rfl⟩
    obtain ⟨hscheduled, hrun⟩ := hready _ hmem
    have hstatus := (runnable_iff _).mp hrun
    rw [← hsame.status] at hstatus
    have hat : s.pThreads 0 ∈ xs ∧ s.pThreads 0 = s.pThreads 0 ∧
        ((s.setThread (s.pThreads 0) fun t => { t with time := 0, quantum := 0 }).thread
          (s.pThreads 0)).status ≠ .zombie ∧
        ((s.setThread (s.pThreads 0) fun t => { t with time := 0, quantum := 0 }).thread
          (s.pThreads 0)).status ≠ .free := by
      refine ⟨hmem, rfl, ?_, ?_⟩ <;> rcases hstatus with hst | hst <;> rw [hst] <;> decide
    change Current xs _ (s.phase (s.pThreads 0))
    rcases hscheduled with hp | hp <;> rw [hp] <;> exact hat

/-- The current thread can be retired: it is linked, alive and in ordinary code, or unlinked. -/
def Retirable (xs : List ℕ) (s : Sched) : Prop :=
  s.pCurrentTask ∈ xs ∧ (∃ i, s.pThreads i = s.pCurrentTask) ∧ Scheduled (s.phase s.pCurrentTask) ∧
      (s.thread s.pCurrentTask).status ≠ .zombie ∨
    s.pCurrentTask ∉ xs ∧ ∀ i, s.pThreads i ≠ s.pCurrentTask

theorem Tables.switched (h : Tables xs s) (hcur : s.pCurrentTask ≠ 0) (hat : Retirable xs s)
    (hquantum : (s.thread s.pCurrentTask).quantum = 0) {currentESP c into : ℕ}
    (hinto : s.pThreads c = into) (hnull : into ≠ 0) : Threads (switchedTo currentESP c into s) := by
  have hretired : s.pCurrentTask ∈ xs → Scheduled (s.phase s.pCurrentTask) ∧
      (retire currentESP (s.thread s.pCurrentTask)).status = .wait := by
    intro hmem
    rcases hat with ⟨_, _, hscheduled, hstatus⟩ | ⟨hout, _⟩
    · refine ⟨hscheduled, ?_⟩
      rcases retire_cases currentESP _ hquantum with ⟨hzombie, _⟩ | ⟨hwait, _⟩
      · exact absurd hzombie hstatus
      · exact hwait
    · exact absurd hmem hout
  have hentries : ∀ t, t ∈ xs ↔ t ≠ 0 ∧ ∃ i, s.pThreads i = t := by
    intro t
    by_cases heq : t = s.pCurrentTask
    · rw [heq]
      rcases hat with ⟨hmem, hindex, _⟩ | ⟨hmem, hindex⟩
      · exact iff_of_true hmem ⟨hcur, hindex⟩
      · exact iff_of_false hmem fun ⟨_, i, hi⟩ => hindex i hi
    · exact h.entries t heq
  have hmem : into ∈ xs := (hentries into).mpr ⟨hnull, c, hinto⟩
  have hscheduled : Scheduled (s.phase into) := by
    by_cases heq : into = s.pCurrentTask
    · rw [heq] at hmem ⊢
      exact (hretired hmem).1
    · exact (h.waiting into hmem heq).1
  refine ⟨xs, ⟨h.nonnull, h.ring, h.once, h.bound, h.unused, h.listed, h.tabled, fun t _ => hentries t,
    fun t ht hne => ?_, fun hzero => absurd hzero hnull⟩, fun _ => ?_⟩
  · have hout : (switchedTo currentESP c into s).thread t = _ := switchedTo_out hne
    change Scheduled (s.phase t) ∧ _
    rw [hout]
    by_cases heq : t = s.pCurrentTask
    · rw [heq] at ht ⊢
      obtain ⟨hs, hwait⟩ := hretired ht
      rw [setThread_self, runnable_iff]
      exact ⟨hs, Or.inr hwait⟩
    · rw [setThread_other s _ heq]
      exact h.waiting t ht heq
  · have hst := (switchedTo_into s currentESP c into).1
    change Current xs _ (s.phase into)
    have hrunning : into ∈ xs ∧ s.pThreads c = into ∧
        ((switchedTo currentESP c into s).thread into).status ≠ .zombie ∧
        ((switchedTo currentESP c into s).thread into).status ≠ .free := by
      rw [hst]
      exact ⟨hmem, hinto, by decide, by decide⟩
    rcases hscheduled with hp | hp <;> rw [hp] <;> exact hrunning

theorem Current.retirable {p : Phase} (h : Current xs s p) (hphase : s.phase s.pCurrentTask = p)
    (henabled : interruptsEnabled s) (hp : p ≠ .zombied) : Retirable xs s := by
  obtain ⟨hmasked, hunlinked, hcleared⟩ := henabled
  rw [hphase] at hmasked hunlinked hcleared
  cases p
  case running => exact Or.inl ⟨h.1, ⟨_, h.2.1⟩, Or.inl hphase, h.2.2.1⟩
  case yielding => exact Or.inl ⟨h.1, ⟨_, h.2.1⟩, Or.inr hphase, h.2.2.1⟩
  case zombied => exact absurd rfl hp
  case masked => exact absurd rfl hmasked
  case unlinked => exact absurd rfl hunlinked
  case cleared => exact absurd rfl hcleared
  case unmasked => exact Or.inr h
  case leaving => exact Or.inr ⟨h.1, h.2.1⟩

theorem Threads.interrupt (h : Threads s) (henabled : interruptsEnabled s)
    (htimely : s.phase s.pCurrentTask = .zombied → (s.thread s.pCurrentTask).quantum ≠ 0)
    {fuel currentESP esp : ℕ} (hrun : taskSwitch fuel currentESP s = some (esp, u)) : Threads u := by
  obtain ⟨xs, htables, hcur⟩ := h
  rcases taskSwitch_cases hrun with ⟨_, _, rfl⟩ | ⟨hne, hquantum, _, rfl⟩ |
    ⟨hne, hquantum, c, into, hinto, hnull, _, _, rfl⟩
  · exact ⟨xs, htables, hcur⟩
  · have hsame := sameThreads_set s s.pCurrentTask countTick (fun _ => rfl) (fun _ => rfl)
    refine ⟨xs, htables.frame (fun t _ => hsame.status t) (fun _ _ => rfl) htables.booting, fun _ => ?_⟩
    refine (hcur hne).congr rfl rfl rfl (hsame.status _) fun hp => ?_
    have hzero := (hp ▸ hcur hne).2.2
    exact absurd hzero (Nat.pos_iff_ne_zero.mp hquantum)
  · have hp : s.phase s.pCurrentTask ≠ .zombied := fun hp => htimely hp hquantum
    exact htables.switched hne ((hcur hne).retirable rfl henabled hp) hquantum hinto hnull

theorem Threads.softInterrupt (h : Threads s) (hne : s.pCurrentTask ≠ 0)
    (hphase : s.phase s.pCurrentTask = .yielding ∨ s.phase s.pCurrentTask = .leaving)
    {fuel currentESP esp : ℕ}
    (hrun : taskSwitch fuel currentESP (s.setPhase s.pCurrentTask .running) = some (esp, u)) :
    Threads u := by
  obtain ⟨xs, htables, hcur⟩ := h
  have hset := htables.setPhase hne .running
  have hself : (s.setPhase s.pCurrentTask .running).phase s.pCurrentTask = .running :=
    Function.update_self _ _ _
  have hat := hcur hne
  rcases hphase with hp | hp
  · rw [hp] at hat
    refine @Threads.interrupt _ u ⟨xs, hset, fun _ => ?_⟩ ?_ ?_ fuel currentESP esp hrun
    · exact hself.symm ▸ hat
    · refine ⟨?_, ?_, ?_⟩ <;> exact fun heq => by cases hself.symm.trans heq
    · exact fun heq => by cases hself.symm.trans heq
  · rw [hp] at hat
    obtain ⟨hout, htable, hquantum⟩ := hat
    rcases taskSwitch_cases hrun with ⟨hz, _, _⟩ | ⟨_, hpos, _, _⟩ |
      ⟨_, _, c, into, hinto, hnull, _, _, rfl⟩
    · exact absurd hz hne
    · exact absurd hquantum (Nat.pos_iff_ne_zero.mp hpos)
    · exact hset.switched hne (Or.inr ⟨hout, htable⟩) hquantum hinto hnull

theorem Tables.move (h : Tables xs s) (hne : s.pCurrentTask ≠ 0) (f : KernelThread → KernelThread)
    (p : Phase) (hat : Current xs (s.setThread s.pCurrentTask f) p) :
    Threads ((s.setThread s.pCurrentTask f).setPhase s.pCurrentTask p) := by
  refine ⟨xs, h.setCurrentThread hne f p, fun _ => ?_⟩
  have hself : ((s.setThread s.pCurrentTask f).setPhase s.pCurrentTask p).phase s.pCurrentTask = p :=
    Function.update_self _ _ _
  change Current xs _ (((s.setThread s.pCurrentTask f).setPhase s.pCurrentTask p).phase s.pCurrentTask)
  rw [hself]
  refine hat.congr rfl rfl rfl rfl fun hp => ?_
  rw [hp] at hat
  exact hat.2.2

theorem Threads.zombied (h : Threads s) (hne : s.pCurrentTask ≠ 0)
    (hphase : s.phase s.pCurrentTask = .running) : Threads (killStatus s) := by
  obtain ⟨xs, htables, hcur⟩ := h
  have hat := hcur hne
  rw [hphase] at hat
  refine htables.move hne _ .zombied ⟨hat.1, hat.2.1, ?_⟩
  exact congrArg KernelThread.status (setThread_self s s.pCurrentTask _)

theorem Threads.endQuantum (h : Threads s) {p q : Phase} (hne : s.pCurrentTask ≠ 0)
    (hphase : s.phase s.pCurrentTask = p)
    (hpq : p = .running ∧ q = .yielding ∨ p = .unmasked ∧ q = .leaving) : Threads (endQuantum q s) := by
  obtain ⟨xs, htables, hcur⟩ := h
  have hat := hcur hne
  rw [hphase] at hat
  have hsame := sameThreads_set s s.pCurrentTask (fun t => { t with quantum := 0 }) (fun _ => rfl)
    (fun _ => rfl)
  refine htables.move hne _ q ?_
  rcases hpq with ⟨rfl, rfl⟩ | ⟨rfl, rfl⟩
  · refine ⟨hat.1, hat.2.1, ?_, ?_⟩
    · exact (hsame.status s.pCurrentTask).symm ▸ hat.2.2.1
    · exact (hsame.status s.pCurrentTask).symm ▸ hat.2.2.2
  · exact ⟨hat.1, hat.2, congrArg KernelThread.quantum (setThread_self s s.pCurrentTask _)⟩

theorem Threads.setPhase (h : Threads s) {p q : Phase} (hphase : s.phase s.pCurrentTask = p)
    (hpq : p = .zombied ∧ q = .masked ∨ p = .cleared ∧ q = .unmasked) :
    Threads (s.setPhase s.pCurrentTask q) := by
  obtain ⟨xs, htables, hne, hat⟩ := h.atPhase hphase (by rcases hpq with ⟨rfl, _⟩ | ⟨rfl, _⟩ <;> decide)
  refine ⟨xs, htables.setPhase hne q, fun _ => ?_⟩
  have hself : (s.setPhase s.pCurrentTask q).phase s.pCurrentTask = q := Function.update_self _ _ _
  change Current xs _ ((s.setPhase s.pCurrentTask q).phase s.pCurrentTask)
  rw [hself]
  rcases hpq with ⟨rfl, rfl⟩ | ⟨rfl, rfl⟩ <;> exact hat

theorem Threads.unlinked (h : Threads s) (hphase : s.phase s.pCurrentTask = .masked) :
    Threads (killUnlink s) := by
  obtain ⟨xs, htables, hne, hmem, hindex, hstatus⟩ := h.atPhase hphase (by decide)
  have hnodup : xs.Nodup := List.Nodup.of_map _ (List.nodup_cons.mp htables.ring.nodup).2
  have hring := htables.ring.listDel (List.mem_map_of_mem hmem)
  rw [← List.map_erase thread_injective] at hring
  refine ⟨xs.erase s.pCurrentTask, ⟨htables.nonnull, hring, htables.once, htables.bound, htables.unused,
    fun t ht => htables.listed t (List.mem_of_mem_erase ht), htables.tabled, fun t ht => ?_,
    fun t ht (hcurrent : t ≠ s.pCurrentTask) => ?_, fun hzero => absurd hzero hne⟩, fun _ => ?_⟩
  · have hcurrent : t ≠ s.pCurrentTask := ht
    rw [List.mem_erase_of_ne hcurrent]
    exact htables.entries t hcurrent
  · change Scheduled (Function.update s.phase s.pCurrentTask _ t) ∧ _
    rw [Function.update_of_ne hcurrent]
    exact htables.waiting t (List.mem_of_mem_erase ht) hcurrent
  · change Current _ _ (Function.update s.phase s.pCurrentTask _ s.pCurrentTask)
    rw [Function.update_self]
    exact ⟨hnodup.not_mem_erase, hindex, hstatus⟩

theorem Threads.cleared (h : Threads s) (hphase : s.phase s.pCurrentTask = .unlinked) :
    Threads (killClear s) := by
  obtain ⟨xs, htables, hne, hmem, hindex, hstatus⟩ := h.atPhase hphase (by decide)
  refine ⟨xs, ⟨htables.nonnull, htables.ring, fun i j heq hi => killClear_once htables.once heq hi,
    htables.bound, fun i hi => killClear_unused htables.unused hi, htables.listed,
    fun i hi => killClear_tabled htables.tabled hi, fun t ht => ?_,
    fun t ht (hcurrent : t ≠ s.pCurrentTask) => ?_, fun hzero => absurd hzero hne⟩, fun _ => ?_⟩
  · rw [htables.entries t ht]
    refine and_congr_right fun hzero => exists_congr fun i => ?_
    by_cases hi : i = s.currentTask
    · rw [hi, killClear_gone, hindex]
      exact iff_of_false (Ne.symm ht) (Ne.symm hzero)
    · rw [killClear_keep hi]
  · change Scheduled (Function.update s.phase s.pCurrentTask _ t) ∧ _
    rw [Function.update_of_ne hcurrent]
    exact htables.waiting t ht hcurrent
  · change Current _ _ (Function.update s.phase s.pCurrentTask _ s.pCurrentTask)
    rw [Function.update_self]
    refine ⟨hmem, fun i hi => ?_⟩
    have hi0 : (killClear s).pThreads i ≠ 0 := fun heq => hne (hi.symm.trans heq)
    obtain ⟨hic, hi'⟩ := killClear_entry hi0
    have hsame : s.pThreads i = s.pThreads s.currentTask := (hi'.symm.trans hi).trans hindex.symm
    exact hic (htables.once i _ hsame (hi' ▸ hi0))

theorem Threads.step {pre : List Event} {e : Event} (h : Threads s) (hstep : SchedStep s e u)
    (htimely : Timely pre s e u) : Threads u := by
  cases hstep with
  | create t stackBase eip hphase hnull hfresh hroom => exact h.create stackBase eip hphase hnull hfresh hroom
  | createError _ => exact h
  | start hcur _ => exact h.start hcur
  | nice newPriority _ => exact h.setPriority s.pCurrentTask newPriority
  | pNice t newPriority _ => exact h.setPriority t newPriority
  | @interrupt fuel _ currentESP esp henabled hrun =>
    refine h.interrupt henabled (fun hp hquantum => ?_) hrun
    obtain ⟨xs, htables, _⟩ := h
    have hne := htables.current_ne hp (by decide)
    refine htimely hp hquantum .timer s.pCurrentTask currentESP u.pCurrentTask esp ?_
    exact if_neg (not_or.mpr ⟨hne, by omega⟩)
  | softInterrupt hcur hphase hrun => exact h.softInterrupt hcur hphase hrun
  | yieldQuantum hcur hphase => exact h.endQuantum hcur hphase (Or.inl ⟨rfl, rfl⟩)
  | killStatus hcur hphase => exact h.zombied hcur hphase
  | killMask hphase => exact h.setPhase hphase (Or.inl ⟨rfl, rfl⟩)
  | killUnlink hphase => exact h.unlinked hphase
  | killClear hphase => exact h.cleared hphase
  | killUnmask hphase => exact h.setPhase hphase (Or.inr ⟨rfl, rfl⟩)
  | killQuantum hphase =>
    have hne : s.pCurrentTask ≠ 0 := by
      obtain ⟨xs, htables, _⟩ := h
      exact htables.current_ne hphase (by decide)
    exact h.endQuantum hne hphase (Or.inr ⟨rfl, rfl⟩)

/-- A switch away from a dead thread that is still linked leaves it on the list, freed. -/
theorem Threads.untimely {pre : List Event} {e : Event} (h : Threads s) (hstep : SchedStep s e u)
    (huntimely : ¬ Timely pre s e u) : interruptsEnabled u ∧ ¬ Consistent u := by
  simp only [Timely, not_forall, not_not] at huntimely
  obtain ⟨hp, hquantum, cause, out, currentESP, into, esp, he⟩ := huntimely
  obtain ⟨xs, htables, hne, hmem, hindex, hzombie⟩ := h.atPhase hp (by decide)
  cases hstep with
  | @interrupt fuel _ currentESP' esp' henabled hrun =>
    rcases taskSwitch_cases hrun with ⟨hz, _, _⟩ | ⟨_, hpos, _, _⟩ |
      ⟨_, _, c, t, hinto, hnull, hrunnable, _, rfl⟩
    · exact absurd hz hne
    · omega
    · have hdead : (retire currentESP' (s.thread s.pCurrentTask)).status = .free := by
        rw [retire, if_pos hzombie]
      have hother : t ≠ s.pCurrentTask := by
        rintro rfl
        rw [setThread_self, runnable_iff, hdead] at hrunnable
        rcases hrunnable with hr | hr <;> cases hr
      have hlinked : t ∈ xs := (htables.entries t hother).mpr ⟨hnull, c, hinto⟩
      constructor
      · have hscheduled := (htables.waiting t hlinked hother).1
        change s.phase t ≠ _ ∧ s.phase t ≠ _ ∧ s.phase t ≠ _
        rcases hscheduled with hq | hq <;> rw [hq] <;> decide
      · rintro ⟨ys, _, hentries, _, hfree⟩
        have hlisted : s.pCurrentTask ∈ ys := by
          refine (hentries _).mpr ⟨hne, s.currentTask, htables.index_lt ?_, hindex⟩
          rw [hindex]
          exact hne
        refine hfree _ hlisted ?_
        rw [switchedTo_out hother.symm, setThread_self]
        exact hdead
  | softInterrupt _ hphase _ =>
    rw [hp] at hphase
    rcases hphase with hq | hq <;> cases hq
  | _ => cases he

end Invariant

theorem run_threads {thread : ℕ → KernelThread} {links : Links Node} {events : List Event} {s : Sched}
    (htimely : Every SchedStep Timely (clearThreads thread links) events)
    (h : Run SchedStep (clearThreads thread links) events s) : Threads s :=
  h.guarded_invariant (fun _ => Threads) (threads_clear thread links)
    (fun _ _ _ _ _ hs hstep ht => hs.step hstep ht) htimely

/-- `lThreads` and `pThreads` agree in every state with interrupts enabled of exactly those runs in which
no interrupt switches away from a thread that is marked dead and still linked. -/
theorem deadThreadsUnlinked_iff (thread : ℕ → KernelThread) (links : Links Node) (events : List Event) :
    DeadThreadsUnlinked (clearThreads thread links) events ↔
      Every SchedStep Timely (clearThreads thread links) events := by
  constructor
  · intro h
    have hsafe : Every SchedStep (fun _ _ _ v => interruptsEnabled v → Consistent v)
        (clearThreads thread links) events := by
      rintro pre e post u v rfl hrun hstep henabled
      have hprefix : pre ++ [e] <+: pre ++ e :: post := ⟨post, by simp⟩
      exact h _ v hprefix (hrun.snoc hstep) henabled
    have htimely : ∀ pre u e v, Threads u → SchedStep u e v → (interruptsEnabled v → Consistent v) →
        Timely pre u e v := by
      intro pre u e v hu hstep hv
      by_contra huntimely
      obtain ⟨henabled, hbroken⟩ := hu.untimely hstep huntimely
      exact hbroken (hv henabled)
    exact every_of_guarded_invariant (fun _ => Threads) (threads_clear thread links)
      (fun pre u e v _ hu hstep hv => hu.step hstep (htimely pre u e v hu hstep hv)) htimely hsafe
  · rintro h pre s ⟨post, rfl⟩ hrun henabled
    refine (run_threads (fun pre' e post' u v heq => ?_) hrun).consistent henabled
    exact h pre' e (post' ++ post) u v (by simp [heq])

def noThread : KernelThread := ⟨0, 0, .init, 0, 0, 0, 0⟩

def bootState : Sched := clearThreads (fun _ => noThread) ⟨fun _ => none, fun _ => none⟩

def dying : Sched :=
  killStatus (startScheduler
    (createKernelThread 0x2000 0x8000 0 (createKernelThread 0x1000 0x6000 0 bootState)))

theorem dying_run : Run SchedStep bootState [.created 0x1000 0x6000 (initialESP 0x6000 0),
    .created 0x2000 0x8000 (initialESP 0x8000 0), .started, .killStatus] dying := by
  refine .next (.create 0x1000 0x6000 0 rfl (by decide) (by decide) (by decide)) ?_
  refine .next (.create 0x2000 0x8000 0 rfl (by decide) (by decide) (by decide)) ?_
  refine .next (.start rfl (by decide)) ?_
  exact .single (.killStatus (by decide) rfl)

theorem dying_interrupt : ∃ u, taskSwitch 1 0x61B0 dying = some (initialESP 0x8000 0, u) ∧
    (u.thread 0x1000).status = .free ∧ u.pThreads 0 = 0x1000 ∧ interruptsEnabled u ∧
    switchEvent .timer dying 0x61B0 (initialESP 0x8000 0) u =
      .switched .timer 0x1000 0x61B0 0x2000 (initialESP 0x8000 0) :=
  ⟨_, rfl, rfl, rfl, ⟨by decide, by decide, by decide⟩, rfl⟩

/-- A thread that is interrupted inside `kill`, its time up, stays on the list and in the table. -/
theorem deadThreadsUnlinked_fails : ¬ DeadThreadsUnlinked bootState
    [.created 0x1000 0x6000 (initialESP 0x6000 0), .created 0x2000 0x8000 (initialESP 0x8000 0), .started,
      .killStatus, .switched .timer 0x1000 0x61B0 0x2000 (initialESP 0x8000 0)] := by
  intro h
  obtain ⟨u, hrun, hfreed, hentry, henabled, hevent⟩ := dying_interrupt
  have hstep : SchedStep dying (.switched .timer 0x1000 0x61B0 0x2000 (initialESP 0x8000 0)) u := by
    rw [← hevent]
    exact .interrupt ⟨by decide, by decide, by decide⟩ hrun
  obtain ⟨xs, _, hentries, _, hfree⟩ := h _ u (List.prefix_refl _) (dying_run.snoc hstep) henabled
  have hlisted : 0x1000 ∈ xs := (hentries _).mpr ⟨by decide, 0, by decide, hentry⟩
  exact hfree _ hlisted hfreed

end Ktux.ThreadTable
