import Ktux.ThreadCreation

set_option autoImplicit false

/-!
# The scheduler interrupt returns

The scan of `__task_switch` ends exactly when some entry of `pThreads` is ready or waiting. One is, as long
as no thread calls `kill` without leaving another to run.
-/
namespace Ktux.SchedulerReturns
open Words Loops Runs CircularList Scheduler ContextSwitch ThreadTable ThreadCreation

section Scan
variable {s : Sched}

/-- How far the scan has to go from the entry `c` to the entry `i` of `n`. -/
def distance (n i c : ℕ) : ℕ := if c ≤ i then i - c else n - c + i

theorem distance_next {n i c : ℕ} (hi : i < n) (hc : c < n) (hne : c ≠ i) :
    distance n i (if c + 1 = n then 0 else c + 1) < distance n i c := by
  unfold distance
  split_ifs <;> omega

theorem nextTask_eq (hindex : s.currentTask < s.numThreads) (hbound : s.numThreads < wordSize) :
    nextTask s = if s.currentTask + 1 = s.numThreads then 0 else s.currentTask + 1 := by
  have hnext : wadd s.currentTask 1 = s.currentTask + 1 := wadd_of_lt (by omega)
  rw [nextTask, hnext]

theorem nextTask_lt (hindex : s.currentTask < s.numThreads) (hbound : s.numThreads < wordSize) :
    nextTask s < s.numThreads := by
  rw [nextTask_eq hindex hbound]
  split_ifs <;> omega

/-- A pass keeps everything but the two variables that follow the index. -/
structure Scanned (s v : Sched) : Prop where
  same : ∃ c p, v = s.setCurrent c p
  index : v.currentTask < s.numThreads
  current : s.pThreads v.currentTask ≠ 0 → v.pCurrentTask = s.pThreads v.currentTask

theorem scanPass_scanned {v : Sched} (hbound : s.numThreads < wordSize) (hsame : ∃ c p, v = s.setCurrent c p)
    (hindex : v.currentTask < s.numThreads) : Scanned s (scanPass v) := by
  obtain ⟨c, p, rfl⟩ := hsame
  exact ⟨⟨_, _, rfl⟩, @nextTask_lt (s.setCurrent c p) hindex hbound, fun hne => if_pos hne⟩

theorem scan_returns (hindex : s.currentTask < s.numThreads) (hbound : s.numThreads < wordSize) {i : ℕ}
    (hi : i < s.numThreads) (hne : s.pThreads i ≠ 0) (hrun : runnable (s.thread (s.pThreads i)) = true) :
    ∃ u, ∀ fuel, s.numThreads < fuel → scan fuel s = some u := by
  have hfirst : Scanned s (scanPass s) := scanPass_scanned hbound ⟨s.currentTask, s.pCurrentTask, rfl⟩ hindex
  have hpass : ∀ v, Scanned s v → (!scanEnds v) = true → ∃ u, some (scanPass v) = some u ∧ Scanned s u ∧
      distance s.numThreads i u.currentTask < distance s.numThreads i v.currentTask := by
    intro v hv hgoes
    refine ⟨_, rfl, scanPass_scanned hbound hv.same hv.index, ?_⟩
    have hother : v.currentTask ≠ i := by
      intro heq
      have hcurrent := hv.current (heq ▸ hne)
      obtain ⟨c, p, rfl⟩ := hv.same
      obtain rfl : c = i := heq
      obtain rfl : p = s.pThreads c := hcurrent
      have hends : scanEnds (s.setCurrent c (s.pThreads c)) = true := by
        simp only [scanEnds, Bool.and_eq_true, decide_eq_true_eq]
        exact ⟨hne, hrun⟩
      rw [hends] at hgoes
      exact absurd hgoes (by decide)
    obtain ⟨c, p, rfl⟩ := hv.same
    have hnext := @nextTask_eq (s.setCurrent c p) hv.index hbound
    change distance s.numThreads i (nextTask (s.setCurrent c p)) < _
    rw [hnext]
    exact distance_next hi hv.index hother
  obtain ⟨u, -, -, hall⟩ := whileLoop_ranked _ _ hpass hfirst
  refine ⟨u, fun fuel hfuel => hall fuel ?_⟩
  have hstart := hfirst.index
  unfold distance
  split_ifs <;> omega

/-- Without a runnable thread in the table the scan never ends. -/
theorem scan_stuck (hnone : ∀ i, s.pThreads i ≠ 0 → runnable (s.thread (s.pThreads i)) = false) (fuel : ℕ) :
    scan fuel s = none := by
  cases hscan : scan fuel s with
  | none => rfl
  | some u =>
    obtain ⟨c, hne, hrun, -⟩ := scan_cases hscan
    rw [hnone c hne] at hrun
    cases hrun

/-- `__task_switch` returns, whatever stack pointer it is called with. -/
def Returns (s : Sched) : Prop := ∀ currentESP, ∃ r n, ∀ fuel, n ≤ fuel → taskSwitch fuel currentESP s = some r

theorem returns_of_runnable (hindex : s.pCurrentTask ≠ 0 → s.currentTask < s.numThreads)
    (hbound : s.numThreads < wordSize)
    (hrun : s.pCurrentTask ≠ 0 → (s.thread s.pCurrentTask).quantum = 0 → ∀ currentESP, ∃ i < s.numThreads,
      s.pThreads i ≠ 0 ∧
        runnable ((s.setThread s.pCurrentTask (retire currentESP)).thread (s.pThreads i)) = true) :
    Returns s := by
  intro currentESP
  unfold taskSwitch
  split_ifs with hcur hquantum
  · exact ⟨_, 0, fun _ _ => rfl⟩
  · exact ⟨_, 0, fun _ _ => rfl⟩
  · obtain ⟨i, hi, hne, hr⟩ := hrun hcur (by omega) currentESP
    obtain ⟨u, hall⟩ := @scan_returns (s.setThread s.pCurrentTask (retire currentESP))
      (hindex hcur) hbound i hi hne hr
    refine ⟨dispatch u, s.numThreads + 1, fun fuel hfuel => ?_⟩
    rw [hall fuel hfuel]
    rfl

end Scan

/-- Some other thread in the table can run. -/
def Another (s : Sched) : Prop :=
  ∃ i, s.pThreads i ≠ 0 ∧ s.pThreads i ≠ s.pCurrentTask ∧ runnable (s.thread (s.pThreads i)) = true

structure Slots (s : Sched) : Prop where
  nonnull : 0 ∉ s.allocated
  bound : s.numThreads ≤ maxThreads
  unused : ∀ i, s.numThreads ≤ i → s.pThreads i = 0
  tabled : ∀ i, s.pThreads i ≠ 0 → s.pThreads i ∈ s.allocated
  index : s.currentTask ≤ s.numThreads - 1
  populated : s.pCurrentTask ≠ 0 → 0 < s.numThreads
  booting : s.pCurrentTask = 0 → s.phase 0 = .running ∧
    ∀ i, s.pThreads i ≠ 0 → runnable (s.thread (s.pThreads i)) = true
  waiting : ∀ i, s.pThreads i ≠ 0 → s.pThreads i ≠ s.pCurrentTask →
    runnable (s.thread (s.pThreads i)) = true → Scheduled (s.phase (s.pThreads i))

/-- A thread inside `kill` is dead, and leaves another behind. -/
def Leaving (s : Sched) : Phase → Prop
  | .running | .yielding =>
    s.pThreads s.currentTask = s.pCurrentTask ∧ (s.thread s.pCurrentTask).status ≠ .zombie
  | .zombied | .masked | .unlinked => s.pThreads s.currentTask = s.pCurrentTask ∧
      (s.thread s.pCurrentTask).status = .zombie ∧ Another s
  | .cleared | .unmasked | .leaving => (s.thread s.pCurrentTask).status = .zombie ∧ Another s

structure Alive (s : Sched) : Prop where
  slots : Slots s
  current : s.pCurrentTask ≠ 0 → Leaving s (s.phase s.pCurrentTask)
  spent : s.phase s.pCurrentTask = .leaving → (s.thread s.pCurrentTask).quantum = 0

theorem alive_clear (thread : ℕ → KernelThread) (links : Links Node) : Alive (clearThreads thread links) := by
  refine ⟨?_, fun h => absurd rfl h, fun h => by cases h⟩
  exact ⟨List.not_mem_nil, Nat.zero_le _, fun _ _ => rfl, fun _ h => absurd rfl h, le_rfl,
    fun h => absurd rfl h,
    fun _ => ⟨rfl, fun _ h => absurd rfl h⟩, fun _ h => absurd rfl h⟩

section Invariant
variable {s u : Sched}

theorem Slots.index_lt (h : Slots s) (hcur : s.pCurrentTask ≠ 0) : s.currentTask < s.numThreads := by
  have hindex := h.index
  have hpos := h.populated hcur
  omega

theorem Slots.slot_lt (h : Slots s) {i : ℕ} (hi : s.pThreads i ≠ 0) : i < s.numThreads :=
  not_le.mp fun hle => hi (h.unused i hle)

theorem Another.congr (h : Another s) (hcur : u.pCurrentTask = s.pCurrentTask)
    (htable : ∀ i, s.pThreads i ≠ s.pCurrentTask → u.pThreads i = s.pThreads i)
    (hstatus : ∀ t, t ≠ s.pCurrentTask → (u.thread t).status = (s.thread t).status) : Another u := by
  obtain ⟨i, hne, hother, hrun⟩ := h
  refine ⟨i, ?_, ?_, ?_⟩
  · rw [htable i hother]
    exact hne
  · rw [htable i hother, hcur]
    exact hother
  · rw [htable i hother]
    simp only [runnable, hstatus _ hother]
    exact hrun

/-- What changes only the current thread, its phase and the list keeps the slots. -/
theorem Slots.frame (h : Slots s) {thread : ℕ → KernelThread} {phase : ℕ → Phase} {lThreads : Links Node}
    (hstatus : ∀ t, t ≠ s.pCurrentTask → (thread t).status = (s.thread t).status)
    (hphase : ∀ t, t ≠ s.pCurrentTask → phase t = s.phase t) (hboot : s.pCurrentTask = 0 → phase 0 = .running) :
    Slots { s with thread := thread, phase := phase, lThreads := lThreads } := by
  have hrun : ∀ i, s.pThreads i ≠ s.pCurrentTask →
      runnable (thread (s.pThreads i)) = runnable (s.thread (s.pThreads i)) := fun i hi => by
    simp only [runnable, hstatus _ hi]
  refine ⟨h.nonnull, h.bound, h.unused, h.tabled, h.index, h.populated,
    fun hzero => ⟨hboot hzero, fun i hi => ?_⟩,
    fun i hi hother hr => ?_⟩
  · have hother : s.pThreads i ≠ s.pCurrentTask := fun heq => hi (heq.trans hzero)
    exact (hrun i hother).trans ((h.booting hzero).2 i hi)
  · change Scheduled (phase (s.pThreads i))
    rw [hphase _ hother]
    exact h.waiting i hi hother ((hrun i hother).symm.trans hr)

theorem Slots.setPhase (h : Slots s) (hcur : s.pCurrentTask ≠ 0) (p : Phase) :
    Slots (s.setPhase s.pCurrentTask p) :=
  h.frame (fun _ _ => rfl) (fun _ ht => Function.update_of_ne ht _ _) fun hzero => absurd hzero hcur

theorem Slots.setThread (h : Slots s) (f : KernelThread → KernelThread) :
    Slots (s.setThread s.pCurrentTask f) :=
  h.frame (fun _ ht => congrArg KernelThread.status (setThread_other s f ht)) (fun _ _ => rfl)
    fun hzero => (h.booting hzero).1

theorem Slots.current_ne (h : Slots s) {p : Phase} (hphase : s.phase s.pCurrentTask = p) (hp : p ≠ .running) :
    s.pCurrentTask ≠ 0 := by
  intro hzero
  rw [hzero, (h.booting hzero).1] at hphase
  exact hp hphase.symm

theorem Alive.atPhase (h : Alive s) {p : Phase} (hphase : s.phase s.pCurrentTask = p) (hp : p ≠ .running) :
    s.pCurrentTask ≠ 0 ∧ Leaving s p := by
  have hne := h.slots.current_ne hphase hp
  exact ⟨hne, hphase ▸ h.current hne⟩

theorem Leaving.congr {p : Phase} (h : Leaving s p) (hcur : u.pCurrentTask = s.pCurrentTask)
    (hindex : u.currentTask = s.currentTask) (htable : u.pThreads = s.pThreads)
    (hstatus : ∀ t, (u.thread t).status = (s.thread t).status) : Leaving u p := by
  have hanother : Another s → Another u := fun ha =>
    ha.congr hcur (fun i _ => congrFun htable i) fun t _ => hstatus t
  cases p <;> simp only [Leaving, hcur, hindex, htable, hstatus] at h ⊢
  case running | yielding => exact h
  case zombied | masked | unlinked => exact ⟨h.1, h.2.1, hanother h.2.2⟩
  case cleared | unmasked | leaving => exact ⟨h.1, hanother h.2⟩

/-- Steps that leave each thread's status and the table alone. -/
theorem Alive.keep (h : Alive s) {thread : ℕ → KernelThread} {phase : ℕ → Phase} {lThreads : Links Node}
    (hstatus : ∀ t, (thread t).status = (s.thread t).status)
    (hphase : ∀ t, t ≠ s.pCurrentTask → phase t = s.phase t)
    (hboot : s.pCurrentTask = 0 → phase 0 = .running)
    (hat : s.pCurrentTask ≠ 0 → Leaving s (phase s.pCurrentTask))
    (hspent : phase s.pCurrentTask = .leaving → (thread s.pCurrentTask).quantum = 0) :
    Alive { s with thread := thread, phase := phase, lThreads := lThreads } :=
  ⟨h.slots.frame (fun t _ => hstatus t) hphase hboot, fun hne => (hat hne).congr rfl rfl rfl hstatus, hspent⟩

theorem Alive.setThread (h : Alive s) (t : ℕ) {f : KernelThread → KernelThread}
    (hf : ∀ k, (f k).status = k.status)
    (hquantum : ∀ k, k.quantum = 0 → (f k).quantum = 0) : Alive (s.setThread t f) := by
  refine h.keep (setThread_field (·.status) s t (hf _)) (fun _ _ => rfl)
    (fun hzero => (h.slots.booting hzero).1) h.current fun hp => ?_
  have hzero := h.spent hp
  by_cases heq : s.pCurrentTask = t
  · rw [← heq]
    exact (congrArg KernelThread.quantum (Function.update_self s.pCurrentTask _ s.thread)).trans
      (hquantum _ hzero)
  · rw [Function.update_of_ne heq]
    exact hzero

theorem Alive.pNice (h : Alive s) (t : ℕ) (newPriority : ℤ) : Alive (pNice t newPriority s) := by
  unfold Scheduler.pNice
  split_ifs
  · exact h.setThread t (fun _ => rfl) fun _ hzero => hzero
  · exact h

theorem update_phase (s : Sched) (p : Phase) : Function.update s.phase s.pCurrentTask p s.pCurrentTask = p :=
  Function.update_self _ _ _

theorem Alive.move (h : Alive s) (hcur : s.pCurrentTask ≠ 0) {thread : ℕ → KernelThread} {lThreads : Links Node}
    {p : Phase} (hstatus : ∀ t, (thread t).status = (s.thread t).status) (hat : Leaving s p)
    (hspent : p = .leaving → (thread s.pCurrentTask).quantum = 0) :
    Alive { s with
      thread := thread
      phase := Function.update s.phase s.pCurrentTask p
      lThreads := lThreads } :=
  h.keep hstatus (fun _ ht => Function.update_of_ne ht _ _) (fun hzero => absurd hzero hcur)
    (fun _ => (update_phase s p).symm ▸ hat) fun hp => hspent ((update_phase s p).symm.trans hp)

theorem Alive.killStatus (h : Alive s) (hcur : s.pCurrentTask ≠ 0) (hphase : s.phase s.pCurrentTask = .running)
    (hanother : Another s) : Alive (killStatus s) := by
  have hother : ∀ t, t ≠ s.pCurrentTask → ((Scheduler.killStatus s).thread t).status = (s.thread t).status :=
    fun t ht => congrArg KernelThread.status (killStatus_other ht)
  have hat := h.current hcur
  rw [hphase] at hat
  refine ⟨h.slots.frame hother (fun _ ht => Function.update_of_ne ht _ _) fun hzero => absurd hzero hcur,
    fun _ => ?_,
    fun hp => by cases (update_phase s .zombied).symm.trans hp⟩
  change Leaving _ (Function.update s.phase s.pCurrentTask _ s.pCurrentTask)
  rw [update_phase]
  exact ⟨hat.1, congrArg KernelThread.status (Function.update_self s.pCurrentTask _ s.thread),
    hanother.congr rfl (fun _ _ => rfl) hother⟩

theorem Alive.killClear (h : Alive s) (hphase : s.phase s.pCurrentTask = .unlinked) : Alive (killClear s) := by
  obtain ⟨hcur, hindex, hzombie, hanother⟩ := h.atPhase hphase (by decide)
  have hothers : ∀ i, s.pThreads i ≠ s.pCurrentTask → (Scheduler.killClear s).pThreads i = s.pThreads i :=
    fun i hi => killClear_keep fun heq => hi (heq ▸ hindex)
  refine ⟨⟨h.slots.nonnull, h.slots.bound, fun i hi => killClear_unused h.slots.unused hi,
    fun i hi => killClear_tabled h.slots.tabled hi, h.slots.index, h.slots.populated,
    fun hzero => absurd hzero hcur, fun i hi hother hrun => ?_⟩, fun _ => ?_,
    fun hp => by cases (update_phase s .cleared).symm.trans hp⟩
  · have heq := (killClear_entry hi).2
    rw [heq] at hi hother hrun ⊢
    replace hother : s.pThreads i ≠ s.pCurrentTask := hother
    change Scheduled (Function.update s.phase s.pCurrentTask _ (s.pThreads i))
    rw [Function.update_of_ne hother]
    exact h.slots.waiting i hi hother hrun
  · change Leaving _ (Function.update s.phase s.pCurrentTask _ s.pCurrentTask)
    rw [update_phase]
    exact ⟨hzombie, hanother.congr rfl hothers fun _ _ => rfl⟩

theorem Alive.start (h : Alive s) (hzero : s.pCurrentTask = 0) (hthreads : 0 < s.numThreads) :
    Alive (startScheduler s) := by
  unfold startScheduler
  split_ifs
  · exact h
  have hslots := h.slots
  obtain ⟨hboot, hready⟩ := hslots.booting hzero
  have hstatus := setThread_field (·.status) (s.setCurrent 0 (s.pThreads 0)) (s.pThreads 0)
    (f := fun t => { t with time := 0, quantum := 0 }) rfl
  have hrun : ∀ i, s.pThreads i ≠ 0 → runnable (((s.setCurrent 0 (s.pThreads 0)).setThread (s.pThreads 0)
      fun t => { t with time := 0, quantum := 0 }).thread (s.pThreads i)) = true := fun i hi => by
    simp only [runnable, hstatus]
    exact hready i hi
  have hscheduled : ∀ i, s.pThreads i ≠ 0 → Scheduled (s.phase (s.pThreads i)) := fun i hi =>
    hslots.waiting i hi (fun heq => hi (heq.trans hzero)) (hready i hi)
  refine ⟨⟨hslots.nonnull, hslots.bound, hslots.unused, hslots.tabled, Nat.zero_le _, fun _ => hthreads,
    fun _ => ⟨hboot, hrun⟩, fun i hi _ _ => hscheduled i hi⟩, fun hne => ?_, fun _ => ?_⟩
  · have halive := (runnable_iff _).mp (hrun 0 hne)
    have hat : s.pThreads 0 = s.pThreads 0 ∧ (((s.setCurrent 0 (s.pThreads 0)).setThread (s.pThreads 0)
        fun t => { t with time := 0, quantum := 0 }).thread (s.pThreads 0)).status ≠ .zombie := by
      refine ⟨rfl, ?_⟩
      rcases halive with hst | hst <;> rw [hst] <;> decide
    change Leaving _ (s.phase (s.pThreads 0))
    rcases hscheduled 0 hne with hp | hp <;> rw [hp] <;> exact hat
  · exact congrArg KernelThread.quantum (Function.update_self (s.pThreads 0) _ s.thread)

theorem Alive.create (h : Alive s) {t : ℕ} (stackBase eip : ℕ) (hphase : s.phase s.pCurrentTask = .running)
    (hnull : t ≠ 0) (hfresh : t ∉ s.allocated) (hroom : s.numThreads < maxThreads) :
    Alive (createKernelThread t stackBase eip s) := by
  obtain ⟨hslots, hcur, -⟩ := h
  have hcreated := createKernelThread_created t stackBase eip s
  have ⟨hindex, hold, hthread, hself⟩ := hcreated
  have hnew := not_tabled hslots.tabled hnull hfresh
  refine ⟨⟨List.not_mem_cons_of_ne_of_not_mem hnull.symm hslots.nonnull, hroom,
    fun i hi => hcreated.unused hslots.unused hi, fun i hi => hcreated.tabled hslots.tabled hi,
    ?_, fun _ => Nat.succ_pos _, fun hzero => ⟨?_, fun i hi => ?_⟩, fun i hi hother hrun => ?_⟩,
    fun hne => ?_, fun hp => ?_⟩
  · have hle := hslots.index
    change s.currentTask ≤ s.numThreads + 1 - 1
    omega
  · rw [(hthread 0 hnull.symm).2]
    exact (hslots.booting hzero).1
  · by_cases hin : i = s.numThreads
    · rw [hin, hindex]
      exact hself.2
    · rw [hold i hin] at hi ⊢
      rw [(hthread _ (hnew i)).1]
      exact (hslots.booting hzero).2 i hi
  · by_cases hin : i = s.numThreads
    · rw [hin, hindex]
      exact Or.inl hself.1
    · rw [hold i hin] at hi hother hrun ⊢
      obtain ⟨hkeep, hkept⟩ := hthread _ (hnew i)
      rw [hkeep] at hrun
      rw [hkept]
      exact hslots.waiting i hi hother hrun
  · have hat := hcur hne
    rw [hphase] at hat
    have hlisted : s.pCurrentTask ≠ t := hat.1 ▸ hnew s.currentTask
    obtain ⟨hkeep, hkept⟩ := hthread _ hlisted
    change Leaving _ ((createKernelThread t stackBase eip s).phase s.pCurrentTask)
    rw [hkept, hphase]
    refine ⟨(hold s.currentTask fun heq => ?_).trans hat.1, ?_⟩
    · have hlt := hslots.index_lt hne
      omega
    · change ((createKernelThread t stackBase eip s).thread s.pCurrentTask).status ≠ _
      rw [hkeep]
      exact hat.2
  · have hrunning : (createKernelThread t stackBase eip s).phase s.pCurrentTask = .running := by
      by_cases heq : s.pCurrentTask = t
      · rw [heq]
        exact hself.1
      · rw [(hthread _ heq).2, hphase]
    cases hrunning.symm.trans hp

/-- A thread that can run after the retirement of the current one is not inside `kill`. -/
theorem Slots.switched (h : Slots s)
    (hscheduled : (s.thread s.pCurrentTask).status ≠ .zombie → Scheduled (s.phase s.pCurrentTask))
    {currentESP c into : ℕ} (hinto : s.pThreads c = into) (hnull : into ≠ 0)
    (hrun : runnable ((s.setThread s.pCurrentTask (retire currentESP)).thread into) = true) :
    Alive (switchedTo currentESP c into s) := by
  have hready : ∀ i, s.pThreads i ≠ 0 →
      runnable ((s.setThread s.pCurrentTask (retire currentESP)).thread (s.pThreads i)) = true →
      Scheduled (s.phase (s.pThreads i)) := by
    intro i hi hr
    by_cases heq : s.pThreads i = s.pCurrentTask
    · rw [heq, setThread_self, runnable_iff] at hr
      rw [heq]
      refine hscheduled fun hzombie => ?_
      rw [retire, if_pos hzombie] at hr
      rcases hr with hr | hr <;> cases hr
    · rw [setThread_other s _ heq] at hr
      exact h.waiting i hi heq hr
  have hlt : c < s.numThreads := h.slot_lt (hinto ▸ hnull)
  have hphase : Scheduled (s.phase into) := by
    have hc := hready c (hinto ▸ hnull) (hinto ▸ hrun)
    rwa [hinto] at hc
  refine ⟨⟨h.nonnull, h.bound, h.unused, h.tabled, Nat.le_sub_one_of_lt hlt, fun _ => Nat.zero_lt_of_lt hlt,
    fun hzero => absurd hzero hnull, fun i hi hother hr => ?_⟩, fun _ => ?_, fun hp => ?_⟩
  · have hout : (switchedTo currentESP c into s).thread (s.pThreads i) = _ := switchedTo_out hother
    change runnable ((switchedTo currentESP c into s).thread (s.pThreads i)) = true at hr
    rw [hout] at hr
    exact hready i hi hr
  · have hrunning := (switchedTo_into s currentESP c into).1
    have hat : s.pThreads c = into ∧ ((switchedTo currentESP c into s).thread into).status ≠ .zombie := by
      rw [hrunning]
      exact ⟨hinto, by decide⟩
    change Leaving _ (s.phase into)
    rcases hphase with hp | hp <;> rw [hp] <;> exact hat
  · rcases hphase with hq | hq <;> cases hq.symm.trans hp

theorem Leaving.scheduled {p : Phase} (h : Leaving s p) (hstatus : (s.thread s.pCurrentTask).status ≠ .zombie) :
    Scheduled p := by
  cases p
  case running => exact Or.inl rfl
  case yielding => exact Or.inr rfl
  case zombied | masked | unlinked => exact absurd h.2.1 hstatus
  case cleared | unmasked | leaving => exact absurd h.1 hstatus

theorem Alive.interrupt (h : Alive s) {fuel currentESP esp : ℕ}
    (hrun : taskSwitch fuel currentESP s = some (esp, u)) :
    Alive u := by
  rcases taskSwitch_cases hrun with ⟨-, -, rfl⟩ | ⟨-, -, -, rfl⟩ | ⟨hne, -, c, into, hinto, hnull, hr, -, rfl⟩
  · exact h
  · refine h.setThread s.pCurrentTask (fun _ => rfl) fun k hzero => ?_
    change k.quantum - 1 = 0
    rw [hzero]
  · exact h.slots.switched (h.current hne).scheduled hinto hnull hr

theorem Alive.softInterrupt (h : Alive s) (hne : s.pCurrentTask ≠ 0)
    (hphase : s.phase s.pCurrentTask = .yielding ∨ s.phase s.pCurrentTask = .leaving) {fuel currentESP esp : ℕ}
    (hrun : taskSwitch fuel currentESP (s.setPhase s.pCurrentTask .running) = some (esp, u)) : Alive u := by
  have hself : (s.setPhase s.pCurrentTask .running).phase s.pCurrentTask = .running := update_phase s .running
  have hat := h.current hne
  rcases hphase with hp | hp
  · rw [hp] at hat
    have hmoved : Alive (s.setPhase s.pCurrentTask .running) :=
      h.move hne (fun _ => rfl) hat fun heq => by cases heq
    exact hmoved.interrupt hrun
  · rcases taskSwitch_cases hrun with ⟨hz, -, -⟩ | ⟨-, hpos, -, rfl⟩ | ⟨-, -, c, into, hinto, hnull, hr, -, rfl⟩
    · exact absurd hz hne
    · exact absurd (h.spent hp) (Nat.pos_iff_ne_zero.mp hpos)
    · exact (h.slots.setPhase hne .running).switched (fun _ => Or.inl hself) hinto hnull hr

/-- The thread that calls `kill` leaves another that can run, and threads are created only while the table
has room. -/
def Careful (_ : List Op) (s : Sched) (op : Op) (_ : Sched) : Prop :=
  (∀ thread stackBase eip, op = .create thread stackBase eip → thread ≠ 0 → s.numThreads < maxThreads) ∧
    (op = .event .killStatus → Another s)

theorem Alive.event {e : Event} (h : Alive s) (he : ∀ t stackBase esp0, e ≠ .created t stackBase esp0)
    (hstep : SchedStep s e u) (hkill : e = .killStatus → Another s) : Alive u := by
  cases hstep with
  | create t stackBase eip => exact absurd rfl (he _ _ _)
  | createError => exact h
  | start hcur hthreads => exact h.start hcur hthreads
  | nice newPriority => exact h.pNice s.pCurrentTask newPriority
  | pNice t newPriority => exact h.pNice t newPriority
  | interrupt _ hrun => exact h.interrupt hrun
  | softInterrupt hcur hphase hrun => exact h.softInterrupt hcur hphase hrun
  | yieldQuantum hcur hphase =>
    have hat := h.current hcur
    rw [hphase] at hat
    exact h.move hcur (setThread_field (·.status) s _ rfl) hat fun heq => by cases heq
  | killStatus hcur hphase => exact h.killStatus hcur hphase (hkill rfl)
  | killMask hphase =>
    obtain ⟨hcur, hat⟩ := h.atPhase hphase (by decide)
    exact h.move hcur (fun _ => rfl) hat fun heq => by cases heq
  | killUnlink hphase =>
    obtain ⟨hcur, hat⟩ := h.atPhase hphase (by decide)
    exact h.move hcur (fun _ => rfl) hat fun heq => by cases heq
  | killClear hphase => exact h.killClear hphase
  | killUnmask hphase =>
    obtain ⟨hcur, hat⟩ := h.atPhase hphase (by decide)
    exact h.move hcur (fun _ => rfl) hat fun heq => by cases heq
  | killQuantum hphase =>
    obtain ⟨hcur, hat⟩ := h.atPhase hphase (by decide)
    exact h.move hcur (setThread_field (·.status) s _ rfl) hat fun _ =>
      congrArg KernelThread.quantum (Function.update_self s.pCurrentTask _ s.thread)

theorem Alive.step {pre : List Op} {op : Op} (h : Alive s) (hstep : ThreadStep s op u)
    (hcareful : Careful pre s op u) :
    Alive u := by
  cases hstep with
  | create thread stackBase eip hphase hfresh =>
    unfold createCall
    split_ifs with hnull
    · exact h
    · exact h.create stackBase eip hphase hnull hfresh (hcareful.1 _ _ _ rfl hnull)
  | event he hstep => exact h.event he hstep fun heq => hcareful.2 (congrArg Op.event heq)

theorem retire_wait (currentESP : ℕ) {t : KernelThread} (hquantum : t.quantum = 0)
    (hstatus : t.status ≠ .zombie) :
    runnable (retire currentESP t) = true := by
  rcases retire_cases currentESP t hquantum with ⟨hzombie, -⟩ | ⟨hwait, -⟩
  · exact absurd hzombie hstatus
  · rw [runnable_iff]
    exact Or.inr hwait

/-- Where an interrupt is taken, the current thread or another one can run next. -/
theorem Leaving.runnable {p : Phase} (h : Leaving s p) (hslots : Slots s) (hcur : s.pCurrentTask ≠ 0)
    (hquantum : (s.thread s.pCurrentTask).quantum = 0) (currentESP : ℕ) : ∃ i < s.numThreads, s.pThreads i ≠ 0 ∧
      runnable ((s.setThread s.pCurrentTask (retire currentESP)).thread (s.pThreads i)) = true := by
  have hanother : Another s → ∃ i < s.numThreads, s.pThreads i ≠ 0 ∧
      Scheduler.runnable ((s.setThread s.pCurrentTask (retire currentESP)).thread (s.pThreads i)) = true := by
    rintro ⟨i, hi, hother, hrun⟩
    rw [← setThread_other s (retire currentESP) hother] at hrun
    exact ⟨i, hslots.slot_lt hi, hi, hrun⟩
  have hself : s.pThreads s.currentTask = s.pCurrentTask ∧ (s.thread s.pCurrentTask).status ≠ .zombie →
      ∃ i < s.numThreads, s.pThreads i ≠ 0 ∧
        Scheduler.runnable ((s.setThread s.pCurrentTask (retire currentESP)).thread (s.pThreads i)) = true := by
    rintro ⟨hindex, hstatus⟩
    refine ⟨s.currentTask, hslots.index_lt hcur, hindex.symm ▸ hcur, ?_⟩
    rw [hindex, setThread_self]
    exact retire_wait currentESP hquantum hstatus
  cases p
  case running | yielding => exact hself h
  case zombied | masked | unlinked => exact hanother h.2.2
  case cleared | unmasked | leaving => exact hanother h.2

/-- `int $0x20` finds the current thread in ordinary code again. -/
theorem Alive.returns (h : Alive s) : Returns s ∧ Returns (s.setPhase s.pCurrentTask .running) := by
  have hbound := h.slots.bound.trans_lt (show maxThreads < wordSize by decide)
  have hrun := fun (hne : s.pCurrentTask ≠ 0) hquantum => (h.current hne).runnable h.slots hne hquantum
  exact ⟨returns_of_runnable h.slots.index_lt hbound hrun,
    @returns_of_runnable (s.setPhase s.pCurrentTask .running) h.slots.index_lt hbound hrun⟩

/-- A dead thread that is the last to run never gets out of the scan. -/
theorem taskSwitch_stuck (hcur : s.pCurrentTask ≠ 0) (hquantum : (s.thread s.pCurrentTask).quantum = 0)
    (hzombie : (s.thread s.pCurrentTask).status = .zombie) (hlast : ¬ Another s) (fuel currentESP : ℕ) :
    taskSwitch fuel currentESP s = none := by
  unfold taskSwitch
  rw [if_neg hcur, if_neg (by omega), scan_stuck, Option.map_none]
  intro i hi
  by_cases heq : s.pThreads i = s.pCurrentTask
  · change Scheduler.runnable ((s.setThread s.pCurrentTask (retire currentESP)).thread (s.pThreads i)) = false
    rw [heq, setThread_self, retire, if_pos hzombie]
    rfl
  · change Scheduler.runnable ((s.setThread s.pCurrentTask (retire currentESP)).thread (s.pThreads i)) = false
    rw [setThread_other s _ heq]
    exact Bool.eq_false_iff.mpr fun hrun => hlast ⟨i, hi, heq, hrun⟩

end Invariant

/-- In every run whose kills leave a thread to run, the scheduler interrupt returns in every state, and the
index stays in the table. -/
theorem schedulerInterrupt_returns (thread : ℕ → KernelThread) (links : Links Node) (ops : List Op) (s : Sched)
    (hcareful : Every ThreadStep Careful (clearThreads thread links) ops)
    (hrun : Run ThreadStep (clearThreads thread links) ops s) :
    Returns s ∧ Returns (s.setPhase s.pCurrentTask .running) ∧
      (0 < s.numThreads → s.currentTask < s.numThreads) := by
  have halive : Alive s := hrun.guarded_invariant (fun _ => Alive) (alive_clear thread links)
    (fun _ _ _ _ _ h hstep hc => h.step hstep hc) hcareful
  obtain ⟨hreturns, hsoft⟩ := halive.returns
  refine ⟨hreturns, hsoft, fun hpos => ?_⟩
  have hindex := halive.slots.index
  omega

/-- A state at the end of `kill`, before its interrupt. -/
def killed (s : Sched) : Sched :=
  let s := killClear (killUnlink ((killStatus s).setPhase s.pCurrentTask .masked))
  endQuantum .leaving (s.setPhase s.pCurrentTask .unmasked)

def twoStarted : Sched :=
  startScheduler (createKernelThread 0x2000 0x8000 0 (createKernelThread 0x1000 0x6000 0 bootState))

/-- One of two threads changes a priority and calls `kill`. -/
def oneKill : List Op :=
  [.create 0x1000 0x6000 0, .create 0x2000 0x8000 0, .event .started, .event (.nice 5), .event .killStatus,
    .event .killMask, .event .killUnlink, .event .killClear, .event .killUnmask, .event .killQuantum]

theorem oneKill_run : Run (fun s op u => ThreadStep s op u ∧ Careful [] s op u) bootState oneKill
    (killed (nice 5 twoStarted)) := by
  have hcreate : ∀ {thread stackBase eip : ℕ} {s : Sched} {u : Sched}, s.numThreads < maxThreads →
      Careful [] s (.create thread stackBase eip) u := fun hroom => ⟨fun _ _ _ _ _ => hroom, nofun⟩
  have hevent : ∀ {e : Event} {s u : Sched}, e ≠ .killStatus → Careful [] s (.event e) u :=
    fun hne => ⟨nofun, fun heq => absurd (Op.event.inj heq) hne⟩
  refine .next ⟨.create 0x1000 0x6000 0 rfl (by decide), hcreate (by decide)⟩ ?_
  refine .next ⟨.create 0x2000 0x8000 0 rfl (by decide), hcreate (by decide)⟩ ?_
  refine .next ⟨.event nofun (.start rfl (by decide)), hevent nofun⟩ ?_
  refine .next ⟨.event nofun (.nice 5 (by decide)), hevent nofun⟩ ?_
  refine .next ⟨.event nofun (.killStatus (by decide) rfl), nofun, fun _ => ⟨1, by decide, by decide, rfl⟩⟩ ?_
  refine .next ⟨.event nofun (.killMask rfl), hevent nofun⟩ ?_
  refine .next ⟨.event nofun (.killUnlink rfl), hevent nofun⟩ ?_
  refine .next ⟨.event nofun (.killClear rfl), hevent nofun⟩ ?_
  refine .next ⟨.event nofun (.killUnmask rfl), hevent nofun⟩ ?_
  exact .single ⟨.event nofun (.killQuantum rfl), hevent nofun⟩

/-- The interrupt at the end of that `kill` finds the other thread. -/
theorem schedulerInterrupt_returns_one :
    Returns ((killed (nice 5 twoStarted)).setPhase 0x1000 .running) :=
  (schedulerInterrupt_returns (fun _ => noThread) ⟨fun _ => none, fun _ => none⟩ oneKill _
    (every_of_guarded_run threadStep_functional oneKill_run) (oneKill_run.mono fun _ _ _ h => h.1)).2.1

/-- `init_multitasking` with memory for one thread, which then calls `kill`. -/
def lastThread : List Op :=
  [.create 0x1000 0x6000 0, .create 0 0 0, .create 0 0 0, .create 0 0 0, .create 0 0 0, .event .started,
    .event .killStatus, .event .killMask, .event .killUnlink, .event .killClear, .event .killUnmask,
    .event .killQuantum]

def lastKilled : Sched := killed (startScheduler (createKernelThread 0x1000 0x6000 0 bootState))

theorem lastKilled_run : Run ThreadStep bootState lastThread lastKilled := by
  refine .next (.create 0x1000 0x6000 0 rfl (by decide)) ?_
  refine .next (.create 0 0 0 rfl (by decide)) (.next (.create 0 0 0 rfl (by decide)) ?_)
  refine .next (.create 0 0 0 rfl (by decide)) (.next (.create 0 0 0 rfl (by decide)) ?_)
  refine .next (.event nofun (.start rfl (by decide))) ?_
  refine .next (.event nofun (.killStatus (by decide) rfl)) ?_
  refine .next (.event nofun (.killMask rfl)) (.next (.event nofun (.killUnlink rfl)) ?_)
  refine .next (.event nofun (.killClear rfl)) (.next (.event nofun (.killUnmask rfl)) ?_)
  exact .single (.event nofun (.killQuantum rfl))

theorem lastKill_stuck : ∃ s, Run ThreadStep bootState lastThread s ∧ s.phase s.pCurrentTask = .leaving ∧
    ∀ fuel currentESP, taskSwitch fuel currentESP (s.setPhase s.pCurrentTask .running) = none := by
  refine ⟨lastKilled, lastKilled_run, rfl, fun fuel currentESP =>
    taskSwitch_stuck (by decide) rfl rfl ?_ fuel currentESP⟩
  rintro ⟨i, hne, -⟩
  by_cases hi : i = 0
  · rw [hi] at hne
    exact hne rfl
  · change Function.update (Function.update (fun _ => 0) 0 0x1000) 0 0 i ≠ 0 at hne
    rw [Function.update_of_ne hi, Function.update_of_ne hi] at hne
    exact hne rfl

end Ktux.SchedulerReturns
