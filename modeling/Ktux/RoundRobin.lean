import Ktux.CyclicScan
import Ktux.SchedulerReturns

set_option autoImplicit false

/-!
# Round-robin order

The scan of `__task_switch` stops at the first thread after the current one, in cyclic order, that is ready or
waiting. Without kills and creations it comes round to each of them once before it repeats.
-/
namespace Ktux.RoundRobin
open Words Loops Runs CircularList CyclicScan Scheduler ContextSwitch ThreadTable ThreadCreation
open SchedulerReturns

def retired (currentESP : ℕ) (s : Sched) : Sched := s.setThread s.pCurrentTask (retire currentESP)

def Candidate (s : Sched) (i : ℕ) : Prop := s.pThreads i ≠ 0 ∧ runnable (s.thread (s.pThreads i)) = true

/-- `__task_switch` returns and has dispatched the first candidate after the current index. -/
def DispatchesFirst (currentESP : ℕ) (s : Sched) : Prop :=
  ∃ c esp u, FirstAfter s.numThreads (Candidate (retired currentESP s)) s.currentTask c ∧
    (∀ fuel, s.numThreads < fuel → taskSwitch fuel currentESP s = some (esp, u)) ∧
    u.currentTask = c ∧ u.pThreads = s.pThreads ∧ u.pCurrentTask = u.pThreads u.currentTask ∧
    (u.thread u.pCurrentTask).status = .running ∧ esp = ((retired currentESP s).thread u.pCurrentTask).esp0

section Scan
variable {s : Sched}

theorem nextTask_mod (hindex : s.currentTask < s.numThreads) (hbound : s.numThreads < wordSize) :
    nextTask s = (s.currentTask + 1) % s.numThreads := by
  rw [nextTask_eq hindex hbound]
  split_ifs with hlast
  · rw [hlast, Nat.mod_self]
  · rw [Nat.mod_eq_of_lt (by omega)]

/-- After `d + 1` passes the index is `d + 1` further round. -/
theorem scanPass_iterate (hindex : s.currentTask < s.numThreads) (hbound : s.numThreads < wordSize) (d : ℕ) :
    ∃ p, scanPass^[d + 1] s = s.setCurrent ((s.currentTask + (d + 1)) % s.numThreads) p ∧
      (s.pThreads ((s.currentTask + (d + 1)) % s.numThreads) ≠ 0 →
        p = s.pThreads ((s.currentTask + (d + 1)) % s.numThreads)) := by
  induction d with
  | zero =>
    rw [Function.iterate_one, scanPass, nextTask_mod hindex hbound]
    exact ⟨_, rfl, fun hne => if_pos hne⟩
  | succ d ih =>
    obtain ⟨p, hp, -⟩ := ih
    have hnext : nextTask (s.setCurrent ((s.currentTask + (d + 1)) % s.numThreads) p) =
        (s.currentTask + (d + 1 + 1)) % s.numThreads := by
      have hinside : (s.currentTask + (d + 1)) % s.numThreads < s.numThreads :=
        Nat.mod_lt _ (Nat.zero_lt_of_lt hindex)
      have hmod := @nextTask_mod (s.setCurrent ((s.currentTask + (d + 1)) % s.numThreads) p) hinside hbound
      exact hmod.trans (Nat.mod_add_mod _ _ _)
    rw [Function.iterate_succ_apply', hp, scanPass, hnext]
    exact ⟨_, rfl, fun hne => if_pos hne⟩

theorem scanEnds_iff {c p : ℕ} (hp : s.pThreads c ≠ 0 → p = s.pThreads c) :
    scanEnds (s.setCurrent c p) = true ↔ Candidate s c := by
  simp only [scanEnds, Bool.and_eq_true, decide_eq_true_eq]
  refine and_congr_right fun hne => ?_
  change runnable (s.thread p) = true ↔ _
  rw [hp hne]

theorem scan_firstAfter (hindex : s.currentTask < s.numThreads) (hbound : s.numThreads < wordSize) {c : ℕ}
    (hfirst : FirstAfter s.numThreads (Candidate s) s.currentTask c) {fuel : ℕ} (hfuel : s.numThreads < fuel) :
    scan fuel s = some (s.setCurrent c (s.pThreads c)) := by
  obtain ⟨d, hd, hdn, rfl, hfound, hnone⟩ := hfirst
  obtain ⟨d, rfl⟩ := Nat.exists_eq_add_of_lt hd
  rw [Nat.zero_add] at hfound hnone hdn ⊢
  have hgo : ∀ j < d, (!scanEnds (scanPass^[j + 1] s)) = true := by
    intro j hj
    obtain ⟨p, hp, hentry⟩ := scanPass_iterate hindex hbound j
    rw [hp, Bool.not_eq_true', Bool.eq_false_iff, ne_eq, scanEnds_iff hentry]
    exact hnone (j + 1) (Nat.succ_pos j) (Nat.succ_lt_succ hj)
  obtain ⟨p, hp, hentry⟩ := scanPass_iterate hindex hbound d
  have hstop : (!scanEnds (scanPass^[d + 1] s)) = false := by
    rw [hp, Bool.not_eq_false', scanEnds_iff hentry]
    exact hfound
  have hloop := doLoop_iterate (c := fun s => !scanEnds s) (b := fun s => some (scanPass s)) scanPass
    (fun _ => rfl) d s hgo hstop
  rw [hp, hentry hfound.1] at hloop
  exact doLoop_mono (by omega) hloop

theorem taskSwitch_first (hcur : s.pCurrentTask ≠ 0) (hquantum : (s.thread s.pCurrentTask).quantum = 0)
    (hindex : s.currentTask < s.numThreads) (hbound : s.numThreads < wordSize) (currentESP : ℕ)
    (hsome : ∃ i < s.numThreads, Candidate (retired currentESP s) i) :
    ∃ c, FirstAfter s.numThreads (Candidate (retired currentESP s)) s.currentTask c ∧
      ∀ fuel, s.numThreads < fuel → taskSwitch fuel currentESP s =
        some (((retired currentESP s).thread (s.pThreads c)).esp0,
          switchedTo currentESP c (s.pThreads c) s) := by
  obtain ⟨i, hi, hcandidate⟩ := hsome
  obtain ⟨c, hfirst⟩ := exists_firstAfter hindex hi hcandidate
  refine ⟨c, hfirst, fun fuel hfuel => ?_⟩
  have hesp := dispatch_esp ((retired currentESP s).setCurrent c (s.pThreads c))
  rw [taskSwitch, if_neg hcur, if_neg (by omega)]
  change (scan fuel (retired currentESP s)).map dispatch = _
  rw [@scan_firstAfter (retired currentESP s) hindex hbound c hfirst fuel hfuel]
  exact congrArg some (Prod.ext hesp rfl)

theorem taskSwitch_dispatchesFirst (hcur : s.pCurrentTask ≠ 0)
    (hquantum : (s.thread s.pCurrentTask).quantum = 0)
    (hindex : s.currentTask < s.numThreads) (hbound : s.numThreads < wordSize) (currentESP : ℕ)
    (hsome : ∃ i < s.numThreads, Candidate (retired currentESP s) i) : DispatchesFirst currentESP s := by
  obtain ⟨c, hfirst, hrun⟩ := taskSwitch_first hcur hquantum hindex hbound currentESP hsome
  exact ⟨c, _, _, hfirst, hrun, rfl, rfl, rfl, (switchedTo_into s currentESP c (s.pThreads c)).1, rfl⟩

end Scan

def Living (t : KernelThread) : Prop := t.status ≠ .zombie ∧ t.status ≠ .free

/-- What every run keeps: a thread that lives is in the table, once, outside `kill`, and ready or waiting unless
it is the current one. -/
structure Placed (s : Sched) : Prop where
  nonnull : 0 ∉ s.allocated
  unused : ∀ i, s.numThreads ≤ i → s.pThreads i = 0
  tabled : ∀ i, s.pThreads i ≠ 0 → s.pThreads i ∈ s.allocated
  once : ∀ i j, s.pThreads i = s.pThreads j → s.pThreads i ≠ 0 → i = j
  booting : s.pCurrentTask = 0 → s.phase 0 = .running
  fresh : s.pCurrentTask = 0 → ∀ t ∈ s.allocated, Living (s.thread t)
  index : s.pCurrentTask ≠ 0 → s.currentTask < s.numThreads
  entry : s.pCurrentTask ≠ 0 → s.pThreads s.currentTask = s.pCurrentTask ∨ s.pThreads s.currentTask = 0
  current : s.pCurrentTask ≠ 0 → s.pCurrentTask ∈ s.allocated ∧ (s.thread s.pCurrentTask).status ≠ .free
  listed : ∀ t ∈ s.allocated, Living (s.thread t) → ∃ i, s.pThreads i = t
  scheduled : ∀ t ∈ s.allocated, Living (s.thread t) → Scheduled (s.phase t)
  waiting : ∀ t ∈ s.allocated, Living (s.thread t) → t ≠ s.pCurrentTask → runnable (s.thread t) = true

theorem placed_clear (thread : ℕ → KernelThread) (links : Links Node) : Placed (clearThreads thread links) := by
  have hnone : ∀ {t : ℕ} {P : Prop}, t ∈ (clearThreads thread links).allocated → P :=
    fun ht => absurd ht List.not_mem_nil
  exact ⟨List.not_mem_nil, fun _ _ => rfl, fun _ h => absurd rfl h, fun _ _ _ h => absurd rfl h, fun _ => rfl,
    fun _ _ ht => hnone ht, fun h => absurd rfl h, fun h => absurd rfl h, fun h => absurd rfl h,
    fun _ ht => hnone ht, fun _ ht => hnone ht,
    fun _ ht => hnone ht⟩

section Invariant
variable {s u : Sched}

theorem runnable_living {t : KernelThread} (h : runnable t = true) : Living t := by
  rcases (runnable_iff t).mp h with h | h <;> rw [Living, h] <;> decide

theorem Living.congr {t t' : KernelThread} (h : Living t) (heq : t'.status = t.status) : Living t' := by
  rw [Living, heq]
  exact h

/-- A step that creates nothing, takes nothing out of the table and revives nothing. -/
theorem Placed.frame (h : Placed s) {thread : ℕ → KernelThread} {phase : ℕ → Phase} {lThreads : Links Node}
    (hliving : ∀ t, Living (thread t) → (thread t).status = (s.thread t).status)
    (hcurrent : s.pCurrentTask ≠ 0 → (thread s.pCurrentTask).status ≠ .free)
    (hphase : ∀ t, t ≠ s.pCurrentTask → phase t = s.phase t)
    (hat : s.pCurrentTask ≠ 0 → Living (thread s.pCurrentTask) → Scheduled (phase s.pCurrentTask))
    (hboot : s.pCurrentTask = 0 → phase 0 = .running ∧ ∀ t, (thread t).status = (s.thread t).status) :
    Placed { s with thread := thread, phase := phase, lThreads := lThreads } := by
  have hback : ∀ t, Living (thread t) → Living (s.thread t) := fun t ht => ht.congr (hliving t ht).symm
  refine ⟨h.nonnull, h.unused, h.tabled, h.once, fun hzero => (hboot hzero).1,
    fun hzero t ht => (h.fresh hzero t ht).congr ((hboot hzero).2 t), h.index, h.entry,
    fun hne => ⟨(h.current hne).1, hcurrent hne⟩,
    fun t ht hl => h.listed t ht (hback t hl), fun t ht hl => ?_, fun t ht hl hne => ?_⟩
  · change Scheduled (phase t)
    by_cases heq : t = s.pCurrentTask
    · subst heq
      exact hat (fun hzero => h.nonnull (hzero ▸ ht)) hl
    · rw [hphase t heq]
      exact h.scheduled t ht (hback t hl)
  · change runnable (thread t) = true
    have hrun := h.waiting t ht (hback t hl) hne
    rw [runnable_iff] at hrun ⊢
    rwa [hliving t hl]

theorem Placed.keep (h : Placed s) {thread : ℕ → KernelThread}
    (hstatus : ∀ t, (thread t).status = (s.thread t).status)
    {p : Phase} {lThreads : Links Node} (hcur : s.pCurrentTask ≠ 0)
    (hp : Living (s.thread s.pCurrentTask) → Scheduled p) :
    Placed { s with
      thread := thread
      phase := Function.update s.phase s.pCurrentTask p
      lThreads := lThreads } :=
  h.frame (fun t _ => hstatus t) (fun hne => (hstatus _).symm ▸ (h.current hne).2)
    (fun _ ht => Function.update_of_ne ht _ _)
    (fun _ hl => (update_phase s p).symm ▸ hp (hl.congr (hstatus _).symm)) fun hzero => absurd hzero hcur

theorem Placed.setThread (h : Placed s) (t : ℕ) {f : KernelThread → KernelThread}
    (hf : ∀ k, (f k).status = k.status) : Placed (s.setThread t f) := by
  have hstatus := setThread_field (·.status) s t (hf (s.thread t))
  refine h.frame (fun t' _ => hstatus t') (fun hne => ?_) (fun _ _ => rfl) (fun hne hl => ?_)
    fun hzero => ⟨h.booting hzero, hstatus⟩
  · exact (hstatus s.pCurrentTask).symm ▸ (h.current hne).2
  · exact h.scheduled _ (h.current hne).1 (hl.congr (hstatus s.pCurrentTask).symm)

theorem Placed.pNice (h : Placed s) (t : ℕ) (newPriority : ℤ) : Placed (pNice t newPriority s) := by
  unfold Scheduler.pNice
  split_ifs
  · exact h.setThread t fun _ => rfl
  · exact h

/-- Inside `kill` the current thread is not among the living. -/
theorem Placed.dying (h : Placed s) {p : Phase} (hphase : s.phase s.pCurrentTask = p) (hp : ¬ Scheduled p) :
    s.pCurrentTask ≠ 0 ∧ ¬ Living (s.thread s.pCurrentTask) := by
  subst hphase
  have hne : s.pCurrentTask ≠ 0 := by
    intro hzero
    rw [hzero, h.booting hzero] at hp
    exact hp (Or.inl rfl)
  exact ⟨hne, fun hl => hp (h.scheduled _ (h.current hne).1 hl)⟩

theorem not_scheduled {p : Phase} (hrunning : p ≠ .running) (hyielding : p ≠ .yielding) : ¬ Scheduled p :=
  fun h => h.elim hrunning hyielding

theorem Placed.start (h : Placed s) (hzero : s.pCurrentTask = 0) (hthreads : 0 < s.numThreads) :
    Placed (startScheduler s) := by
  unfold startScheduler
  split_ifs
  · exact h
  have hstatus := setThread_field (·.status) (s.setCurrent 0 (s.pThreads 0)) (s.pThreads 0)
    (f := fun t => { t with time := 0, quantum := 0 }) rfl
  have hrun : ∀ t ∈ s.allocated, Living (s.thread t) → runnable (s.thread t) = true := fun t ht hl =>
    h.waiting t ht hl fun heq => h.nonnull ((heq.trans hzero) ▸ ht)
  have hback : ∀ t, Living (((s.setCurrent 0 (s.pThreads 0)).setThread (s.pThreads 0)
      fun t => { t with time := 0, quantum := 0 }).thread t) → Living (s.thread t) :=
    fun t hl => hl.congr (hstatus t).symm
  refine ⟨h.nonnull, h.unused, h.tabled, h.once, fun _ => h.booting hzero,
    fun _ t ht => (h.fresh hzero t ht).congr (hstatus t), fun _ => hthreads, fun _ => Or.inl rfl,
    fun hne => ⟨h.tabled 0 hne, ?_⟩, fun t ht hl => h.listed t ht (hback t hl),
    fun t ht hl => h.scheduled t ht (hback t hl), fun t ht hl _ => ?_⟩
  · exact ((h.fresh hzero _ (h.tabled 0 hne)).congr (hstatus _)).2
  · have hr := hrun t ht (hback t hl)
    rw [runnable_iff] at hr ⊢
    exact (hstatus t).symm ▸ hr

theorem Placed.create (h : Placed s) {t : ℕ} (stackBase eip : ℕ) (hnull : t ≠ 0)
    (hfresh : t ∉ s.allocated) : Placed (createKernelThread t stackBase eip s) := by
  have hcreated := createKernelThread_created t stackBase eip s
  have ⟨hindex, hold, hthread, hself⟩ := hcreated
  have hfree : s.pThreads s.numThreads = 0 := h.unused _ le_rfl
  have hnew := not_tabled h.tabled hnull hfresh
  have hne : ∀ t' ∈ s.allocated, t' ≠ t := fun t' ht' heq => hfresh (heq ▸ ht')
  constructor
  case nonnull => exact List.not_mem_cons_of_ne_of_not_mem hnull.symm h.nonnull
  case unused => exact fun _ hi => hcreated.unused h.unused hi
  case tabled => exact fun _ hi => hcreated.tabled h.tabled hi
  case once => exact fun _ _ heq hi => hcreated.once hnew h.once heq hi
  case booting =>
    intro hzero
    rw [(hthread 0 hnull.symm).2]
    exact h.booting hzero
  case fresh =>
    intro hzero t' ht'
    rcases List.mem_cons.mp ht' with rfl | ht'
    · exact runnable_living hself.2
    · rw [(hthread t' (hne t' ht')).1]
      exact h.fresh hzero t' ht'
  case index => exact fun hcur => Nat.lt_succ_of_lt (h.index hcur)
  case entry =>
    intro hcur
    have heq := hold s.currentTask (Nat.ne_of_lt (h.index hcur))
    exact (h.entry hcur).imp heq.trans heq.trans
  case current =>
    intro hcur
    have hat := h.current hcur
    refine ⟨List.mem_cons_of_mem _ hat.1, ?_⟩
    change ((createKernelThread t stackBase eip s).thread s.pCurrentTask).status ≠ _
    rw [(hthread _ (hne _ hat.1)).1]
    exact hat.2
  case listed =>
    intro t' ht' hl
    rcases List.mem_cons.mp ht' with rfl | ht'
    · exact ⟨_, hindex⟩
    · rw [(hthread t' (hne t' ht')).1] at hl
      obtain ⟨i, hi⟩ := h.listed t' ht' hl
      refine ⟨i, (hold i fun heq => ?_).trans hi⟩
      rw [heq, hfree] at hi
      exact h.nonnull (hi ▸ ht')
  case scheduled =>
    intro t' ht' hl
    rcases List.mem_cons.mp ht' with rfl | ht'
    · exact Or.inl hself.1
    · obtain ⟨hkeep, hkept⟩ := hthread t' (hne t' ht')
      rw [hkeep] at hl
      rw [hkept]
      exact h.scheduled t' ht' hl
  case waiting =>
    intro t' ht' hl hother
    rcases List.mem_cons.mp ht' with rfl | ht'
    · exact hself.2
    · rw [(hthread t' (hne t' ht')).1] at hl ⊢
      exact h.waiting t' ht' hl hother

theorem Placed.killClear (h : Placed s) (hphase : s.phase s.pCurrentTask = .unlinked) :
    Placed (killClear s) := by
  obtain ⟨hcur, hdead⟩ := h.dying hphase (not_scheduled (by decide) (by decide))
  have hmoved : Placed (s.setPhase s.pCurrentTask .cleared) :=
    h.keep (fun _ => rfl) hcur fun hl => absurd hl hdead
  refine ⟨h.nonnull, fun i hi => killClear_unused h.unused hi, fun i hi => killClear_tabled h.tabled hi,
    fun i j heq hi => killClear_once h.once heq hi, hmoved.booting, hmoved.fresh, h.index,
    fun _ => Or.inr (killClear_gone s), hmoved.current, fun t ht hl => ?_, hmoved.scheduled, hmoved.waiting⟩
  obtain ⟨i, hi⟩ := h.listed t ht hl
  refine ⟨i, (killClear_keep fun heq => ?_).trans hi⟩
  rw [heq] at hi
  rcases h.entry hcur with hself | hzero
  · exact hdead ((hi.symm.trans hself) ▸ hl)
  · exact h.nonnull ((hi.symm.trans hzero) ▸ ht)

theorem retire_living (h : (s.thread s.pCurrentTask).status ≠ .zombie)
    (hquantum : (s.thread s.pCurrentTask).quantum = 0) (currentESP : ℕ) :
    ((retired currentESP s).thread s.pCurrentTask).status = .wait := by
  rw [retired, setThread_self]
  rcases retire_cases currentESP _ hquantum with ⟨hzombie, -⟩ | ⟨hwait, -⟩
  · exact absurd hzombie h
  · exact hwait

theorem retired_living (h : Placed s) (hcur : s.pCurrentTask ≠ 0)
    (hquantum : (s.thread s.pCurrentTask).quantum = 0)
    (currentESP t : ℕ) : Living ((retired currentESP s).thread t) ↔ Living (s.thread t) := by
  by_cases heq : t = s.pCurrentTask
  · subst heq
    by_cases hzombie : (s.thread s.pCurrentTask).status = .zombie
    · rw [retired, setThread_self, retire, if_pos hzombie]
      exact iff_of_false (fun hl => hl.2 rfl) fun hl => hl.1 hzombie
    · have hwait := retire_living hzombie hquantum currentESP
      exact iff_of_true (by rw [Living, hwait]; decide) ⟨hzombie, (h.current hcur).2⟩
  · rw [retired, setThread_other s _ heq]

/-- After the retirement of the current thread those that live are ready or waiting. -/
theorem retired_runnable (h : Placed s) (hcur : s.pCurrentTask ≠ 0)
    (hquantum : (s.thread s.pCurrentTask).quantum = 0)
    (currentESP : ℕ) {t : ℕ} (ht : t ∈ s.allocated) :
    runnable ((retired currentESP s).thread t) = true ↔ Living (s.thread t) := by
  rw [← retired_living h hcur hquantum currentESP t]
  refine ⟨runnable_living, fun hl => ?_⟩
  by_cases heq : t = s.pCurrentTask
  · subst heq
    rw [retired_living h hcur hquantum] at hl
    rw [runnable_iff]
    exact Or.inr (retire_living hl.1 hquantum currentESP)
  · rw [retired, setThread_other s _ heq] at hl ⊢
    exact h.waiting t ht hl heq

theorem switchedTo_living (h : Placed s) (hcur : s.pCurrentTask ≠ 0)
    (hquantum : (s.thread s.pCurrentTask).quantum = 0) {currentESP c into : ℕ}
    (hrun : runnable ((retired currentESP s).thread into) = true) (t : ℕ) :
    Living ((switchedTo currentESP c into s).thread t) ↔ Living (s.thread t) := by
  rw [← retired_living h hcur hquantum currentESP t]
  by_cases heq : t = into
  · subst heq
    refine iff_of_true ?_ (runnable_living hrun)
    rw [Living, (switchedTo_into s currentESP c t).1]
    decide
  · rw [switchedTo_out heq]
    exact Iff.rfl

theorem Placed.switched (h : Placed s) (hcur : s.pCurrentTask ≠ 0)
    (hquantum : (s.thread s.pCurrentTask).quantum = 0) {currentESP c into : ℕ} (hinto : s.pThreads c = into)
    (hnull : into ≠ 0) (hrun : runnable ((retired currentESP s).thread into) = true) :
    Placed (switchedTo currentESP c into s) := by
  have hback : ∀ t, Living ((switchedTo currentESP c into s).thread t) → Living (s.thread t) :=
    fun t => (switchedTo_living h hcur hquantum hrun t).mp
  refine ⟨h.nonnull, h.unused, h.tabled, h.once, fun hzero => absurd hzero hnull,
    fun hzero => absurd hzero hnull,
    fun _ => ?_, fun _ => Or.inl hinto, fun _ => ⟨hinto ▸ h.tabled c (hinto ▸ hnull), ?_⟩,
    fun t ht hl => h.listed t ht (hback t hl), fun t ht hl => h.scheduled t ht (hback t hl),
    fun t ht hl hother => ?_⟩
  · by_contra hge
    exact hnull (hinto.symm.trans (h.unused c (Nat.le_of_not_lt hge)))
  · change ((switchedTo currentESP c into s).thread into).status ≠ _
    rw [(switchedTo_into s currentESP c into).1]
    decide
  · have hout : (switchedTo currentESP c into s).thread t = (retired currentESP s).thread t :=
      switchedTo_out hother
    rw [hout]
    exact (retired_runnable h hcur hquantum currentESP ht).mpr (hback t hl)

theorem Placed.interrupt (h : Placed s) {fuel currentESP esp : ℕ}
    (hrun : taskSwitch fuel currentESP s = some (esp, u)) : Placed u := by
  rcases taskSwitch_cases hrun with ⟨-, -, rfl⟩ | ⟨-, -, -, rfl⟩ |
    ⟨hcur, hquantum, c, into, hinto, hnull, hr, -, rfl⟩
  · exact h
  · exact h.setThread s.pCurrentTask fun _ => rfl
  · exact h.switched hcur hquantum hinto hnull hr

theorem Placed.setRunning (h : Placed s) (hcur : s.pCurrentTask ≠ 0) :
    Placed (s.setPhase s.pCurrentTask .running) :=
  h.keep (fun _ => rfl) hcur fun _ => Or.inl rfl

theorem Placed.event {e : Event} (h : Placed s) (he : ∀ t stackBase esp0, e ≠ .created t stackBase esp0)
    (hstep : SchedStep s e u) : Placed u := by
  cases hstep with
  | create t stackBase eip => exact absurd rfl (he _ _ _)
  | createError => exact h
  | start hcur hthreads => exact h.start hcur hthreads
  | nice newPriority => exact h.pNice s.pCurrentTask newPriority
  | pNice t newPriority => exact h.pNice t newPriority
  | interrupt _ hrun => exact h.interrupt hrun
  | softInterrupt hcur _ hrun => exact (h.setRunning hcur).interrupt hrun
  | yieldQuantum hcur => exact h.keep (setThread_field (·.status) s _ rfl) hcur fun _ => Or.inr rfl
  | killStatus hcur =>
    have hself : ((killStatus s).thread s.pCurrentTask).status = .zombie :=
      congrArg KernelThread.status (Function.update_self s.pCurrentTask _ s.thread)
    refine h.frame (fun t hl => ?_) (fun _ => ?_) (fun _ ht => Function.update_of_ne ht _ _) (fun _ hl => ?_)
      fun hzero => absurd hzero hcur
    · have hother : t ≠ s.pCurrentTask := by
        rintro rfl
        exact hl.1 hself
      exact congrArg KernelThread.status (killStatus_other hother)
    · exact fun hfree => by cases hself.symm.trans hfree
    · exact absurd hself hl.1
  | killMask hphase =>
    obtain ⟨hcur, hdead⟩ := h.dying hphase (not_scheduled (by decide) (by decide))
    exact h.keep (fun _ => rfl) hcur fun hl => absurd hl hdead
  | killUnlink hphase =>
    obtain ⟨hcur, hdead⟩ := h.dying hphase (not_scheduled (by decide) (by decide))
    exact h.keep (fun _ => rfl) hcur fun hl => absurd hl hdead
  | killClear hphase => exact h.killClear hphase
  | killUnmask hphase =>
    obtain ⟨hcur, hdead⟩ := h.dying hphase (not_scheduled (by decide) (by decide))
    exact h.keep (fun _ => rfl) hcur fun hl => absurd hl hdead
  | killQuantum hphase =>
    obtain ⟨hcur, hdead⟩ := h.dying hphase (not_scheduled (by decide) (by decide))
    exact h.keep (setThread_field (·.status) s _ rfl) hcur fun hl => absurd hl hdead

theorem Placed.step {op : Op} (h : Placed s) (hstep : ThreadStep s op u) : Placed u := by
  cases hstep with
  | create thread stackBase eip hphase hfresh =>
    unfold createCall
    split_ifs with hnull
    · exact h
    · exact h.create stackBase eip hnull hfresh
  | event he hstep => exact h.event he hstep

theorem run_placed {thread : ℕ → KernelThread} {links : Links Node} {ops : List Op}
    (hrun : Run ThreadStep (clearThreads thread links) ops s) : Placed s :=
  hrun.invariant Placed (placed_clear thread links) fun _ _ _ h hstep => h.step hstep

end Invariant

def dispatchedBy : Op → Option ℕ
  | .event (.switched _ _ _ into _) => some into
  | _ => none

/-- The threads that a run dispatches, in order. -/
def dispatched (ops : List Op) : List ℕ := ops.filterMap dispatchedBy

/-- Neither the creation of a thread nor the first step of `kill`. -/
def undisturbed : Op → Bool
  | .create thread _ _ => thread = 0
  | .event e => e ≠ .killStatus

/-- From the dispatch that leads to `u`, of the thread `t`, until the next one, every thread that is ready or
waiting at `u` is dispatched once. -/
def OncePerLap (u : Sched) (t : ℕ) : Prop :=
  ∀ ops v op w, Run ThreadStep u ops v → (∀ op ∈ ops, undisturbed op = true) → t ∉ dispatched ops →
    ThreadStep v op w → dispatchedBy op = some t →
      ∀ t' ∈ u.allocated, runnable (u.thread t') = true → (dispatched ops).count t' = 1

def Slot (s : Sched) (i : ℕ) : Prop := s.pThreads i ≠ 0 ∧ Living (s.thread (s.pThreads i))

/-- What stays from `s` to `u` of the table and of who lives. -/
structure SameSlots (s u : Sched) : Prop where
  table : u.pThreads = s.pThreads
  size : u.numThreads = s.numThreads
  allocated : u.allocated = s.allocated
  living : ∀ t, Living (u.thread t) ↔ Living (s.thread t)

def Stays (s : Sched) (op : Op) (u : Sched) : Prop :=
  dispatchedBy op = none ∧ u.currentTask = s.currentTask ∧ u.pCurrentTask = s.pCurrentTask

def Moves (s : Sched) (op : Op) (u : Sched) : Prop :=
  FirstAfter s.numThreads (Slot s) s.currentTask u.currentTask ∧
    dispatchedBy op = some (s.pThreads u.currentTask) ∧ u.pCurrentTask = s.pThreads u.currentTask

section Lap
variable {s u v : Sched} {op : Op}

theorem SameSlots.trans (h : SameSlots s u) (h' : SameSlots u v) : SameSlots s v :=
  ⟨h'.table.trans h.table, h'.size.trans h.size, h'.allocated.trans h.allocated,
    fun t => (h'.living t).trans (h.living t)⟩

theorem sameSlots_of_status (htable : u.pThreads = s.pThreads) (hsize : u.numThreads = s.numThreads)
    (hallocated : u.allocated = s.allocated) (hstatus : ∀ t, (u.thread t).status = (s.thread t).status) :
    SameSlots s u :=
  ⟨htable, hsize, hallocated, fun t => by simp only [Living, hstatus]⟩

theorem SameSlots.slot_iff (h : SameSlots s u) (i : ℕ) : Slot u i ↔ Slot s i := by
  rw [Slot, Slot, h.table]
  exact and_congr_right fun _ => h.living _

theorem candidate_iff (h : Placed s) (hcur : s.pCurrentTask ≠ 0)
    (hquantum : (s.thread s.pCurrentTask).quantum = 0)
    (currentESP i : ℕ) : Candidate (retired currentESP s) i ↔ Slot s i :=
  and_congr_right fun hi => retired_runnable h hcur hquantum currentESP (h.tabled i hi)

/-- The scheduler interrupt either leaves the current thread, or goes to the next slot. -/
theorem taskSwitch_slots (h : Placed s) (hbound : s.numThreads < wordSize) (cause : Cause)
    {fuel currentESP esp : ℕ} (hrun : taskSwitch fuel currentESP s = some (esp, u)) : SameSlots s u ∧
      (Stays s (.event (switchEvent cause s currentESP esp u)) u ∨
        Moves s (.event (switchEvent cause s currentESP esp u)) u) := by
  rcases taskSwitch_cases hrun with ⟨hzero, -, rfl⟩ | ⟨hcur, hpos, -, rfl⟩ |
    ⟨hcur, hquantum, c, into, hinto, hnull, hr, -, -⟩
  · refine ⟨sameSlots_of_status rfl rfl rfl fun _ => rfl, Or.inl ⟨?_, rfl, rfl⟩⟩
    rw [switchEvent, if_pos (Or.inl hzero)]
    rfl
  · refine ⟨sameSlots_of_status rfl rfl rfl (setThread_field (·.status) s _ rfl), Or.inl ⟨?_, rfl, rfl⟩⟩
    rw [switchEvent, if_pos (Or.inr hpos)]
    rfl
  · have hindex := h.index hcur
    have hcandidate : Candidate (retired currentESP s) c := ⟨hinto.symm ▸ hnull, hinto.symm ▸ hr⟩
    have hc : c < s.numThreads := not_le.mp fun hle => hcandidate.1 (h.unused c hle)
    obtain ⟨d, hfirst, hall⟩ := taskSwitch_first hcur hquantum hindex hbound currentESP ⟨c, hc, hcandidate⟩
    have hsame := (taskSwitch_mono (Nat.le_max_left fuel (s.numThreads + 1)) hrun).symm.trans
      (hall _ (Nat.le_max_right fuel (s.numThreads + 1)))
    obtain ⟨-, rfl⟩ := Prod.mk.inj (Option.some.inj hsame)
    obtain ⟨-, -, -, -, hfound, -⟩ := id hfirst
    refine ⟨⟨rfl, rfl, rfl, switchedTo_living h hcur hquantum hfound.2⟩,
      Or.inr ⟨hfirst.congr fun j _ => candidate_iff h hcur hquantum currentESP j, ?_, rfl⟩⟩
    rw [switchEvent, if_neg (not_or.mpr ⟨hcur, by omega⟩)]
    rfl

theorem pNice_stays (t : ℕ) (newPriority : ℤ) (hop : dispatchedBy op = none) :
    SameSlots s (pNice t newPriority s) ∧
      (Stays s op (pNice t newPriority s) ∨ Moves s op (pNice t newPriority s)) := by
  unfold pNice
  split_ifs
  · exact ⟨sameSlots_of_status rfl rfl rfl (setThread_field (·.status) s t rfl), Or.inl ⟨hop, rfl, rfl⟩⟩
  · exact ⟨sameSlots_of_status rfl rfl rfl fun _ => rfl, Or.inl ⟨hop, rfl, rfl⟩⟩

theorem calm_step (h : Placed s) (hcur : s.pCurrentTask ≠ 0) (hliving : Living (s.thread s.pCurrentTask))
    (hbound : s.numThreads < wordSize) (hstep : ThreadStep s op u) (hcalm : undisturbed op = true) :
    SameSlots s u ∧ (Stays s op u ∨ Moves s op u) := by
  have hscheduled := h.scheduled _ (h.current hcur).1 hliving
  have hstays : ∀ {thread : ℕ → KernelThread} (phase : ℕ → Phase),
      (∀ t, (thread t).status = (s.thread t).status) →
      dispatchedBy op = none → SameSlots s { s with thread := thread, phase := phase } ∧
        (Stays s op { s with thread := thread, phase := phase } ∨
          Moves s op { s with thread := thread, phase := phase }) :=
    fun phase hstatus hop => ⟨sameSlots_of_status rfl rfl rfl hstatus, Or.inl ⟨hop, rfl, rfl⟩⟩
  have hnot : ∀ {p : Phase} {Q : Prop}, s.phase s.pCurrentTask = p → p ≠ .running → p ≠ .yielding → Q :=
    fun hp hr hy => absurd (hp ▸ hscheduled) (not_scheduled hr hy)
  cases hstep with
  | create thread stackBase eip =>
    rw [createCall, if_pos (of_decide_eq_true hcalm)]
    exact hstays s.phase (fun _ => rfl) rfl
  | event he hstep =>
    cases hstep with
    | create t stackBase eip => exact absurd rfl (he _ _ _)
    | createError => exact hstays s.phase (fun _ => rfl) rfl
    | start hzero => exact absurd hzero hcur
    | nice newPriority => exact pNice_stays s.pCurrentTask newPriority rfl
    | pNice t newPriority => exact pNice_stays t newPriority rfl
    | interrupt _ hrun => exact taskSwitch_slots h hbound .timer hrun
    | softInterrupt _ _ hrun =>
      obtain ⟨hsame, hmove⟩ := taskSwitch_slots (h.setRunning hcur) hbound .int20 hrun
      exact ⟨⟨hsame.table, hsame.size, hsame.allocated, hsame.living⟩, hmove⟩
    | yieldQuantum => exact hstays _ (setThread_field (·.status) s _ rfl) rfl
    | killStatus => cases hcalm
    | killMask hphase => exact hnot hphase (by decide) (by decide)
    | killUnlink hphase => exact hnot hphase (by decide) (by decide)
    | killClear hphase => exact hnot hphase (by decide) (by decide)
    | killUnmask hphase => exact hnot hphase (by decide) (by decide)
    | killQuantum hphase => exact hnot hphase (by decide) (by decide)

/-- After `ops` from a dispatch at `u`: the scans that have been made, and the thread that runs. -/
structure Lap (u : Sched) (ops : List Op) (v : Sched) : Prop where
  placed : Placed v
  same : SameSlots u v
  current : v.pCurrentTask ≠ 0 ∧ Living (v.thread v.pCurrentTask)
  visits : ∃ is, Visits u.numThreads (Slot u) u.currentTask is ∧ v.currentTask = is.getLastD u.currentTask ∧
    dispatched ops = is.map u.pThreads

theorem dispatched_snoc (ops : List Op) (op : Op) :
    dispatched (ops ++ [op]) = dispatched ops ++ (dispatchedBy op).toList := by
  rw [dispatched, List.filterMap_append]
  cases hop : dispatchedBy op <;> simp [hop, dispatched]

theorem Lap.step {ops : List Op} (h : Lap u ops v) {w : Sched} (hplaced : Placed w)
    (hmove : SameSlots v w ∧ (Stays v op w ∨ Moves v op w)) : Lap u (ops ++ [op]) w := by
  obtain ⟨is, hvisits, hlast, hdispatched⟩ := h.visits
  obtain ⟨hsame, ⟨hop, hindex, hcurrent⟩ | ⟨hfirst, hop, hcurrent⟩⟩ := hmove
  · refine ⟨hplaced, h.same.trans hsame, ?_, is, hvisits, hindex.trans hlast, ?_⟩
    · rw [hcurrent, hsame.living]
      exact h.current
    · rw [dispatched_snoc, hop, hdispatched]
      exact List.append_nil _
  · rw [h.same.size, hlast] at hfirst
    replace hfirst := hfirst.congr fun i _ => h.same.slot_iff i
    obtain ⟨-, -, -, -, hslot, -⟩ := id hfirst
    rw [h.same.table] at hop hcurrent
    refine ⟨hplaced, h.same.trans hsame, ?_, is ++ [w.currentTask], visits_snoc.mpr ⟨hvisits, hfirst⟩, ?_, ?_⟩
    · rw [hcurrent, hsame.living, h.same.living]
      exact hslot
    · rw [List.getLastD_concat]
    · rw [dispatched_snoc, hop, hdispatched, List.map_append]
      rfl

theorem lap_start (h : Placed u) (hcur : u.pCurrentTask ≠ 0) (hliving : Living (u.thread u.pCurrentTask)) :
    Lap u [] u :=
  ⟨h, ⟨rfl, rfl, rfl, fun _ => Iff.rfl⟩, ⟨hcur, hliving⟩, [], trivial, rfl, rfl⟩

theorem Lap.next {ops : List Op} (h : Lap u ops v) (hbound : u.numThreads < wordSize) {w : Sched}
    (hstep : ThreadStep v op w) (hcalm : undisturbed op = true) : Lap u (ops ++ [op]) w :=
  h.step (h.placed.step hstep)
    (calm_step h.placed h.current.1 h.current.2 (h.same.size ▸ hbound) hstep hcalm)

/-- The visited slots hold different threads. -/
theorem count_threads (h : Placed u) {is : List ℕ} (his : ∀ j ∈ is, Slot u j) (i : ℕ) :
    (is.map u.pThreads).count (u.pThreads i) = is.count i := by
  rw [List.count, List.countP_map, List.count]
  refine List.countP_congr fun j hj => ?_
  rw [Function.comp_apply, beq_iff_eq, beq_iff_eq]
  exact ⟨fun heq => h.once j i heq (his j hj).1, congrArg u.pThreads⟩

/-- After a dispatch of `t`. -/
structure Dispatched (s : Sched) (t : ℕ) (u : Sched) : Prop where
  current : u.pCurrentTask = t
  nonnull : t ≠ 0
  entry : u.pThreads u.currentTask = t
  running : (u.thread t).status = .running
  size : u.numThreads = s.numThreads

theorem taskSwitch_into {fuel currentESP esp out currentESP' t esp' : ℕ} {cause cause' : Cause}
    (hrun : taskSwitch fuel currentESP s = some (esp, u))
    (hevent : switchEvent cause s currentESP esp u = .switched cause' out currentESP' t esp') :
    Dispatched s t u := by
  obtain ⟨c, hinto, hnull, rfl⟩ := taskSwitch_switched hrun hevent
  exact ⟨rfl, hnull, hinto, (switchedTo_into s currentESP c t).1, rfl⟩

theorem dispatch_into {cause : Cause} {out currentESP t esp : ℕ}
    (hstep : ThreadStep s (.event (.switched cause out currentESP t esp)) u) : Dispatched s t u := by
  cases hstep with
  | event he hstep =>
    generalize hevent : Event.switched cause out currentESP t esp = e at hstep
    cases hstep with
    | interrupt _ hrun => exact taskSwitch_into hrun hevent.symm
    | @softInterrupt _ fuel currentESP' esp' _ _ hrun =>
      have hinto := @taskSwitch_into (s.setPhase s.pCurrentTask .running) u fuel currentESP' esp' _ _ _ _ _ _
        hrun hevent.symm
      exact ⟨hinto.current, hinto.nonnull, hinto.entry, hinto.running, hinto.size⟩
    | _ => cases hevent

theorem dispatch_undisturbed {t : ℕ} (hop : dispatchedBy op = some t) : undisturbed op = true := by
  cases op with
  | create => cases hop
  | event e =>
    cases e with
    | switched => rfl
    | _ => cases hop

theorem oncePerLap (hu : Placed u) (hbound : u.numThreads < wordSize) (hcur : u.pCurrentTask ≠ 0)
    (hentry : u.pThreads u.currentTask = u.pCurrentTask) (hliving : Living (u.thread u.pCurrentTask))
    (hother : runnable (u.thread u.pCurrentTask) = false) : OncePerLap u u.pCurrentTask := by
  intro ops v op w hrun hcalm hnot hstep hback t ht hready
  have hlap : Lap u ops v := hrun.guarded_invariant (fun ops v => Lap u ops v) (lap_start hu hcur hliving)
    (fun _ _ _ _ _ h hs hc => h.next hbound hs hc) (every_of_forall hcalm)
  obtain ⟨is, hvisits, -, hdispatched⟩ := (hlap.next hbound hstep (dispatch_undisturbed hback)).visits
  rw [dispatched_snoc, hback] at hdispatched
  rcases List.eq_nil_or_concat is with rfl | ⟨is, k, rfl⟩
  · exact absurd hdispatched (List.append_ne_nil_of_right_ne_nil _ (List.cons_ne_nil _ _))
  rw [List.concat_eq_append] at hvisits hdispatched
  rw [List.map_append] at hdispatched
  obtain ⟨hbefore, hlast⟩ := List.append_inj' hdispatched rfl
  have hself : u.currentTask = k :=
    hu.once _ k (hentry.trans (List.cons.inj hlast).1) (hentry.symm ▸ hcur)
  subst hself
  have hslots := (visits_snoc.mp hvisits).1.forall
  have hslot : ∀ {i}, u.pThreads i = t → i < u.numThreads ∧ Slot u i := fun hi =>
    have hne : u.pThreads _ ≠ 0 := fun hzero => hu.nonnull ((hi.symm.trans hzero) ▸ ht)
    ⟨not_le.mp fun hle => hne (hu.unused _ hle), hne, hi.symm ▸ runnable_living hready⟩
  obtain ⟨i, hi⟩ := hu.listed t ht (runnable_living hready)
  rw [hbefore, ← hi, count_threads hu hslots]
  refine hvisits.count_eq_one (hu.index hcur) ⟨hentry.symm ▸ hcur, hentry.symm ▸ hliving⟩ (fun hmem => hnot ?_)
    (hslot hi).1 (hslot hi).2 fun heq => ?_
  · rw [hbefore, ← hentry]
    exact List.mem_map_of_mem hmem
  · rw [← hi, heq, hentry, hother] at hready
    cases hready

end Lap

/-- In every reachable state an expiring call dispatches the first thread that can run after the current index,
and from one dispatch of a thread to the next every other one that can run is dispatched once. -/
theorem roundRobin (thread : ℕ → KernelThread) (links : Links Node) {before : List Op} {s : Sched}
    (hrun : Run ThreadStep (clearThreads thread links) before s) (hbound : s.numThreads < wordSize) :
    (∀ currentESP, s.pCurrentTask ≠ 0 → (s.thread s.pCurrentTask).quantum = 0 → s.currentTask < s.numThreads →
      (∃ i < s.numThreads, Candidate (retired currentESP s) i) → DispatchesFirst currentESP s) ∧
    ∀ cause out currentESP t esp u, ThreadStep s (.event (.switched cause out currentESP t esp)) u →
      OncePerLap u t := by
  have hplaced := run_placed hrun
  refine ⟨fun currentESP hcur hquantum hindex hsome =>
    taskSwitch_dispatchesFirst hcur hquantum hindex hbound currentESP hsome,
    fun cause out currentESP t esp u hstep => ?_⟩
  obtain ⟨rfl, hcur, hentry, hrunning, hsize⟩ := dispatch_into hstep
  refine oncePerLap (hplaced.step hstep) (hsize ▸ hbound) hcur hentry ?_ ?_
  · rw [Living, hrunning]
    decide
  · rw [runnable, hrunning]
    rfl

def twoThreads : Sched :=
  startScheduler (createKernelThread 0x2000 0x8000 0 (createKernelThread 0x1000 0x6000 0 bootState))

theorem twoThreads_run : Run ThreadStep bootState [.create 0x1000 0x6000 0, .create 0x2000 0x8000 0,
    .event .started] twoThreads := by
  refine .next (.create 0x1000 0x6000 0 rfl (by decide)) (.next (.create 0x2000 0x8000 0 rfl (by decide)) ?_)
  exact .single (.event nofun (.start rfl (by decide)))

def secondRuns : Sched := switchedTo 0x61B0 1 0x2000 twoThreads

theorem secondRuns_step :
    ThreadStep twoThreads (.event (.switched .timer 0x1000 0x61B0 0x2000 (initialESP 0x8000 0))) secondRuns :=
  .event nofun (@SchedStep.interrupt twoThreads secondRuns 1 0x61B0 (initialESP 0x8000 0)
    ⟨by decide, by decide, by decide⟩ rfl)

/-- The second thread changes its priority and yields, and so does the first. -/
def yields : List Op :=
  [.event (.nice 5), .event .yieldQuantum, .event (.switched .int20 0x2000 0x8100 0x1000 0x61B0),
    .event (.pNice 0x2000 7), .event .yieldQuantum]

def secondYields : Sched := endQuantum .yielding (nice 5 secondRuns)

def firstRuns : Sched := switchedTo 0x8100 0 0x1000 (secondYields.setPhase 0x2000 .running)

def firstYields : Sched := endQuantum .yielding (pNice 0x2000 7 firstRuns)

theorem yields_run : Run ThreadStep secondRuns yields firstYields := by
  refine .next (.event nofun (.nice 5 (by decide))) (.next (.event nofun (.yieldQuantum (by decide) rfl)) ?_)
  refine .next (.event nofun
    (@SchedStep.softInterrupt secondYields firstRuns 1 0x8100 0x61B0 (by decide) (Or.inl rfl) rfl)) ?_
  refine .next (.event nofun (.pNice 0x2000 7 (by decide))) ?_
  exact .single (.event nofun (.yieldQuantum (by decide) rfl))

def secondAgain : Sched := switchedTo 0x6100 1 0x2000 (firstYields.setPhase 0x1000 .running)

theorem firstYields_step :
    ThreadStep firstYields (.event (.switched .int20 0x1000 0x6100 0x2000 0x8100)) secondAgain :=
  .event nofun (@SchedStep.softInterrupt firstYields _ 1 0x6100 0x8100 (by decide) (Or.inl rfl) rfl)

theorem roundRobin_two : DispatchesFirst 0x61B0 twoThreads ∧ (dispatched yields).count 0x1000 = 1 := by
  obtain ⟨hfirst, hlap⟩ := roundRobin (fun _ => noThread) ⟨fun _ => none, fun _ => none⟩ twoThreads_run
    (by decide)
  exact ⟨hfirst 0x61B0 (by decide) rfl (by decide) ⟨1, by decide, by decide, rfl⟩,
    hlap _ _ _ _ _ _ secondRuns_step yields _ _ _ yields_run (by decide) (by decide) firstYields_step rfl 0x1000
      (by decide) rfl⟩

end Ktux.RoundRobin
