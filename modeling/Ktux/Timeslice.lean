import Ktux.RoundRobin

set_option autoImplicit false

/-!
# Timeslices

The priority of a thread stays between the bounds that `nice` checks, so `QuantumAmount` is a number of
interrupts from 1 to 127. A slice is that many interrupts that return to the thread, and one that does not.
-/
namespace Ktux.Timeslice
open Words Runs CircularList Scheduler ContextSwitch ThreadTable ThreadCreation SchedulerReturns RoundRobin

def isInterrupt : Op → Bool
  | .event (.returned _ _ _) => true
  | .event (.switched _ _ _ _ _) => true
  | _ => false

def interrupts (ops : List Op) : ℕ := ops.countP isInterrupt

/-- The current thread neither yields nor is killed: no step of `yield` or of `kill`, whose last one is
`int $0x20`. -/
def keepsOn : Op → Bool
  | .create _ _ _ => true
  | .event e => match e with
    | .yieldQuantum | .killStatus | .killMask | .killUnlink | .killClear | .killUnmask | .killQuantum => false
    | .returned .int20 _ _ => false
    | .switched .int20 _ _ _ _ => false
    | _ => true

/-- Between the dispatch of `t` at `u` and the interrupt that ends its slice, after `ops`. -/
structure InSlice (t : ℕ) (u : Sched) (ops : List Op) (v : Sched) : Prop where
  current : v.pCurrentTask = t
  quantum : (v.thread t).quantum + interrupts ops = (u.thread t).quantum
  time : (v.thread t).time = wadd (u.thread t).time (interrupts ops)
  others : ∀ t' ∈ v.allocated, t' ≠ t →
    (v.thread t').time = if t' ∈ u.allocated then (u.thread t').time else 0

/-- Each interrupt returns to `t`. -/
def ReturnsTo (t : ℕ) (v : Sched) : Prop :=
  ∀ fuel currentESP, ∃ w, taskSwitch fuel currentESP v = some (currentESP, w) ∧ w.pCurrentTask = t

/-- The interrupt that looks for another thread, at the end of a slice of `ticks` interrupts since `u`. -/
structure EndsSlice (t : ℕ) (u : Sched) (ticks : ℕ) (v : Sched) : Prop where
  scans : ∀ fuel currentESP, taskSwitch fuel currentESP v = (scan fuel (retired currentESP v)).map dispatch
  time : ∀ fuel currentESP esp w, taskSwitch fuel currentESP v = some (esp, w) →
    (w.thread t).time = wadd (u.thread t).time ticks
  others : ∀ fuel currentESP esp w, taskSwitch fuel currentESP v = some (esp, w) →
    ∀ t' ∈ w.allocated, t' ≠ t → (w.thread t').time = if t' ∈ u.allocated then (u.thread t').time else 0

/-- The slice of a thread dispatched at `u` with its priority there, whatever priorities are set during it. -/
structure FullSlice (t : ℕ) (u : Sched) : Prop where
  quantum : ((u.thread t).quantum : ℤ) = intPerSlice - (u.thread t).priority
  range : 1 ≤ (u.thread t).quantum ∧ (u.thread t).quantum ≤ 127
  during : ∀ ops v, Run ThreadStep u ops v → (∀ op ∈ ops, keepsOn op = true) →
    interrupts ops ≤ (u.thread t).quantum → InSlice t u ops v
  returns : ∀ ops v, Run ThreadStep u ops v → (∀ op ∈ ops, keepsOn op = true) →
    interrupts ops < (u.thread t).quantum → ReturnsTo t v
  ends : ∀ ops v, Run ThreadStep u ops v → (∀ op ∈ ops, keepsOn op = true) →
    interrupts ops = (u.thread t).quantum → EndsSlice t u ((u.thread t).quantum + 1) v

section Bounds
variable {s u : Sched}

/-- What every thread keeps: a priority that `nice` accepts, and counters that have not wrapped below 0. -/
structure Bounded (k : KernelThread) : Prop where
  low : -intPerSlice < k.priority
  high : k.priority < intPerSlice
  quantum : k.quantum ≤ 127
  time : k.time < wordSize

def Within (s : Sched) : Prop := ∀ t ∈ s.allocated, Bounded (s.thread t)

theorem quantumAmount_eq {k : KernelThread} (h : Bounded k) :
    (quantumAmount k : ℤ) = intPerSlice - k.priority := by
  have hlow := h.low
  have hhigh := h.high
  simp only [intPerSlice] at hlow hhigh ⊢
  rw [quantumAmount, Int.toNat_of_nonneg (Int.emod_nonneg _ (by decide)), intPerSlice, Int.emod_eq_of_lt]
  · omega
  · rw [wordSize_eq]
    omega

theorem Within.setThread (h : Within s) (t : ℕ) {f : KernelThread → KernelThread}
    (hf : ∀ k, Bounded k → Bounded (f k)) : Within (s.setThread t f) := by
  intro t' ht'
  by_cases heq : t' = t
  · rw [heq, setThread_self]
    exact hf _ (h t (heq ▸ ht'))
  · rw [setThread_other s f heq]
    exact h t' ht'

theorem Within.pNice (h : Within s) (t : ℕ) (newPriority : ℤ) : Within (pNice t newPriority s) := by
  unfold Scheduler.pNice
  split_ifs with hbounds
  · exact h.setThread t fun k hk => ⟨by simpa using hbounds.1, hbounds.2, hk.quantum, hk.time⟩
  · exact h

theorem retire_bounded (currentESP : ℕ) {k : KernelThread} (h : Bounded k) :
    Bounded (retire currentESP k) := by
  unfold retire
  split_ifs
  · exact ⟨h.low, h.high, h.quantum, h.time⟩
  · exact ⟨h.low, h.high, h.quantum, wadd_lt _ _⟩
  · exact h

theorem dispatch_bounded {k : KernelThread} (h : Bounded k) :
    Bounded { k with quantum := quantumAmount k, status := .running } := by
  refine ⟨h.low, h.high, ?_, h.time⟩
  have hamount := quantumAmount_eq h
  have hlow := h.low
  simp only [intPerSlice] at hlow hamount
  change quantumAmount k ≤ 127
  omega

theorem Within.taskSwitch (h : Within s) {fuel currentESP esp : ℕ}
    (hrun : taskSwitch fuel currentESP s = some (esp, u)) : Within u := by
  rcases taskSwitch_cases hrun with ⟨-, -, rfl⟩ | ⟨-, -, -, rfl⟩ | ⟨-, -, c, into, -, -, -, -, rfl⟩
  · exact h
  · exact h.setThread _ fun k hk => ⟨hk.low, hk.high, (Nat.sub_le _ _).trans hk.quantum, wadd_lt _ _⟩
  · have hretired : Within ((s.setThread s.pCurrentTask (retire currentESP)).setCurrent c into) :=
      h.setThread s.pCurrentTask fun _ hk => retire_bounded currentESP hk
    exact hretired.setThread into fun _ hk => dispatch_bounded hk

theorem Within.create (h : Within s) (t stackBase eip : ℕ) :
    Within (createKernelThread t stackBase eip s) := by
  intro t' ht'
  by_cases heq : t' = t
  · subst heq
    change Bounded (Function.update s.thread t' _ t')
    rw [Function.update_self]
    exact ⟨by simp, by simp, Nat.zero_le _, wordSize_eq ▸ Nat.zero_lt_succ _⟩
  · rw [((createKernelThread_created t stackBase eip s).others t' heq).1]
    exact h t' ((List.mem_cons.mp ht').resolve_left heq)

theorem Within.start (h : Within s) : Within (startScheduler s) := by
  unfold startScheduler
  split_ifs
  · exact h
  · have hset : Within (s.setCurrent 0 (s.pThreads 0)) := h
    exact hset.setThread _ fun k hk => ⟨hk.low, hk.high, Nat.zero_le _, wordSize_eq ▸ Nat.zero_lt_succ _⟩

theorem Within.endQuantum (h : Within s) (p : Phase) : Within (endQuantum p s) :=
  h.setThread s.pCurrentTask (f := fun t => { t with quantum := 0 }) fun _ hk =>
    ⟨hk.low, hk.high, Nat.zero_le _, hk.time⟩

theorem Within.step {op : Op} (h : Within s) (hstep : ThreadStep s op u) : Within u := by
  cases hstep with
  | create thread stackBase eip =>
    unfold createCall
    split_ifs
    · exact h
    · exact h.create thread stackBase eip
  | event he hstep =>
    cases hstep with
    | create t stackBase eip => exact absurd rfl (he _ _ _)
    | createError => exact h
    | start => exact h.start
    | nice newPriority => exact h.pNice s.pCurrentTask newPriority
    | pNice t newPriority => exact h.pNice t newPriority
    | interrupt _ hrun => exact h.taskSwitch hrun
    | softInterrupt _ _ hrun =>
      have hset : Within (s.setPhase s.pCurrentTask .running) := h
      exact hset.taskSwitch hrun
    | yieldQuantum => exact h.endQuantum .yielding
    | killStatus =>
      exact h.setThread s.pCurrentTask (f := fun t => { t with status := .zombie }) fun _ hk =>
        ⟨hk.low, hk.high, hk.quantum, hk.time⟩
    | killMask => exact h
    | killUnlink => exact h
    | killClear => exact h
    | killUnmask => exact h
    | killQuantum => exact h.endQuantum .leaving

theorem run_within {thread : ℕ → KernelThread} {links : Links Node} {ops : List Op}
    (hrun : Run ThreadStep (clearThreads thread links) ops s) : Within s :=
  hrun.invariant Within (fun _ ht => absurd ht List.not_mem_nil) fun _ _ _ h hstep => h.step hstep

end Bounds

section Slice
variable {s u v w : Sched} {op : Op} {ops : List Op} {t : ℕ}

theorem interrupts_snoc (ops : List Op) (op : Op) :
    interrupts (ops ++ [op]) = interrupts ops + if isInterrupt op then 1 else 0 := by
  rw [interrupts, List.countP_append, List.countP_singleton]
  rfl

/-- A step that is no interrupt: the counters of the threads stay, a new thread has used no time. -/
structure Quiet (s u : Sched) : Prop where
  current : u.pCurrentTask = s.pCurrentTask
  allocated : ∀ t ∈ s.allocated, t ∈ u.allocated
  counters : ∀ t ∈ s.allocated, (u.thread t).time = (s.thread t).time ∧
    (u.thread t).quantum = (s.thread t).quantum ∧ (u.thread t).status = (s.thread t).status
  fresh : ∀ t ∈ u.allocated, t ∉ s.allocated → (u.thread t).time = 0

theorem quiet_refl (s : Sched) : Quiet s s :=
  ⟨rfl, fun _ ht => ht, fun _ _ => ⟨rfl, rfl, rfl⟩, fun _ ht hnot => absurd ht hnot⟩

theorem pNice_quiet (t : ℕ) (newPriority : ℤ) (s : Sched) : Quiet s (pNice t newPriority s) := by
  unfold pNice
  split_ifs
  · refine ⟨rfl, fun _ ht => ht, fun t' _ => ⟨?_, ?_, ?_⟩, fun _ ht hnot => absurd ht hnot⟩
    · exact setThread_field (·.time) s t rfl t'
    · exact setThread_field (·.quantum) s t rfl t'
    · exact setThread_field (·.status) s t rfl t'
  · exact quiet_refl s

theorem create_quiet (s : Sched) {t : ℕ} (stackBase eip : ℕ) (hfresh : t ∉ s.allocated) :
    Quiet s (createKernelThread t stackBase eip s) := by
  refine ⟨rfl, fun _ ht => List.mem_cons_of_mem _ ht, fun t' ht' => ?_, fun t' ht' hnot => ?_⟩
  · rw [createKernelThread_old s stackBase eip hfresh ht']
    exact ⟨rfl, rfl, rfl⟩
  · obtain rfl : t' = t := (List.mem_cons.mp ht').resolve_right hnot
    exact congrArg KernelThread.time (Function.update_self t' _ s.thread)

/-- What a step is while the current thread neither yields nor is killed. -/
theorem keepsOn_cases (hcur : s.pCurrentTask ≠ 0) (hstep : ThreadStep s op u) (hkeeps : keepsOn op = true) :
    (isInterrupt op = false ∧ Quiet s u) ∨
    (isInterrupt op = true ∧ ∃ fuel currentESP esp, taskSwitch fuel currentESP s = some (esp, u)) := by
  cases hstep with
  | create thread stackBase eip _ hfresh =>
    refine Or.inl ⟨rfl, ?_⟩
    unfold createCall
    split_ifs
    · exact quiet_refl s
    · exact create_quiet s stackBase eip hfresh
  | event he hstep =>
    cases hstep with
    | create t stackBase eip => exact absurd rfl (he _ _ _)
    | createError => exact Or.inl ⟨rfl, quiet_refl s⟩
    | start hzero => exact absurd hzero hcur
    | nice newPriority => exact Or.inl ⟨rfl, pNice_quiet s.pCurrentTask newPriority s⟩
    | pNice t newPriority => exact Or.inl ⟨rfl, pNice_quiet t newPriority s⟩
    | interrupt _ hrun =>
      refine Or.inr ⟨?_, _, _, _, hrun⟩
      unfold switchEvent
      split_ifs <;> rfl
    | softInterrupt _ _ hrun =>
      unfold switchEvent at hkeeps
      split_ifs at hkeeps <;> cases hkeeps
    | _ => cases hkeeps

/-- `InSlice` with what carries it: the thread is allocated and running. -/
structure Ticking (t : ℕ) (u : Sched) (ops : List Op) (v : Sched) : Prop where
  slice : InSlice t u ops v
  nonnull : t ≠ 0
  allocated : t ∈ v.allocated
  running : (v.thread t).status = .running
  kept : ∀ t' ∈ u.allocated, t' ∈ v.allocated

theorem ticking_start (h : Placed u) (hwithin : Within u) (hcur : u.pCurrentTask ≠ 0)
    (hrunning : (u.thread u.pCurrentTask).status = .running) : Ticking u.pCurrentTask u [] u := by
  have hallocated := (h.current hcur).1
  refine ⟨⟨rfl, rfl, ?_, fun t' ht' _ => (if_pos ht').symm⟩, hcur, hallocated, hrunning, fun _ ht => ht⟩
  exact (wadd_of_lt (b := 0) (hwithin _ hallocated).time).symm

theorem Ticking.quiet (h : Ticking t u ops v) (hop : isInterrupt op = false) (hquiet : Quiet v w) :
    Ticking t u (ops ++ [op]) w := by
  obtain ⟨htime, hquantum, hstatus⟩ := hquiet.counters t h.allocated
  have hcount : interrupts (ops ++ [op]) = interrupts ops := by rw [interrupts_snoc, hop]; rfl
  refine ⟨⟨hquiet.current.trans h.slice.current, ?_, ?_, fun t' ht' hne => ?_⟩, h.nonnull,
    hquiet.allocated t h.allocated, hstatus.trans h.running, fun t' ht' => hquiet.allocated t' (h.kept t' ht')⟩
  · rw [hquantum, hcount]
    exact h.slice.quantum
  · rw [htime, hcount]
    exact h.slice.time
  · by_cases hold : t' ∈ v.allocated
    · rw [(hquiet.counters t' hold).1]
      exact h.slice.others t' hold hne
    · rw [hquiet.fresh t' ht' hold, if_neg fun hmem => hold (h.kept t' hmem)]

theorem Ticking.positive (h : Ticking t u ops v) (hlt : interrupts ops < (u.thread t).quantum) :
    0 < (v.thread v.pCurrentTask).quantum := by
  have hquantum := h.slice.quantum
  rw [h.slice.current]
  omega

theorem Ticking.returns (h : Ticking t u ops v) (hlt : interrupts ops < (u.thread t).quantum)
    (fuel currentESP : ℕ) : taskSwitch fuel currentESP v = some (currentESP, v.setThread t countTick) := by
  have hcur := h.slice.current
  rw [taskSwitch, if_neg (hcur.symm ▸ h.nonnull), if_pos (h.positive hlt), hcur]

theorem wadd_wadd_one (a k : ℕ) : wadd (wadd a k) 1 = wadd a (k + 1) := by
  unfold wadd
  rw [Nat.mod_add_mod, Nat.add_assoc]

theorem Ticking.tick (h : Ticking t u ops v) (hlt : interrupts ops < (u.thread t).quantum)
    (hop : isInterrupt op = true) : Ticking t u (ops ++ [op]) (v.setThread t countTick) := by
  have hcount : interrupts (ops ++ [op]) = interrupts ops + 1 := by rw [interrupts_snoc, hop]; rfl
  have hquantum := h.slice.quantum
  refine ⟨⟨h.slice.current, ?_, ?_, fun t' ht' hne => ?_⟩, h.nonnull, h.allocated, ?_, h.kept⟩
  · rw [setThread_self, hcount]
    change (v.thread t).quantum - 1 + _ = _
    omega
  · rw [setThread_self, hcount, ← wadd_wadd_one, ← h.slice.time]
    rfl
  · rw [setThread_other v _ hne]
    exact h.slice.others t' ht' hne
  · rw [setThread_self]
    exact h.running

theorem Ticking.step (h : Ticking t u ops v) (hstep : ThreadStep v op w) (hkeeps : keepsOn op = true)
    (hle : interrupts (ops ++ [op]) ≤ (u.thread t).quantum) : Ticking t u (ops ++ [op]) w := by
  have hcur := h.slice.current
  rcases keepsOn_cases (hcur.symm ▸ h.nonnull) hstep hkeeps with
    ⟨hop, hquiet⟩ | ⟨hop, fuel, currentESP, esp, hrun⟩
  · exact h.quiet hop hquiet
  · rw [interrupts_snoc, hop] at hle
    have hlt : interrupts ops < (u.thread t).quantum := hle
    rw [h.returns hlt] at hrun
    obtain ⟨-, rfl⟩ := Prod.mk.inj (Option.some.inj hrun)
    exact h.tick hlt hop

theorem run_ticking (hstart : Ticking t u [] u) (hrun : Run ThreadStep u ops v)
    (hkeeps : ∀ op ∈ ops, keepsOn op = true) (hle : interrupts ops ≤ (u.thread t).quantum) :
    Ticking t u ops v := by
  refine hrun.guarded_invariant (C := fun _ _ op _ => keepsOn op = true)
    (fun ops v => interrupts ops ≤ (u.thread t).quantum → Ticking t u ops v) (fun _ => hstart)
    (fun pre s op w _ ih hstep hkeep hle => ?_) (every_of_forall hkeeps) hle
  refine (ih ?_).step hstep hkeep hle
  rw [interrupts_snoc] at hle
  omega

/-- The dispatch that follows does not touch the time of any thread. -/
theorem switchedTo_time (currentESP c into : ℕ) (s : Sched) (t : ℕ) :
    ((switchedTo currentESP c into s).thread t).time = ((retired currentESP s).thread t).time :=
  setThread_field (·.time) ((retired currentESP s).setCurrent c into) into
    (f := fun t => { t with quantum := quantumAmount t, status := .running }) rfl t

theorem Ticking.ends (h : Ticking t u ops v) (heq : interrupts ops = (u.thread t).quantum) :
    EndsSlice t u ((u.thread t).quantum + 1) v := by
  obtain ⟨hcur, hquantum, htime, hothers⟩ := h.slice
  subst hcur
  have hzero : (v.thread v.pCurrentTask).quantum = 0 := by omega
  have hafter : ∀ {fuel currentESP esp w}, taskSwitch fuel currentESP v = some (esp, w) →
      w.allocated = v.allocated ∧ ∀ t, (w.thread t).time = ((retired currentESP v).thread t).time := by
    intro fuel currentESP esp w hrun
    rcases taskSwitch_cases hrun with ⟨hnull, -, -⟩ | ⟨-, hpos, -, -⟩ | ⟨-, -, c, into, -, -, -, -, rfl⟩
    · exact absurd hnull h.nonnull
    · omega
    · exact ⟨rfl, switchedTo_time currentESP c into v⟩
  refine ⟨fun fuel currentESP => ?_, fun fuel currentESP esp w hrun => ?_,
    fun fuel currentESP esp w hrun t' ht' hne => ?_⟩
  · rw [taskSwitch, if_neg h.nonnull, if_neg (by omega)]
    rfl
  · rw [(hafter hrun).2, retired, setThread_self, retire, h.running, if_neg (by decide), if_pos hzero]
    change wadd (v.thread v.pCurrentTask).time 1 = _
    rw [htime, wadd_wadd_one, heq]
  · obtain ⟨hallocated, hkept⟩ := hafter hrun
    rw [hkept, retired, setThread_other v _ hne]
    exact hothers t' (hallocated ▸ ht') hne

theorem fullSlice (h : Ticking t u [] u)
    (hquantum : ((u.thread t).quantum : ℤ) = intPerSlice - (u.thread t).priority)
    (hrange : 1 ≤ (u.thread t).quantum ∧ (u.thread t).quantum ≤ 127) : FullSlice t u :=
  ⟨hquantum, hrange, fun _ _ hrun hkeeps hle => (run_ticking h hrun hkeeps hle).slice,
    fun ops v hrun hkeeps hlt fuel currentESP => by
      have hticking := run_ticking h hrun hkeeps hlt.le
      exact ⟨_, hticking.returns hlt fuel currentESP, hticking.slice.current⟩,
    fun _ _ hrun hkeeps heq => (run_ticking h hrun hkeeps heq.le).ends heq⟩

theorem taskSwitch_quantum {fuel currentESP esp out currentESP' into esp' : ℕ} {cause cause' : Cause}
    (h : Placed s) (hwithin : Within s) (hrun : taskSwitch fuel currentESP s = some (esp, u))
    (hevent : switchEvent cause s currentESP esp u = .switched cause' out currentESP' into esp') :
    ((u.thread into).quantum : ℤ) = intPerSlice - (u.thread into).priority := by
  obtain ⟨c, hinto, hnull, rfl⟩ := taskSwitch_switched hrun hevent
  have hretired : Within (retired currentESP s) :=
    hwithin.setThread s.pCurrentTask fun _ hk => retire_bounded currentESP hk
  have hself : (switchedTo currentESP c into s).thread into =
      { (retired currentESP s).thread into with
        quantum := quantumAmount ((retired currentESP s).thread into), status := .running } :=
    Function.update_self _ _ _
  rw [hself]
  exact quantumAmount_eq (hretired into (hinto ▸ h.tabled c (hinto ▸ hnull)))

theorem dispatch_quantum {cause : Cause} {out currentESP into esp : ℕ} (h : Placed s) (hwithin : Within s)
    (hstep : ThreadStep s (.event (.switched cause out currentESP into esp)) u) :
    ((u.thread into).quantum : ℤ) = intPerSlice - (u.thread into).priority := by
  cases hstep with
  | event he hstep =>
    generalize hevent : Event.switched cause out currentESP into esp = e at hstep
    cases hstep with
    | interrupt _ hrun => exact taskSwitch_quantum h hwithin hrun hevent.symm
    | softInterrupt hcur _ hrun => exact taskSwitch_quantum (h.setRunning hcur) hwithin hrun hevent.symm
    | _ => cases hevent

end Slice

/-- In every reachable state priorities are in bounds, and every dispatch starts a full slice. -/
theorem timeslices (thread : ℕ → KernelThread) (links : Links Node) {before : List Op} {s : Sched}
    (hrun : Run ThreadStep (clearThreads thread links) before s) :
    (∀ t ∈ s.allocated, -intPerSlice < (s.thread t).priority ∧ (s.thread t).priority < intPerSlice) ∧
    ∀ cause out currentESP t esp u, ThreadStep s (.event (.switched cause out currentESP t esp)) u →
      FullSlice t u := by
  have hplaced := run_placed hrun
  have hwithin := run_within hrun
  refine ⟨fun t ht => ⟨(hwithin t ht).low, (hwithin t ht).high⟩, fun cause out currentESP t esp u hstep => ?_⟩
  have hquantum := dispatch_quantum hplaced hwithin hstep
  obtain ⟨rfl, hcur, -, hrunning, -⟩ := dispatch_into hstep
  have hafter := hwithin.step hstep
  have hplaced' := hplaced.step hstep
  obtain ⟨hlow, hhigh, hle, -⟩ := hafter _ (hplaced'.current hcur).1
  refine fullSlice (ticking_start hplaced' hafter hcur hrunning) hquantum ⟨?_, hle⟩
  omega

/-- Two ticks of the second thread, with calls of `nice` and `p_nice` between them. -/
def nices : List Op :=
  [.event (.returned .timer 0x8100 0x8100), .event (.nice 5), .event (.pNice 0x2000 (-7)),
    .event (.returned .timer 0x8104 0x8104)]

def niced : Sched :=
  (pNice 0x2000 (-7) (nice 5 (secondRuns.setThread 0x2000 countTick))).setThread 0x2000 countTick

theorem nices_run : Run ThreadStep secondRuns nices niced := by
  refine .next (.event nofun (@SchedStep.interrupt secondRuns _ 0 0x8100 0x8100
    ⟨by decide, by decide, by decide⟩ rfl)) ?_
  refine .next (.event nofun (.nice 5 (by decide))) (.next (.event nofun (.pNice 0x2000 (-7) (by decide))) ?_)
  exact .single (.event nofun (@SchedStep.interrupt _ niced 0 0x8104 0x8104
    ⟨by decide, by decide, by decide⟩ rfl))

/-- The new priorities do not change the slice that is under way. -/
theorem timeslices_two : (∀ t ∈ twoThreads.allocated, -intPerSlice < (twoThreads.thread t).priority ∧
      (twoThreads.thread t).priority < intPerSlice) ∧
    InSlice 0x2000 secondRuns nices niced ∧ ReturnsTo 0x2000 niced := by
  obtain ⟨hbounds, hslice⟩ := timeslices (fun _ => noThread) ⟨fun _ => none, fun _ => none⟩ twoThreads_run
  have hfull := hslice _ _ _ _ _ _ secondRuns_step
  exact ⟨hbounds, hfull.during nices niced nices_run (by decide) (by decide),
    hfull.returns nices niced nices_run (by decide) (by decide)⟩

end Ktux.Timeslice
