import Ktux.Timeslice

set_option autoImplicit false

/-!
# No thread waits for ever

While no thread is created or killed, a thread that lives is dispatched before the interrupts reach 128 for
each entry of the table and 128 more, whatever the other threads do with their priorities and slices.
-/
namespace Ktux.BoundedWait
open Words Runs CircularList CyclicScan Scheduler ContextSwitch ThreadTable ThreadCreation SchedulerReturns
open RoundRobin Timeslice

/-- The interrupts of a slice of the lowest priority, with the one that ends it. -/
def longestSlice : ℕ := 128

/-- A bound of the interrupts until the scan comes to the entry `i`. -/
def waitBound (i : ℕ) (s : Sched) : ℕ :=
  longestSlice * ahead s.numThreads s.currentTask i + (s.thread s.pCurrentTask).quantum

def ticks (op : Op) : ℕ := if isInterrupt op then 1 else 0

/-- A step that dispatches nobody takes its interrupt from the slice of the current thread. -/
def Spends (s : Sched) (op : Op) (u : Sched) : Prop :=
  (u.thread u.pCurrentTask).quantum + ticks op ≤ (s.thread s.pCurrentTask).quantum

section Steps
variable {s u v w : Sched} {op : Op}

theorem taskSwitch_spends {fuel currentESP esp : ℕ} (hcur : s.pCurrentTask ≠ 0)
    (cause : Cause) (hrun : taskSwitch fuel currentESP s = some (esp, u))
    (hop : dispatchedBy (.event (switchEvent cause s currentESP esp u)) = none) :
    Spends s (.event (switchEvent cause s currentESP esp u)) u := by
  rcases taskSwitch_cases hrun with ⟨hzero, -, -⟩ | ⟨-, hpos, -, rfl⟩ | ⟨-, hzero, -⟩
  · exact absurd hzero hcur
  · have hself := setThread_self s s.pCurrentTask countTick
    rw [Spends, switchEvent, if_pos (Or.inr hpos)]
    change ((s.setThread s.pCurrentTask countTick).thread s.pCurrentTask).quantum + 1 ≤ _
    rw [hself]
    change (s.thread s.pCurrentTask).quantum - 1 + 1 ≤ _
    omega
  · rw [switchEvent, if_neg (not_or.mpr ⟨hcur, by omega⟩)] at hop
    cases hop

theorem pNice_spends (t : ℕ) (newPriority : ℤ) (hop : ticks op = 0) : Spends s op (pNice t newPriority s) := by
  unfold Spends Scheduler.pNice
  split_ifs
  · have hsame := setThread_field (·.quantum) s t (f := fun k => { k with priority := newPriority }) rfl
      s.pCurrentTask
    exact (congrArg₂ (· + ·) hsame hop).le
  · rw [hop]
    exact le_rfl

theorem calm_spends (h : Placed s) (hcur : s.pCurrentTask ≠ 0) (hliving : Living (s.thread s.pCurrentTask))
    (hstep : ThreadStep s op u) (hcalm : undisturbed op = true) (hop : dispatchedBy op = none) :
    Spends s op u := by
  have hscheduled := h.scheduled _ (h.current hcur).1 hliving
  have hnot : ∀ {p : Phase} {Q : Prop}, s.phase s.pCurrentTask = p → p ≠ .running → p ≠ .yielding → Q :=
    fun hp hr hy => absurd (hp ▸ hscheduled) (not_scheduled hr hy)
  cases hstep with
  | create thread stackBase eip =>
    rw [createCall, if_pos (of_decide_eq_true hcalm)]
    exact le_rfl
  | event he hstep =>
    cases hstep with
    | create t stackBase eip => exact absurd rfl (he _ _ _)
    | createError => exact le_rfl
    | start hzero => exact absurd hzero hcur
    | nice newPriority => exact pNice_spends s.pCurrentTask newPriority rfl
    | pNice t newPriority => exact pNice_spends t newPriority rfl
    | interrupt _ hrun => exact taskSwitch_spends hcur .timer hrun hop
    | @softInterrupt _ fuel currentESP esp _ _ hrun =>
      exact @taskSwitch_spends (s.setPhase s.pCurrentTask .running) u fuel currentESP esp hcur .int20 hrun hop
    | yieldQuantum =>
      have hself := setThread_self s s.pCurrentTask fun t => { t with quantum := 0 }
      change ((s.setThread s.pCurrentTask fun t => { t with quantum := 0 }).thread
        s.pCurrentTask).quantum + 0 ≤ _
      rw [hself]
      exact Nat.zero_le _
    | killStatus => cases hcalm
    | killMask hphase => exact hnot hphase (by decide) (by decide)
    | killUnlink hphase => exact hnot hphase (by decide) (by decide)
    | killClear hphase => exact hnot hphase (by decide) (by decide)
    | killUnmask hphase => exact hnot hphase (by decide) (by decide)
    | killQuantum hphase => exact hnot hphase (by decide) (by decide)

theorem interrupts_ticks (ops : List Op) (op : Op) : interrupts (ops ++ [op]) = interrupts ops + ticks op := by
  rw [interrupts, List.countP_append, List.countP_singleton]
  rfl

theorem Moves.waitBound_lt (h : Placed v) (hw : Within w) (hplaced : Placed w) {i : ℕ} (hcur : v.pCurrentTask ≠ 0)
    (hsame : SameSlots v w) (hmove : Moves v op w) (hi : i < v.numThreads) (hslot : Slot v i) :
    dispatchedBy op = some (v.pThreads i) ∨ waitBound i w + ticks op ≤ waitBound i v := by
  obtain ⟨hfirst, hop, hcurrent⟩ := hmove
  rcases hfirst.closer (h.index hcur) hi hslot with heq | hcloser
  · exact Or.inl (heq ▸ hop)
  · right
    obtain ⟨-, -, -, -, hfound, -⟩ := hfirst
    have hquantum := (hw _ (hplaced.current (hcurrent ▸ hfound.1)).1).quantum
    have htick : ticks op ≤ 1 := by
      unfold ticks
      split_ifs <;> omega
    rw [waitBound, waitBound, hsame.size]
    unfold longestSlice
    omega

/-- After `ops` from `u` the bound is smaller by the interrupts made, as long as the entry `i` has not had its
turn. -/
structure Waiting (i : ℕ) (u : Sched) (ops : List Op) (v : Sched) : Prop where
  lap : Lap u ops v
  within : Within v
  bound : u.pThreads i ∉ dispatched ops → waitBound i v + interrupts ops ≤ waitBound i u

theorem Waiting.step {i : ℕ} {ops : List Op} (h : Waiting i u ops v) (hbound : u.numThreads < wordSize)
    (hi : i < u.numThreads) (hslot : Slot u i) (hstep : ThreadStep v op w)
    (hcalm : undisturbed op = true) : Waiting i u (ops ++ [op]) w := by
  obtain ⟨hlap, hwithin, hwait⟩ := h
  have hcur := hlap.current.1
  have hnext := hlap.next hbound hstep hcalm
  have hafter := hwithin.step hstep
  refine ⟨hnext, hafter, fun hnot => ?_⟩
  rw [dispatched_snoc, List.mem_append, not_or] at hnot
  have hbefore := hwait hnot.1
  have hother : dispatchedBy op ≠ some (u.pThreads i) := by
    intro heq
    rw [heq] at hnot
    exact hnot.2 (List.mem_singleton_self _)
  obtain ⟨hsame, hstays | hmoves⟩ :=
    calm_step hlap.placed hcur hlap.current.2 (hlap.same.size ▸ hbound) hstep hcalm
  · have hspends := calm_spends hlap.placed hcur hlap.current.2 hstep hcalm hstays.1
    rw [interrupts_ticks]
    rw [Spends] at hspends
    rw [waitBound, hsame.size, hstays.2.1]
    rw [waitBound] at hbefore
    omega
  · rcases Moves.waitBound_lt hlap.placed hafter hnext.placed hcur hsame hmoves (hlap.same.size ▸ hi)
      ((hlap.same.slot_iff i).mpr hslot) with hop | hless
    · rw [hlap.same.table] at hop
      exact absurd hop hother
    · rw [interrupts_ticks]
      omega

theorem run_waiting {i : ℕ} {ops : List Op} (hplaced : Placed u) (hwithin : Within u) (hcur : u.pCurrentTask ≠ 0)
    (hliving : Living (u.thread u.pCurrentTask)) (hbound : u.numThreads < wordSize) (hi : i < u.numThreads)
    (hslot : Slot u i) (hrun : Run ThreadStep u ops v) (hcalm : ∀ op ∈ ops, undisturbed op = true) :
    Waiting i u ops v :=
  hrun.guarded_invariant (fun ops v => Waiting i u ops v)
    ⟨lap_start hplaced hcur hliving, hwithin, fun _ => le_rfl⟩
    (fun _ _ _ _ _ h hs hc => h.step hbound hi hslot hs hc) (every_of_forall hcalm)

theorem interrupt_undisturbed (hop : ticks op = 1) : undisturbed op = true := by
  cases op with
  | create => cases hop
  | event e =>
    cases e with
    | killStatus => cases hop
    | _ => rfl

/-- With a living current thread the next interrupt comes, returns, and leaves one. -/
theorem interrupt_possible (h : Placed s) (hcur : s.pCurrentTask ≠ 0) (hliving : Living (s.thread s.pCurrentTask))
    (hentry : s.pThreads s.currentTask = s.pCurrentTask) (hbound : s.numThreads < wordSize) :
    ∃ op u, ThreadStep s op u ∧ ticks op = 1 ∧ Placed u ∧ u.pCurrentTask ≠ 0 ∧
      Living (u.thread u.pCurrentTask) ∧ u.pThreads u.currentTask = u.pCurrentTask ∧
      u.numThreads = s.numThreads := by
  have hscheduled := h.scheduled _ (h.current hcur).1 hliving
  have henabled : interruptsEnabled s := by
    rcases hscheduled with hp | hp <;> rw [interruptsEnabled, hp] <;> decide
  have hreturns : ∃ esp u, taskSwitch (s.numThreads + 1) 0 s = some (esp, u) := by
    by_cases hquantum : (s.thread s.pCurrentTask).quantum = 0
    · have hindex := h.index hcur
      have hself : Candidate (retired 0 s) s.currentTask := by
        rw [candidate_iff h hcur hquantum]
        exact ⟨hentry.symm ▸ hcur, hentry.symm ▸ hliving⟩
      obtain ⟨c, -, hall⟩ := taskSwitch_first hcur hquantum hindex hbound 0 ⟨_, hindex, hself⟩
      exact ⟨_, _, hall _ (Nat.lt_succ_self _)⟩
    · rw [taskSwitch, if_neg hcur, if_pos (Nat.pos_of_ne_zero hquantum)]
      exact ⟨_, _, rfl⟩
  obtain ⟨esp, u, hrun⟩ := hreturns
  have hstep : ThreadStep s (.event (switchEvent .timer s 0 esp u)) u := by
    refine .event (fun t stackBase esp0 heq => ?_) (.interrupt henabled hrun)
    unfold switchEvent at heq
    split_ifs at heq
  have htick : ticks (.event (switchEvent .timer s 0 esp u)) = 1 := by
    refine if_pos ?_
    unfold switchEvent
    split_ifs <;> rfl
  obtain ⟨hsame, hmove⟩ := calm_step h hcur hliving hbound hstep (interrupt_undisturbed htick)
  have hcurrent : u.pCurrentTask ≠ 0 ∧ Living (u.thread u.pCurrentTask) ∧
      u.pThreads u.currentTask = u.pCurrentTask := by
    rw [hsame.living, hsame.table]
    rcases hmove with ⟨-, hindex, heq⟩ | ⟨⟨-, -, -, -, hslot, -⟩, -, heq⟩
    · rw [heq, hindex]
      exact ⟨hcur, hliving, hentry⟩
    · rw [heq]
      exact ⟨hslot.1, hslot.2, rfl⟩
  exact ⟨_, u, hstep, htick, h.step hstep, hcurrent.1, hcurrent.2.1, hcurrent.2.2, hsame.size⟩

/-- Any number of interrupts is possible. -/
theorem interrupts_possible (h : Placed s) (hcur : s.pCurrentTask ≠ 0) (hliving : Living (s.thread s.pCurrentTask))
    (hentry : s.pThreads s.currentTask = s.pCurrentTask) (hbound : s.numThreads < wordSize) (k : ℕ) :
    ∃ ops v, Run ThreadStep s ops v ∧ (∀ op ∈ ops, undisturbed op = true) ∧ interrupts ops = k := by
  induction k generalizing s with
  | zero => exact ⟨[], s, .refl s, fun _ hop => absurd hop List.not_mem_nil, rfl⟩
  | succ k ih =>
    obtain ⟨op, u, hstep, htick, hplaced, hcur', hliving', hentry', hsize⟩ :=
      interrupt_possible h hcur hliving hentry hbound
    obtain ⟨ops, v, hrun, hcalm, hcount⟩ := ih hplaced hcur' hliving' hentry' (hsize ▸ hbound)
    refine ⟨op :: ops, v, .next hstep hrun, List.forall_mem_cons.mpr ⟨interrupt_undisturbed htick, hcalm⟩, ?_⟩
    rw [ticks] at htick
    rw [interrupts, List.countP_cons, htick]
    exact congrArg (· + 1) hcount

end Steps

/-- In every reachable state, of every run without creations and kills that makes 128 interrupts for each entry
of the table and 128 more: each thread that lives has had its turn. -/
theorem everyThread_served (thread : ℕ → KernelThread) (links : Links Node) {before : List Op} {s : Sched}
    (hbefore : Run ThreadStep (clearThreads thread links) before s) (hbound : s.numThreads < wordSize)
    (hcur : s.pCurrentTask ≠ 0) (hliving : Living (s.thread s.pCurrentTask)) {ops : List Op} {v : Sched}
    (hrun : Run ThreadStep s ops v) (hcalm : ∀ op ∈ ops, undisturbed op = true)
    (henough : longestSlice * (s.numThreads + 1) ≤ interrupts ops) :
    ∀ t ∈ s.allocated, Living (s.thread t) → t ∈ dispatched ops := by
  have hplaced := run_placed hbefore
  have hwithin := run_within hbefore
  intro t ht hl
  obtain ⟨i, hi⟩ := hplaced.listed t ht hl
  have hne : s.pThreads i ≠ 0 := fun hzero => hplaced.nonnull ((hi.symm.trans hzero) ▸ ht)
  have hlt : i < s.numThreads := not_le.mp fun hle => hne (hplaced.unused i hle)
  have hwait := run_waiting hplaced hwithin hcur hliving hbound hlt ⟨hne, hi.symm ▸ hl⟩ hrun hcalm
  by_contra hnot
  have hle := hwait.bound (hi.symm ▸ hnot)
  have hquantum := (hwithin _ (hplaced.current hcur).1).quantum
  obtain ⟨-, hahead, -⟩ := ahead_spec (hplaced.index hcur) hlt
  rw [waitBound, waitBound, longestSlice] at hle
  rw [longestSlice] at henough
  omega

/-- Both threads change priorities and yield, then only the timer comes. -/
theorem everyThread_served_two : ∃ ops v, Run ThreadStep secondRuns (yields ++ ops) v ∧
    interrupts (yields ++ ops) = 384 ∧
    0x1000 ∈ dispatched (yields ++ ops) ∧ 0x2000 ∈ dispatched (yields ++ ops) := by
  have hbefore := twoThreads_run.snoc secondRuns_step
  have hagain := yields_run.snoc firstYields_step
  obtain ⟨ops, v, hrun, hcalm, hcount⟩ := interrupts_possible (run_placed (hbefore.append hagain)) (by decide)
    (show secondAgain.thread 0x2000 |> Living by unfold Living; decide) rfl (by decide) 382
  have hliving : ∀ t ∈ [0x2000, 0x1000], Living (secondRuns.thread t) := by
    unfold Living
    decide
  have hall := hagain.append hrun
  rw [List.append_assoc] at hall
  have hinterrupts : interrupts (yields ++ ([.event (.switched .int20 0x1000 0x6100 0x2000 0x8100)] ++ ops)) =
      384 := by
    rw [interrupts, List.countP_append, List.countP_append]
    exact congrArg (fun n => 1 + (1 + n)) hcount
  have hundisturbed : ∀ op ∈ yields ++ ([.event (.switched .int20 0x1000 0x6100 0x2000 0x8100)] ++ ops),
      undisturbed op = true := by
    rw [List.forall_mem_append, List.forall_mem_append]
    exact ⟨by decide, by decide, hcalm⟩
  have hserved := everyThread_served (fun _ => noThread) ⟨fun _ => none, fun _ => none⟩ hbefore (by decide)
    (by decide) (hliving 0x2000 (by decide)) hall hundisturbed hinterrupts.ge
  exact ⟨_, v, hall, hinterrupts, hserved 0x1000 (by decide) (hliving _ (by decide)),
    hserved 0x2000 (by decide) (hliving _ (by decide))⟩

end Ktux.BoundedWait
