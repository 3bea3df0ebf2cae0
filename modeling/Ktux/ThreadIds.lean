import Ktux.ThreadCreation

set_option autoImplicit false

/-!
# Thread ids

Ids count up and are the indices of `pThreads`. They are, as long as the table has room and each new
thread gets its stack, in every run of creations and kills with timer interrupts between them.
-/
namespace Ktux.ThreadIds
open Runs CircularList Scheduler ContextSwitch ThreadTable ThreadCreation

/-- `kill` without an interrupt before the one of its `yield`. -/
def killCall (fuel currentESP : ℕ) (s : Sched) : Option (ℕ × Sched) :=
  let dead := killClear (killUnlink ((killStatus s).setPhase s.pCurrentTask .masked))
  let leaving := endQuantum .leaving (dead.setPhase s.pCurrentTask .unmasked)
  taskSwitch fuel currentESP (leaving.setPhase s.pCurrentTask .running)

inductive Call where
  | create (thread stackBase eip : ℕ)
  | kill
  | event (e : Event)

/-- Whole calls, and the steps of the scheduler between them. -/
inductive CallStep : Sched → Call → Sched → Prop where
  | create {s : Sched} (thread stackBase eip : ℕ) (hphase : s.phase s.pCurrentTask = .running)
      (hfresh : thread ∉ s.allocated) :
      CallStep s (.create thread stackBase eip) (createCall thread stackBase eip s).2
  | kill {s u : Sched} {fuel currentESP esp : ℕ} (hcur : s.pCurrentTask ≠ 0)
      (hphase : s.phase s.pCurrentTask = .running) (hrun : killCall fuel currentESP s = some (esp, u)) :
      CallStep s .kill u
  | event {s u : Sched} {e : Event} (hbetween : Scheduled (s.phase s.pCurrentTask))
      (hcreate : ∀ t stackBase esp0, e ≠ .created t stackBase esp0) (hkill : u.phase s.pCurrentTask ≠ .zombied)
      (hstep : SchedStep s e u) : CallStep s (.event e) u

def InTable (s : Sched) (t : ℕ) : Prop := t ≠ 0 ∧ ∃ i < maxThreads, s.pThreads i = t

structure Identified (s : Sched) : Prop where
  distinct : ∀ t t', InTable s t → InTable s t' → (s.thread t).id = (s.thread t').id → t = t'
  entry : ∀ t, InTable s t → (s.thread t).id < maxThreads ∧ s.pThreads (s.thread t).id = t

/-- The index that a call writes in `pThreads`. -/
def Writes (s : Sched) (i : ℕ) : Call → Prop
  | .create thread _ _ => thread ≠ 0 ∧ i = s.numThreads
  | .kill => i = s.currentTask
  | .event _ => False

/-- The table has no slot left, or one of the two allocations failed. -/
def CannotSucceed (s : Sched) (thread stackBase : ℕ) : Prop :=
  maxThreads ≤ s.numThreads ∨ thread = 0 ∨ stackBase = 0

structure Sound (_ : List Call) (s : Sched) (call : Call) (u : Sched) : Prop where
  writes : ∀ i, Writes s i call → i < maxThreads
  fails : ∀ thread stackBase eip, call = .create thread stackBase eip → CannotSucceed s thread stackBase →
    (createCall thread stackBase eip s).1 = error ∧ u.numThreads = s.numThreads ∧ u.pThreads = s.pThreads ∧
      u.lThreads = s.lThreads
  identified : Identified u

/-- Once the thread has its memory, there is a slot and a stack for it. -/
def Provided (_ : List Call) (s : Sched) (call : Call) (_ : Sched) : Prop :=
  ∀ thread stackBase eip, call = .create thread stackBase eip → thread ≠ 0 → ¬ CannotSucceed s thread stackBase

section Invariant
variable {s u : Sched}

def Indexed (s : Sched) : Prop := ∀ i, s.pThreads i ≠ 0 → (s.thread (s.pThreads i)).id = i

theorem Indexed.identified (h : Indexed s) (hthreads : Threads s) : Identified s := by
  obtain ⟨xs, htables, -⟩ := hthreads
  refine ⟨?_, ?_⟩
  · rintro t t' ⟨hne, i, -, rfl⟩ ⟨hne', j, -, rfl⟩ hid
    rw [h i hne, h j hne'] at hid
    rw [hid]
  · rintro t ⟨hne, i, hi, rfl⟩
    rw [h i hne]
    exact ⟨hi, rfl⟩

theorem Indexed.frame (h : Indexed s) (htable : ∀ i, u.pThreads i ≠ 0 → u.pThreads i = s.pThreads i)
    (hid : ∀ i, s.pThreads i ≠ 0 → (u.thread (s.pThreads i)).id = (s.thread (s.pThreads i)).id) :
    Indexed u := by
  intro i hi
  have heq := htable i hi
  rw [heq] at hi ⊢
  rw [hid i hi, h i hi]

theorem Indexed.setThread (h : Indexed s) (t : ℕ) {f : KernelThread → KernelThread}
    (hf : ∀ k, (f k).id = k.id) :
    Indexed (s.setThread t f) :=
  h.frame (fun _ _ => rfl) fun i _ => setThread_field (·.id) s t (hf _) (s.pThreads i)

theorem Indexed.setPhase (h : Indexed s) (t : ℕ) (p : Phase) : Indexed (s.setPhase t p) :=
  h.frame (fun _ _ => rfl) fun _ _ => rfl

theorem Indexed.endQuantum (h : Indexed s) (p : Phase) : Indexed (endQuantum p s) :=
  (h.setThread s.pCurrentTask (f := fun t => { t with quantum := 0 }) fun _ => rfl).setPhase s.pCurrentTask p

theorem Indexed.killStatus (h : Indexed s) : Indexed (killStatus s) :=
  (h.setThread s.pCurrentTask (f := fun t => { t with status := .zombie }) fun _ => rfl).setPhase s.pCurrentTask
    .zombied

theorem Indexed.killClear (h : Indexed s) : Indexed (killClear s) := by
  refine h.frame (fun i hi => ?_) fun _ _ => rfl
  exact (killClear_entry hi).2

theorem retire_id (currentESP : ℕ) {t : KernelThread} (h : t.status ≠ .zombie) :
    (retire currentESP t).id = t.id := by
  unfold retire
  rw [if_neg h]
  split_ifs <;> rfl

/-- Only a dead thread loses its id, and no entry of the table is one. -/
theorem Indexed.switched (h : Indexed s)
    (hdead : (s.thread s.pCurrentTask).status = .zombie → ∀ i, s.pThreads i ≠ s.pCurrentTask)
    (currentESP c into : ℕ) : Indexed (switchedTo currentESP c into s) := by
  refine h.frame (fun _ _ => rfl) fun i _ => ?_
  have hinto := setThread_field (·.id) ((s.setThread s.pCurrentTask (retire currentESP)).setCurrent c into) into
    (f := fun t => { t with quantum := quantumAmount t, status := .running }) rfl (s.pThreads i)
  refine hinto.trans ?_
  change ((s.setThread s.pCurrentTask (retire currentESP)).thread (s.pThreads i)).id = _
  by_cases heq : s.pThreads i = s.pCurrentTask
  · rw [heq, setThread_self]
    exact retire_id currentESP fun hzombie => hdead hzombie i heq
  · rw [setThread_other s _ heq]

theorem Indexed.taskSwitch (h : Indexed s)
    (hdead : s.pCurrentTask ≠ 0 → (s.thread s.pCurrentTask).status = .zombie →
      ∀ i, s.pThreads i ≠ s.pCurrentTask)
    {fuel currentESP esp : ℕ} (hrun : taskSwitch fuel currentESP s = some (esp, u)) : Indexed u := by
  rcases taskSwitch_cases hrun with ⟨-, -, rfl⟩ | ⟨-, -, -, rfl⟩ | ⟨hne, -, c, into, -, -, -, -, rfl⟩
  · exact h
  · exact h.setThread s.pCurrentTask fun _ => rfl
  · exact h.switched (hdead hne) currentESP c into

theorem Indexed.pNice (h : Indexed s) (t : ℕ) (newPriority : ℤ) : Indexed (pNice t newPriority s) := by
  unfold Scheduler.pNice
  split_ifs
  · exact h.setThread t fun _ => rfl
  · exact h

theorem Indexed.start (h : Indexed s) : Indexed (startScheduler s) := by
  unfold startScheduler
  split_ifs
  · exact h
  · have hset : Indexed (s.setCurrent 0 (s.pThreads 0)) := h.frame (fun _ _ => rfl) fun _ _ => rfl
    exact hset.setThread (s.pThreads 0) fun _ => rfl

theorem Indexed.create (h : Indexed s) (htabled : ∀ i, s.pThreads i ≠ 0 → s.pThreads i ∈ s.allocated) {t : ℕ}
    (hfresh : t ∉ s.allocated) (stackBase eip : ℕ) : Indexed (createKernelThread t stackBase eip s) := by
  obtain ⟨hindex, hold, _⟩ := createKernelThread_created t stackBase eip s
  intro i hi
  by_cases hin : i = s.numThreads
  · rw [hin, hindex]
    exact congrArg KernelThread.id (Function.update_self t _ s.thread)
  · rw [hold i hin] at hi ⊢
    rw [createKernelThread_old s stackBase eip hfresh (htabled i hi)]
    exact h i hi

/-- The current thread `cur` has reached the point `p`. -/
structure Reached (cur : ℕ) (p : Phase) (s : Sched) : Prop where
  threads : Threads s
  indexed : Indexed s
  current : s.pCurrentTask = cur
  phase : s.phase s.pCurrentTask = p

section Kill
variable {cur : ℕ}

theorem Reached.killStatus (h : Reached cur .running s) (hcur : cur ≠ 0) :
    Reached cur .zombied (killStatus s) := by
  refine ⟨h.threads.zombied (h.current ▸ hcur) h.phase, h.indexed.killStatus, h.current, ?_⟩
  exact Function.update_self _ _ _

theorem Reached.killUnlink (h : Reached cur .zombied s) :
    Reached cur .unlinked (killUnlink (s.setPhase s.pCurrentTask .masked)) := by
  have hmasked : Threads (s.setPhase s.pCurrentTask .masked) := h.threads.setPhase h.phase (Or.inl ⟨rfl, rfl⟩)
  refine ⟨hmasked.unlinked (Function.update_self _ _ _), ?_, h.current, Function.update_self _ _ _⟩
  exact h.indexed.frame (fun _ _ => rfl) fun _ _ => rfl

theorem Reached.killClear (h : Reached cur .unlinked s) :
    Reached cur .unmasked ((killClear s).setPhase s.pCurrentTask .unmasked) := by
  refine ⟨(h.threads.cleared h.phase).setPhase (Function.update_self _ _ _) (Or.inr ⟨rfl, rfl⟩), ?_, h.current,
    Function.update_self _ _ _⟩
  exact h.indexed.killClear.setPhase _ _

theorem Reached.leave (h : Reached cur .unmasked s) (hcur : cur ≠ 0) :
    Reached cur .leaving (endQuantum .leaving s) := by
  refine ⟨h.threads.endQuantum (h.current ▸ hcur) h.phase (Or.inr ⟨rfl, rfl⟩), h.indexed.endQuantum .leaving,
    h.current, ?_⟩
  exact Function.update_self _ _ _

/-- The interrupt at the end of `kill` finds the thread out of the table. -/
theorem Reached.softInterrupt (h : Reached cur .leaving s) (hcur : cur ≠ 0) {fuel currentESP esp : ℕ}
    (hrun : taskSwitch fuel currentESP (s.setPhase s.pCurrentTask .running) = some (esp, u)) :
    Threads u ∧ Indexed u := by
  have hgone : ∀ i, s.pThreads i ≠ s.pCurrentTask := by
    obtain ⟨xs, -, -, -, hout, -⟩ := h.threads.atPhase h.phase (by decide)
    exact hout
  exact ⟨h.threads.softInterrupt (h.current ▸ hcur) (Or.inr h.phase) hrun,
    (h.indexed.setPhase _ _).taskSwitch (fun _ _ => hgone) hrun⟩

end Kill

/-- `kill` goes through its points in turn. -/
theorem killCall_settled (h : Threads s) (hindexed : Indexed s) (hcur : s.pCurrentTask ≠ 0)
    (hphase : s.phase s.pCurrentTask = .running) {fuel currentESP esp : ℕ}
    (hrun : killCall fuel currentESP s = some (esp, u)) : Threads u ∧ Indexed u := by
  have hrunning : Reached s.pCurrentTask .running s := ⟨h, hindexed, rfl, hphase⟩
  have hunmasked := (hrunning.killStatus hcur).killUnlink.killClear
  exact (hunmasked.leave hcur).softInterrupt hcur hrun

theorem event_settled {e : Event} (h : Threads s) (hindexed : Indexed s)
    (hbetween : Scheduled (s.phase s.pCurrentTask))
    (hcreate : ∀ t stackBase esp0, e ≠ .created t stackBase esp0) (hkill : u.phase s.pCurrentTask ≠ .zombied)
    (hstep : SchedStep s e u) :
    Threads u ∧ Indexed u := by
  have hout {p : Phase} (hphase : s.phase s.pCurrentTask = p) (hp : ¬ Scheduled p) : False :=
    hp (hphase ▸ hbetween)
  have htimely : Timely [] s e u := fun hphase => (hout hphase (by unfold Scheduled; decide)).elim
  have halive : s.pCurrentTask ≠ 0 → (s.thread s.pCurrentTask).status = .zombie →
      ∀ i, s.pThreads i ≠ s.pCurrentTask := by
    intro hne hzombie
    obtain ⟨xs, -, hcur⟩ := h
    have hat := hcur hne
    rcases hbetween with hp | hp <;> rw [hp] at hat <;> exact absurd hzombie hat.2.2.1
  refine ⟨h.step hstep htimely, ?_⟩
  cases hstep with
  | create t stackBase eip => exact absurd rfl (hcreate _ _ _)
  | createError => exact hindexed
  | start => exact hindexed.start
  | nice newPriority => exact hindexed.pNice s.pCurrentTask newPriority
  | pNice t newPriority => exact hindexed.pNice t newPriority
  | interrupt _ hrun => exact hindexed.taskSwitch halive hrun
  | softInterrupt hcur _ hrun =>
    exact (hindexed.setPhase s.pCurrentTask .running).taskSwitch halive hrun
  | yieldQuantum => exact hindexed.endQuantum .yielding
  | killStatus => exact absurd (Function.update_self _ _ _) hkill
  | killMask hphase => exact (hout hphase (by unfold Scheduled; decide)).elim
  | killUnlink hphase => exact (hout hphase (by unfold Scheduled; decide)).elim
  | killClear hphase => exact (hout hphase (by unfold Scheduled; decide)).elim
  | killUnmask hphase => exact (hout hphase (by unfold Scheduled; decide)).elim
  | killQuantum hphase => exact (hout hphase (by unfold Scheduled; decide)).elim

def Settled (s : Sched) : Prop := Threads s ∧ Indexed s

theorem Settled.step {calls : List Call} {call : Call} (h : Settled s) (hstep : CallStep s call u)
    (hprovided : Provided calls s call u) : Settled u := by
  cases hstep with
  | create thread stackBase eip hphase hfresh =>
    unfold createCall
    split_ifs with hnull
    · exact h
    · have hroom : s.numThreads < maxThreads := not_le.mp fun hfull => hprovided _ _ _ rfl hnull (Or.inl hfull)
      have htabled : ∀ i, s.pThreads i ≠ 0 → s.pThreads i ∈ s.allocated := by
        obtain ⟨⟨xs, htables, -⟩, -⟩ := h
        exact htables.tabled
      exact ⟨h.1.create stackBase eip hphase hnull hfresh hroom, h.2.create htabled hfresh stackBase eip⟩
  | kill hcur hphase hrun => exact killCall_settled h.1 h.2 hcur hphase hrun
  | event hbetween hcreate hkill hstep => exact event_settled h.1 h.2 hbetween hcreate hkill hstep

theorem Settled.sound {calls : List Call} {call : Call} (h : Settled s) (hstep : CallStep s call u)
    (hprovided : Provided calls s call u) : Sound calls s call u := by
  obtain ⟨hthreads, hindexed⟩ := h.step hstep hprovided
  refine ⟨fun i hi => ?_, fun thread stackBase eip hcall hcannot => ?_, hindexed.identified hthreads⟩
  · cases hstep with
    | create thread stackBase eip =>
      obtain ⟨hnull, rfl⟩ := hi
      exact not_le.mp fun hfull => hprovided _ _ _ rfl hnull (Or.inl hfull)
    | kill hcur hphase =>
      obtain ⟨⟨xs, htables, hcurrent⟩, -⟩ := h
      have hat := hcurrent hcur
      rw [hphase] at hat
      obtain rfl : i = s.currentTask := hi
      exact htables.index_lt (hat.2.1.symm ▸ hcur)
    | event => exact hi.elim
  · have hnull : thread = 0 := by
      by_contra hnull
      exact hprovided _ _ _ hcall hnull hcannot
    subst hcall
    cases hstep with
    | create =>
      have hfailed : createCall thread stackBase eip s = (error, s) := if_pos hnull
      rw [hfailed]
      exact ⟨rfl, rfl, rfl, rfl⟩

/-- A creation that should fail and does not has counted its thread. -/
theorem Sound.provided {calls : List Call} {call : Call} (h : Sound calls s call u)
    (hstep : CallStep s call u) :
    Provided calls s call u := by
  intro thread stackBase eip hcall hnull hcannot
  obtain ⟨-, hcount, -, -⟩ := h.fails thread stackBase eip hcall hcannot
  subst hcall
  cases hstep with
  | create =>
    have hcreated : createCall thread stackBase eip s =
        (s.numThreads, createKernelThread thread stackBase eip s) :=
      if_neg hnull
    rw [hcreated] at hcount
    exact absurd hcount (Nat.succ_ne_self s.numThreads)

end Invariant

/-- The table is sound after every call of exactly those runs in which each creation with memory for its
thread had a slot and a stack too. -/
theorem threadTable_sound_iff (thread : ℕ → KernelThread) (links : Links Node) (calls : List Call) :
    Every CallStep Sound (clearThreads thread links) calls ↔
      Every CallStep Provided (clearThreads thread links) calls := by
  constructor
  · exact fun h => h.imp fun _ _ _ _ _ hstep hsound => hsound.provided hstep
  · refine every_of_guarded_invariant (fun _ => Settled)
      ⟨threads_clear thread links, fun _ h => absurd rfl h⟩ ?_ ?_
    · exact fun _ _ _ _ _ hsettled hstep hprovided => hsettled.step hstep hprovided
    · exact fun _ _ _ _ hsettled hstep hprovided => hsettled.sound hstep hprovided

/-- The second thread gets its structure and no stack: it is created all the same. -/
theorem threadTable_fails : ¬ Every CallStep Sound bootState [.create 0x1000 0x6000 0, .create 0x2000 0 0] := by
  intro h
  have hfirst : CallStep bootState (.create 0x1000 0x6000 0) (createKernelThread 0x1000 0x6000 0 bootState) :=
    .create 0x1000 0x6000 0 rfl (by decide)
  have hsecond : CallStep (createKernelThread 0x1000 0x6000 0 bootState) (.create 0x2000 0 0) _ :=
    .create 0x2000 0 0 rfl (by decide)
  have hsound := h [.create 0x1000 0x6000 0] _ [] _ _ rfl (.single hfirst) hsecond
  obtain ⟨hresult, -⟩ := hsound.fails _ _ _ rfl (Or.inr (Or.inr rfl))
  exact absurd hresult (by decide)

end Ktux.ThreadIds
