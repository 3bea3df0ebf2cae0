import Ktux.ThreadTable

set_option autoImplicit false

/-!
# Thread creation with its failures

`create_kernel_thread` with what its two `kmalloc` calls return, `0` for a failure. Only the first is
checked, and the table of threads is not: an index past it is an entry of `pThreads` behind the array.
-/
namespace Ktux.ThreadCreation
open Words Loops Runs CircularList Scheduler ContextSwitch ThreadTable

@[simp] def error : ℕ := 0

/-- The result of `create_kernel_thread` and the state after it. -/
def createCall (thread stackBase eip : ℕ) (s : Sched) : ℕ × Sched :=
  if thread = 0 then (error, s) else (s.numThreads, createKernelThread thread stackBase eip s)

inductive Op where
  | create (thread stackBase eip : ℕ)
  | event (e : Event)

/-- The steps of the scheduler, where a thread may be created at any time. -/
inductive ThreadStep : Sched → Op → Sched → Prop where
  | create {s : Sched} (thread stackBase eip : ℕ) (hphase : s.phase s.pCurrentTask = .running)
      (hfresh : thread ∉ s.allocated) :
      ThreadStep s (.create thread stackBase eip) (createCall thread stackBase eip s).2
  | event {s u : Sched} {e : Event} (he : ∀ t stackBase esp0, e ≠ .created t stackBase esp0)
      (hstep : SchedStep s e u) :
      ThreadStep s (.event e) u

theorem threadStep_functional : Functional ThreadStep := by
  intro s op u v h h'
  cases h with
  | create thread stackBase eip =>
    cases h'
    rfl
  | event _ hstep =>
    cases h' with
    | event _ hstep' => exact schedStep_functional _ _ _ _ hstep hstep'

end Ktux.ThreadCreation
