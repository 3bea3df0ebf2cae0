import Ktux.CircularList
import Ktux.Loops
import Ktux.Runs
import Ktux.Words

set_option autoImplicit false

/-!
# The thread scheduler

The state of `process.c`, `__task_switch` and the calls that change threads. `kill` and `yield` are split
at the points where a timer interrupt can arrive; `Phase` is the point that each thread has reached.
-/
namespace Ktux.Scheduler
open Words Loops Runs CircularList

@[simp] def maxThreads : ℕ := 1024
@[simp] def intPerSlice : ℤ := 64
@[simp] def stackSize : ℕ := 0x200
@[simp] def kernelCodeSelector : ℕ := 0x18
@[simp] def kernelDataSelector : ℕ := 0x20

inductive Status where
  | init | ready | running | wait | sleep | stop | zombie | free
  deriving DecidableEq

structure KernelThread where
  id : ℕ
  priority : ℤ
  status : Status
  esp0 : ℕ
  esp0base : ℕ
  time : ℕ
  quantum : ℕ

/-- The list head `lThreads` and the `list` member of the thread at an address. -/
inductive Node where
  | lThreads
  | thread (t : ℕ)
  deriving DecidableEq

/-- Where a thread's own code stands: in ordinary code, in `yield` before its interrupt, or after the
steps of `kill` in turn. -/
inductive Phase where
  | running | yielding | zombied | masked | unlinked | cleared | unmasked | leaving
  deriving DecidableEq

/-- Threads are named by their address, `0` is `NULL`. `allocated` lists the thread blocks that `kmalloc`
has returned; none is ever given back. -/
structure Sched where
  thread : ℕ → KernelThread
  allocated : List ℕ
  pThreads : ℕ → ℕ
  numThreads : ℕ
  currentTask : ℕ
  pCurrentTask : ℕ
  lThreads : Links Node
  phase : ℕ → Phase

def Sched.setThread (s : Sched) (t : ℕ) (f : KernelThread → KernelThread) : Sched :=
  { s with thread := Function.update s.thread t (f (s.thread t)) }

def Sched.setPhase (s : Sched) (t : ℕ) (p : Phase) : Sched :=
  { s with phase := Function.update s.phase t p }

def Sched.setCurrent (s : Sched) (index t : ℕ) : Sched :=
  { s with currentTask := index, pCurrentTask := t }

/-- The state of `init_multitasking` before its first thread. -/
def clearThreads (thread : ℕ → KernelThread) (links : Links Node) : Sched where
  thread := thread
  allocated := []
  pThreads := fun _ => 0
  numThreads := 0
  currentTask := 0
  pCurrentTask := 0
  lThreads := listHeadInit .lThreads links
  phase := fun _ => .running

/-- The words that `create_kernel_thread` pushes: EFLAGS, CS, EIP, eight registers, four segments. -/
def initialFrame (eip : ℕ) : List ℕ :=
  [0x0202, kernelCodeSelector, eip, 0, 0, 0, 0, 0, 0, 0, 0, kernelDataSelector, kernelDataSelector,
    kernelDataSelector, kernelDataSelector]

def initialESP (stackBase eip : ℕ) : ℕ :=
  wsub (wadd stackBase stackSize) (4 * (initialFrame eip).length)

/-- `thread` and `stackBase` are what the two `kmalloc` calls return. -/
def createKernelThread (thread stackBase eip : ℕ) (s : Sched) : Sched :=
  let id := s.numThreads
  { s with
    thread := Function.update s.thread thread
      { id := id
        priority := 0
        status := .ready
        esp0 := initialESP stackBase eip
        esp0base := stackBase
        time := 0
        quantum := 0 }
    allocated := thread :: s.allocated
    numThreads := s.numThreads + 1
    lThreads := listAdd (.thread thread) .lThreads s.lThreads
    pThreads := Function.update s.pThreads id thread
    phase := Function.update s.phase thread .running }

def startScheduler (s : Sched) : Sched :=
  if s.numThreads = maxThreads then s
  else
    (s.setCurrent 0 (s.pThreads 0)).setThread (s.pThreads 0) fun t => { t with time := 0, quantum := 0 }

def quantumAmount (t : KernelThread) : ℕ := ((intPerSlice - t.priority) % (wordSize : ℤ)).toNat

/-- The thread whose time is up: dead threads are freed, others wait. -/
def retire (currentESP : ℕ) (t : KernelThread) : KernelThread :=
  if t.status = .zombie then { t with id := 0, esp0 := t.esp0base, status := .free }
  else if t.quantum = 0 then { t with time := wadd t.time 1, esp0 := currentESP, status := .wait }
  else t

def nextTask (s : Sched) : ℕ :=
  if wadd s.currentTask 1 = s.numThreads then 0 else wadd s.currentTask 1

def scanPass (s : Sched) : Sched :=
  s.setCurrent (nextTask s)
    (if s.pThreads (nextTask s) ≠ 0 then s.pThreads (nextTask s) else s.pCurrentTask)

def runnable (t : KernelThread) : Bool := t.status = .ready || t.status = .wait

def scanEnds (s : Sched) : Bool :=
  s.pThreads s.currentTask ≠ 0 && runnable (s.thread s.pCurrentTask)

def scan (fuel : ℕ) (s : Sched) : Option Sched :=
  doLoop (fun s => some (scanPass s)) (fun s => !scanEnds s) fuel s

def dispatch (s : Sched) : ℕ × Sched :=
  let u := s.setThread s.pCurrentTask fun t => { t with quantum := quantumAmount t, status := .running }
  ((u.thread u.pCurrentTask).esp0, u)

def countTick (t : KernelThread) : KernelThread :=
  { t with time := wadd t.time 1, quantum := t.quantum - 1 }

/-- The stack pointer that the interrupt returns with. The scan has no bound in the source. -/
def taskSwitch (fuel currentESP : ℕ) (s : Sched) : Option (ℕ × Sched) :=
  if s.pCurrentTask = 0 then some (currentESP, s)
  else if 0 < (s.thread s.pCurrentTask).quantum then
    some (currentESP, s.setThread s.pCurrentTask countTick)
  else (scan fuel (s.setThread s.pCurrentTask (retire currentESP))).map dispatch

/-- The bounds check that `nice` and `p_nice` share. -/
def pNice (t : ℕ) (newPriority : ℤ) (s : Sched) : Sched :=
  if -1 * intPerSlice < newPriority ∧ newPriority < intPerSlice then
    s.setThread t fun k => { k with priority := newPriority }
  else s

def nice (newPriority : ℤ) (s : Sched) : Sched := pNice s.pCurrentTask newPriority s

def endQuantum (p : Phase) (s : Sched) : Sched :=
  (s.setThread s.pCurrentTask fun t => { t with quantum := 0 }).setPhase s.pCurrentTask p

def killStatus (s : Sched) : Sched :=
  (s.setThread s.pCurrentTask fun t => { t with status := .zombie }).setPhase s.pCurrentTask .zombied

def killUnlink (s : Sched) : Sched :=
  { s with lThreads := listDel (.thread s.pCurrentTask) s.lThreads }.setPhase s.pCurrentTask .unlinked

def killClear (s : Sched) : Sched :=
  { s with pThreads := Function.update s.pThreads s.currentTask 0 }.setPhase s.pCurrentTask .cleared

/-- Interrupts are off between `cli` and `sti` of `kill`. -/
def interruptsEnabled (s : Sched) : Prop :=
  s.phase s.pCurrentTask ≠ .masked ∧ s.phase s.pCurrentTask ≠ .unlinked ∧
    s.phase s.pCurrentTask ≠ .cleared

/-- What enters `x86InterruptHandler20`. -/
inductive Cause where
  | timer | int20
  deriving DecidableEq

/-- The kinds of steps, with all that a step takes from outside and what it shows of `__task_switch` and
`create_kernel_thread`. -/
inductive Event where
  | created (t stackBase esp0 : ℕ)
  | createError
  | started
  | nice (newPriority : ℤ)
  | pNice (t : ℕ) (newPriority : ℤ)
  | returned (cause : Cause) (currentESP esp : ℕ)
  | switched (cause : Cause) (out currentESP into esp : ℕ)
  | yieldQuantum | killStatus | killMask | killUnlink | killClear | killUnmask | killQuantum
  deriving DecidableEq

/-- A step with neither a new thread nor an interrupt. -/
def Event.silent : Event → Bool
  | .created _ _ _ => false
  | .returned _ _ _ => false
  | .switched _ _ _ _ _ => false
  | _ => true

def switchEvent (cause : Cause) (s : Sched) (currentESP esp : ℕ) (u : Sched) : Event :=
  if s.pCurrentTask = 0 ∨ 0 < (s.thread s.pCurrentTask).quantum then .returned cause currentESP esp
  else .switched cause s.pCurrentTask currentESP u.pCurrentTask esp

/-- One step of the kernel: the boot code or the current thread, or a timer interrupt. -/
inductive SchedStep : Sched → Event → Sched → Prop where
  | create {s : Sched} (t stackBase eip : ℕ) (hphase : s.phase s.pCurrentTask = .running)
      (hnull : t ≠ 0) (hfresh : t ∉ s.allocated) (hroom : s.numThreads < maxThreads) :
      SchedStep s (.created t stackBase (initialESP stackBase eip)) (createKernelThread t stackBase eip s)
  | createError {s : Sched} (hphase : s.phase s.pCurrentTask = .running) : SchedStep s .createError s
  | start {s : Sched} (hcur : s.pCurrentTask = 0) (hthreads : 0 < s.numThreads) :
      SchedStep s .started (startScheduler s)
  | nice {s : Sched} (newPriority : ℤ) (hcur : s.pCurrentTask ≠ 0) :
      SchedStep s (.nice newPriority) (nice newPriority s)
  | pNice {s : Sched} (t : ℕ) (newPriority : ℤ) (ht : t ∈ s.allocated) :
      SchedStep s (.pNice t newPriority) (pNice t newPriority s)
  | interrupt {s u : Sched} {fuel currentESP esp : ℕ} (henabled : interruptsEnabled s)
      (hrun : taskSwitch fuel currentESP s = some (esp, u)) :
      SchedStep s (switchEvent .timer s currentESP esp u) u
  | softInterrupt {s u : Sched} {fuel currentESP esp : ℕ} (hcur : s.pCurrentTask ≠ 0)
      (hphase : s.phase s.pCurrentTask = .yielding ∨ s.phase s.pCurrentTask = .leaving)
      (hrun : taskSwitch fuel currentESP (s.setPhase s.pCurrentTask .running) = some (esp, u)) :
      SchedStep s (switchEvent .int20 s currentESP esp u) u
  | yieldQuantum {s : Sched} (hcur : s.pCurrentTask ≠ 0)
      (hphase : s.phase s.pCurrentTask = .running) : SchedStep s .yieldQuantum (endQuantum .yielding s)
  | killStatus {s : Sched} (hcur : s.pCurrentTask ≠ 0)
      (hphase : s.phase s.pCurrentTask = .running) : SchedStep s .killStatus (killStatus s)
  | killMask {s : Sched} (hphase : s.phase s.pCurrentTask = .zombied) :
      SchedStep s .killMask (s.setPhase s.pCurrentTask .masked)
  | killUnlink {s : Sched} (hphase : s.phase s.pCurrentTask = .masked) :
      SchedStep s .killUnlink (killUnlink s)
  | killClear {s : Sched} (hphase : s.phase s.pCurrentTask = .unlinked) :
      SchedStep s .killClear (killClear s)
  | killUnmask {s : Sched} (hphase : s.phase s.pCurrentTask = .cleared) :
      SchedStep s .killUnmask (s.setPhase s.pCurrentTask .unmasked)
  | killQuantum {s : Sched} (hphase : s.phase s.pCurrentTask = .unmasked) :
      SchedStep s .killQuantum (endQuantum .leaving s)

section Lemmas
variable {s u : Sched} {t : ℕ}

@[simp] theorem setThread_self (s : Sched) (t : ℕ) (f : KernelThread → KernelThread) :
    (s.setThread t f).thread t = f (s.thread t) := Function.update_self _ _ _

theorem setThread_other {t t' : ℕ} (s : Sched) (f : KernelThread → KernelThread) (h : t' ≠ t) :
    (s.setThread t f).thread t' = s.thread t' := Function.update_of_ne h _ _

/-- A field that `f` keeps in the thread it changes is kept in every thread. -/
theorem setThread_field {β : Type*} (g : KernelThread → β) (s : Sched) (t : ℕ)
    {f : KernelThread → KernelThread} (hf : g (f (s.thread t)) = g (s.thread t)) (t' : ℕ) :
    g ((s.setThread t f).thread t') = g (s.thread t') := by
  by_cases heq : t' = t
  · rw [heq, setThread_self, hf]
  · rw [setThread_other s f heq]

theorem dispatch_esp (s : Sched) : (dispatch s).1 = (s.thread s.pCurrentTask).esp0 := by
  change (Function.update s.thread s.pCurrentTask _ s.pCurrentTask).esp0 = _
  rw [Function.update_self]

theorem scan_cases {fuel : ℕ} (h : scan fuel s = some u) :
    ∃ c, s.pThreads c ≠ 0 ∧ runnable (s.thread (s.pThreads c)) = true ∧
      u = s.setCurrent c (s.pThreads c) := by
  have hscan : whileLoop (fun s => !scanEnds s) (fun s => some (scanPass s)) fuel (scanPass s) = some u := h
  obtain ⟨⟨c, p, rfl, hp⟩, hends⟩ := whileLoop_invariant
    (fun v => ∃ c p, v = s.setCurrent c p ∧
      (s.pThreads c ≠ 0 → p = s.pThreads c))
    (fun v w hv _ hw => by
      obtain ⟨c, p, rfl, _⟩ := hv
      cases hw
      exact ⟨_, _, rfl, fun hne => if_pos hne⟩)
    ⟨nextTask s, _, rfl, fun hne => if_pos hne⟩ hscan
  simp only [scanEnds, Bool.not_eq_false', Bool.and_eq_true, decide_eq_true_eq] at hends
  obtain ⟨hne, hrun⟩ := hends
  rw [hp hne] at hrun
  exact ⟨c, hne, hrun, by rw [hp hne]⟩

def switchedTo (currentESP c into : ℕ) (s : Sched) : Sched :=
  ((s.setThread s.pCurrentTask (retire currentESP)).setCurrent c into).setThread into fun t =>
    { t with quantum := quantumAmount t, status := .running }

theorem taskSwitch_cases {fuel currentESP esp : ℕ} (h : taskSwitch fuel currentESP s = some (esp, u)) :
    (s.pCurrentTask = 0 ∧ esp = currentESP ∧ u = s) ∨
    (s.pCurrentTask ≠ 0 ∧ 0 < (s.thread s.pCurrentTask).quantum ∧ esp = currentESP ∧
      u = s.setThread s.pCurrentTask countTick) ∨
    (s.pCurrentTask ≠ 0 ∧ (s.thread s.pCurrentTask).quantum = 0 ∧ ∃ c into, s.pThreads c = into ∧
      into ≠ 0 ∧ runnable ((s.setThread s.pCurrentTask (retire currentESP)).thread into) = true ∧
      esp = ((s.setThread s.pCurrentTask (retire currentESP)).thread into).esp0 ∧
      u = switchedTo currentESP c into s) := by
  unfold taskSwitch at h
  split_ifs at h with hcur hquantum
  · obtain ⟨rfl, rfl⟩ := Prod.mk.inj (Option.some.inj h)
    exact Or.inl ⟨hcur, rfl, rfl⟩
  · obtain ⟨rfl, rfl⟩ := Prod.mk.inj (Option.some.inj h)
    exact Or.inr (Or.inl ⟨hcur, hquantum, rfl, rfl⟩)
  · obtain ⟨v, hv, hdispatch⟩ := Option.map_eq_some_iff.mp h
    obtain ⟨c, hne, hrun, rfl⟩ := scan_cases hv
    have hesp := dispatch_esp ((s.setThread s.pCurrentTask (retire currentESP)).setCurrent c
      (s.pThreads c))
    rw [show s.pThreads c = (s.setThread s.pCurrentTask (retire currentESP)).pThreads c from rfl,
      hdispatch] at hesp
    obtain ⟨_, rfl⟩ := Prod.mk.inj hdispatch
    exact Or.inr (Or.inr ⟨hcur, by omega, c, _, rfl, hne, hrun, hesp, rfl⟩)

theorem taskSwitch_mono {fuel fuel' currentESP : ℕ} {r : ℕ × Sched} (hle : fuel ≤ fuel')
    (h : taskSwitch fuel currentESP s = some r) : taskSwitch fuel' currentESP s = some r := by
  unfold taskSwitch at h ⊢
  split_ifs at h ⊢
  · exact h
  · exact h
  · obtain ⟨v, hv, rfl⟩ := Option.map_eq_some_iff.mp h
    exact Option.map_eq_some_iff.mpr ⟨v, doLoop_mono hle hv, rfl⟩

/-- An interrupt that switches has found its thread in the table. -/
theorem taskSwitch_switched {fuel currentESP esp out currentESP' into esp' : ℕ} {cause cause' : Cause}
    (hrun : taskSwitch fuel currentESP s = some (esp, u))
    (hevent : switchEvent cause s currentESP esp u = .switched cause' out currentESP' into esp') :
    ∃ c, s.pThreads c = into ∧ into ≠ 0 ∧ u = switchedTo currentESP c into s := by
  unfold switchEvent at hevent
  split_ifs at hevent with hquiet
  obtain ⟨-, -, -, rfl, -⟩ := Event.switched.inj hevent
  rcases taskSwitch_cases hrun with ⟨hzero, -, -⟩ | ⟨-, hpos, -, -⟩ | ⟨-, -, c, into, hinto, hnull, -, -, rfl⟩
  · exact absurd (Or.inl hzero) hquiet
  · exact absurd (Or.inr hpos) hquiet
  · exact ⟨c, hinto, hnull, rfl⟩

/-- `int $0x20` is the last statement of `yield`. -/
def enter (cause : Cause) (s : Sched) : Sched :=
  match cause with
  | .timer => s
  | .int20 => s.setPhase s.pCurrentTask .running

/-- Where a step with the event `e` leads. The entry point of a new thread only goes to its stack. -/
def Leads (s : Sched) : Event → Sched → Prop
  | .created t stackBase _, u => u = createKernelThread t stackBase 0 s
  | .createError, u => u = s
  | .started, u => u = startScheduler s
  | .nice newPriority, u => u = nice newPriority s
  | .pNice t newPriority, u => u = pNice t newPriority s
  | .returned cause currentESP _, u =>
      ∃ fuel esp, taskSwitch fuel currentESP (enter cause s) = some (esp, u)
  | .switched cause _ currentESP _ _, u =>
      ∃ fuel esp, taskSwitch fuel currentESP (enter cause s) = some (esp, u)
  | .yieldQuantum, u => u = endQuantum .yielding s
  | .killStatus, u => u = killStatus s
  | .killMask, u => u = s.setPhase s.pCurrentTask .masked
  | .killUnlink, u => u = killUnlink s
  | .killClear, u => u = killClear s
  | .killUnmask, u => u = s.setPhase s.pCurrentTask .unmasked
  | .killQuantum, u => u = endQuantum .leaving s

theorem switchEvent_leads {fuel currentESP esp : ℕ} {cause : Cause}
    (hrun : taskSwitch fuel currentESP (enter cause s) = some (esp, u)) :
    Leads s (switchEvent cause s currentESP esp u) u := by
  unfold switchEvent
  split_ifs <;> exact ⟨fuel, esp, hrun⟩

theorem schedStep_leads {e : Event} (h : SchedStep s e u) : Leads s e u := by
  cases h with
  | interrupt _ hrun => exact switchEvent_leads hrun
  | softInterrupt _ _ hrun => exact switchEvent_leads hrun
  | _ => rfl

theorem leads_unique {e : Event} {v : Sched} (h : Leads s e u) (h' : Leads s e v) : u = v := by
  have hcalled : ∀ {currentESP : ℕ} {t : Sched},
      (∃ fuel esp, taskSwitch fuel currentESP t = some (esp, u)) →
      (∃ fuel esp, taskSwitch fuel currentESP t = some (esp, v)) → u = v := by
    rintro currentESP t ⟨fuel, esp, hu⟩ ⟨fuel', esp', hv⟩
    have hsame := (taskSwitch_mono (Nat.le_max_left fuel fuel') hu).symm.trans
      (taskSwitch_mono (Nat.le_max_right fuel fuel') hv)
    exact (Prod.mk.inj (Option.some.inj hsame)).2
  cases e with
  | returned cause currentESP esp => exact hcalled h h'
  | switched cause out currentESP into esp => exact hcalled h h'
  | _ => exact Eq.trans h (Eq.symm h')

/-- Labels determine the steps, so a condition on `Every` step along the labels of a run is one on that run. -/
theorem schedStep_functional : Functional SchedStep :=
  fun _ _ _ _ h h' => leads_unique (schedStep_leads h) (schedStep_leads h')

theorem killClear_gone (s : Sched) : (killClear s).pThreads s.currentTask = 0 := Function.update_self _ _ _

theorem killClear_keep {i : ℕ} (hi : i ≠ s.currentTask) : (killClear s).pThreads i = s.pThreads i :=
  Function.update_of_ne hi _ _

theorem killClear_entry {i : ℕ} (hi : (killClear s).pThreads i ≠ 0) :
    i ≠ s.currentTask ∧ (killClear s).pThreads i = s.pThreads i := by
  have hic : i ≠ s.currentTask := fun heq => hi (heq ▸ killClear_gone s)
  exact ⟨hic, killClear_keep hic⟩

theorem killClear_unused (hunused : ∀ i, s.numThreads ≤ i → s.pThreads i = 0) {i : ℕ} (hi : s.numThreads ≤ i) :
    (killClear s).pThreads i = 0 := by
  by_contra hne
  exact hne ((killClear_entry hne).2.trans (hunused i hi))

theorem killClear_tabled (htabled : ∀ i, s.pThreads i ≠ 0 → s.pThreads i ∈ s.allocated) {i : ℕ}
    (hi : (killClear s).pThreads i ≠ 0) : (killClear s).pThreads i ∈ s.allocated := by
  have heq := (killClear_entry hi).2
  rw [heq] at hi ⊢
  exact htabled i hi

theorem killClear_once (honce : ∀ i j, s.pThreads i = s.pThreads j → s.pThreads i ≠ 0 → i = j) {i j : ℕ}
    (heq : (killClear s).pThreads i = (killClear s).pThreads j) (hi : (killClear s).pThreads i ≠ 0) :
    i = j := by
  have hi' := (killClear_entry hi).2
  have hj' := (killClear_entry (heq ▸ hi)).2
  rw [hi'] at heq hi
  rw [hj'] at heq
  exact honce i j heq hi

/-- What `create_kernel_thread` changes: the next entry of the table, and the thread that it names. -/
structure Created (t : ℕ) (s u : Sched) : Prop where
  entry : u.pThreads s.numThreads = t
  entries : ∀ i, i ≠ s.numThreads → u.pThreads i = s.pThreads i
  others : ∀ t', t' ≠ t → u.thread t' = s.thread t' ∧ u.phase t' = s.phase t'
  started : u.phase t = .running ∧ runnable (u.thread t) = true

theorem createKernelThread_created (t stackBase eip : ℕ) (s : Sched) :
    Created t s (createKernelThread t stackBase eip s) := by
  refine ⟨Function.update_self _ _ _, fun _ hi => Function.update_of_ne hi _ _,
    fun t' ht' => ⟨Function.update_of_ne ht' _ _, Function.update_of_ne ht' _ _⟩, ?_⟩
  change Function.update s.phase t _ t = _ ∧ runnable (Function.update s.thread t _ t) = true
  rw [Function.update_self, Function.update_self]
  exact ⟨rfl, rfl⟩

theorem Created.unused {t : ℕ} (h : Created t s u) (hunused : ∀ i, s.numThreads ≤ i → s.pThreads i = 0)
    {i : ℕ} (hi : s.numThreads < i) : u.pThreads i = 0 := by
  rw [h.entries i (by omega)]
  exact hunused i (by omega)

theorem Created.tabled {t : ℕ} (h : Created t s u)
    (htabled : ∀ i, s.pThreads i ≠ 0 → s.pThreads i ∈ s.allocated) {i : ℕ} (hi : u.pThreads i ≠ 0) :
    u.pThreads i ∈ t :: s.allocated := by
  by_cases hin : i = s.numThreads
  · rw [hin, h.entry]
    exact List.mem_cons_self ..
  · rw [h.entries i hin] at hi ⊢
    exact List.mem_cons_of_mem _ (htabled i hi)

theorem not_tabled {t : ℕ} (htabled : ∀ i, s.pThreads i ≠ 0 → s.pThreads i ∈ s.allocated) (hnull : t ≠ 0)
    (hfresh : t ∉ s.allocated) (i : ℕ) : s.pThreads i ≠ t :=
  fun hi => hfresh (hi ▸ htabled i (hi ▸ hnull))

/-- A thread that was in no entry is in one only. -/
theorem Created.once {t : ℕ} (h : Created t s u) (hnew : ∀ i, s.pThreads i ≠ t)
    (honce : ∀ i j, s.pThreads i = s.pThreads j → s.pThreads i ≠ 0 → i = j) {i j : ℕ}
    (heq : u.pThreads i = u.pThreads j) (hi : u.pThreads i ≠ 0) : i = j := by
  by_cases hin : i = s.numThreads <;> by_cases hjn : j = s.numThreads
  · rw [hin, hjn]
  · rw [hin, h.entry, h.entries j hjn] at heq
    exact absurd heq.symm (hnew j)
  · rw [hjn, h.entry, h.entries i hin] at heq
    exact absurd heq (hnew i)
  · rw [h.entries i hin] at heq hi
    rw [h.entries j hjn] at heq
    exact honce i j heq hi

end Lemmas

end Ktux.Scheduler
