import Ktux.ContextSwitch
import Ktux.InterruptStubs

set_option autoImplicit false

/-!
# A processor for each thread

The kernel's threads take turns on one processor. Above them stands a machine in which every thread has
registers of its own that nothing but its own code changes, and an interrupt only chooses who goes on.
-/
namespace Ktux.Preemption
open Runs X86Stack Scheduler ContextSwitch InterruptStubs

structure Machine where
  cpu : Cpu
  sched : Sched

/-- The frames of the threads that wait for the processor are left alone. -/
def FramesKept (s : Sched) (m m' : Mem) : Prop :=
  ∀ t ∈ s.allocated, t ≠ s.pCurrentTask → runnable (s.thread t) = true →
    FrameKept m m' (BitVec.ofNat 32 (s.thread t).esp0)

/-- The argument and the result of `__task_switch`. -/
def stackPointers : Event → Option (ℕ × ℕ)
  | .returned _ currentESP esp => some (currentESP, esp)
  | .switched _ _ currentESP _ esp => some (currentESP, esp)
  | _ => none

/-- Thread `0` is the code that boots. -/
inductive Act where
  | own (t : ℕ) (before after : Context)
  | created (t : ℕ) (esp0base eip : Dword)
  | adopted (t : ℕ)
  | interrupted (into : ℕ)
  | served

/-- The running code may do anything but overwrite the frame of a thread that waits. -/
inductive KernelStep : Machine → Act → Machine → Prop where
  | own {c c' : Cpu} {s u : Sched} (hsched : u = s ∨ ∃ e, e.silent = true ∧ SchedStep s e u)
      (hcur : u.pCurrentTask = s.pCurrentTask) (hkept : FramesKept s c.mem c'.mem) :
      KernelStep ⟨c, s⟩ (.own s.pCurrentTask c.toContext c'.toContext) ⟨c', u⟩
  | create {c : Cpu} {s : Sched} (t : ℕ) (esp0base eip : Dword)
      (hphase : s.phase s.pCurrentTask = .running) (hnull : t ≠ 0) (hfresh : t ∉ s.allocated)
      (hroom : s.numThreads < maxThreads) (hkept : FramesKept s c.mem (threadStack esp0base eip c.mem).2) :
      KernelStep ⟨c, s⟩ (.created t esp0base eip)
        ⟨{ c with mem := (threadStack esp0base eip c.mem).2 },
          createKernelThread t esp0base.toNat eip.toNat s⟩
  | start {c : Cpu} {s : Sched} (hcur : s.pCurrentTask = 0) (hthreads : 0 < s.numThreads) :
      KernelStep ⟨c, s⟩ (.adopted (startScheduler s).pCurrentTask) ⟨c, startScheduler s⟩
  | timer {c : Cpu} {s u : Sched} {e : Event} {esp : ℕ} (g : Gate) (taskSwitch : CFunction 1 15)
      (hstep : SchedStep s e u) (hcall : stackPointers e = some ((top (timerEntry g c)).toNat, esp))
      (hreturns : (taskSwitch.run (timerEntry g c)).eax = BitVec.ofNat 32 esp)
      (hkept : FramesKept s c.mem (x86InterruptHandler20 g taskSwitch c).mem) :
      KernelStep ⟨c, s⟩ (.interrupted u.pCurrentTask) ⟨x86InterruptHandler20 g taskSwitch c, u⟩
  | keyboard {c : Cpu} {s : Sched} (g : Gate) (kbdIrqHandler : CFunction 0 15)
      (hkept : FramesKept s c.mem (x86InterruptHandler21 g kbdIrqHandler c).mem) :
      KernelStep ⟨c, s⟩ .served ⟨x86InterruptHandler21 g kbdIrqHandler c, s⟩
  | syscall {c : Cpu} {s : Sched} (g : Gate) (sysHandler : CFunction 1 15)
      (hkept : FramesKept s c.mem (syscallHandler g sysHandler c).mem) :
      KernelStep ⟨c, s⟩ .served ⟨syscallHandler g sysHandler c, s⟩

/-- Each thread has a processor, and one of them is running. -/
structure Virtual where
  context : ℕ → Context
  running : ℕ
  threads : List ℕ

def Virtual.setContext (v : Virtual) (t : ℕ) (k : Context) : Virtual :=
  { v with context := Function.update v.context t k }

def Virtual.switchTo (v : Virtual) (t : ℕ) : Virtual := { v with running := t }

def Virtual.create (v : Virtual) (t : ℕ) (k : Context) : Virtual :=
  { v.setContext t k with threads := t :: v.threads }

inductive VirtualStep : Virtual → Act → Virtual → Prop where
  | own (v : Virtual) (k : Context) :
      VirtualStep v (.own v.running (v.context v.running) k) (v.setContext v.running k)
  | created (v : Virtual) (t : ℕ) (esp0base eip : Dword) (hfresh : t ∉ v.threads) (hother : t ≠ v.running) :
      VirtualStep v (.created t esp0base eip) (v.create t (startContext esp0base eip))
  -- the boot code goes on as the thread `t`
  | adopted (v : Virtual) (t : ℕ) (hboot : v.running = 0) (ht : t = 0 ∨ t ∈ v.threads) :
      VirtualStep v (.adopted t) ((v.setContext t (v.context 0)).switchTo t)
  | interrupted (v : Virtual) (t : ℕ) (ht : t = v.running ∨ t ∈ v.threads) :
      VirtualStep v (.interrupted t) (v.switchTo t)
  | served (v : Virtual) : VirtualStep v .served v

/-- Before the first thread. -/
def boot (k : Context) : Virtual where
  context := fun _ => k
  running := 0
  threads := []

/-- The context `k` can be resumed from the stack pointer `esp0`. -/
def Stopped (m : Mem) (esp0 : Dword) (k : Context) : Prop :=
  (∃ w, StackHolds m esp0 (savedFrame k w)) ∧ k.esp = esp0 + 60

/-- The processor holds the registers of the running thread, the stacks those of all that wait. -/
structure Refines (m : Machine) (v : Virtual) : Prop where
  history : ∃ events, Saved events m.sched
  running : v.running = m.sched.pCurrentTask
  threads : v.threads = m.sched.allocated
  context : v.context v.running = m.cpu.toContext
  stopped : ∀ t ∈ m.sched.allocated, t ≠ m.sched.pCurrentTask → runnable (m.sched.thread t) = true →
    Stopped m.cpu.mem (BitVec.ofNat 32 (m.sched.thread t).esp0) (v.context t)

section Frames
variable {m m' : Mem} {p : Dword} {k : Context}

theorem Stopped.kept (h : Stopped m p k) (hkept : FrameKept m m' p) : Stopped m' p k := by
  obtain ⟨⟨w, hw⟩, hesp⟩ := h
  exact ⟨⟨w, stackHolds_congr (fun i hi => hkept i hi) hw⟩, hesp⟩

theorem threadStack_stopped (esp0base eip : Dword) (m : Mem) :
    Stopped (threadStack esp0base eip m).2 (BitVec.ofNat 32 (initialESP esp0base.toNat eip.toNat))
      (startContext esp0base eip) := by
  rw [← threadStack_esp0 esp0base eip m]
  exact ⟨⟨0, threadStack_holds esp0base eip m⟩, threadStack_top esp0base eip m⟩

/-- The thread that an interrupt stops can be resumed from the argument of `__task_switch`. -/
theorem interrupted_stopped (g : Gate) (taskSwitch : CFunction 1 15) (c : Cpu) :
    Stopped (x86InterruptHandler20 g taskSwitch c).mem (top (timerEntry g c)) c.toContext := by
  rw [timerEntry_top]
  refine ⟨⟨c.esp - 12, timerEntry_called g taskSwitch c⟩, ?_⟩
  rw [BitVec.sub_add_cancel]

theorem handler_resumes {g : Gate} {taskSwitch : CFunction 1 15} {c : Cpu}
    (h : Stopped (x86InterruptHandler20 g taskSwitch c).mem (taskSwitch.run (timerEntry g c)).eax k) :
    (x86InterruptHandler20 g taskSwitch c).toContext = k := by
  obtain ⟨⟨w, hw⟩, hesp⟩ := h
  exact timerExit_resumes hw hesp

end Frames

section Steps
variable {s u : Sched} {c : Cpu} {v : Virtual}

/-- What is the same for the threads that a step does not run. -/
structure OthersSame (s u : Sched) : Prop where
  allocated : u.allocated = s.allocated
  status : ∀ t, t ≠ s.pCurrentTask → (u.thread t).status = (s.thread t).status
  esp0 : ∀ t, t ≠ s.pCurrentTask → (u.thread t).esp0 = (s.thread t).esp0

theorem SameThreads.others (h : SameThreads s u) : OthersSame s u :=
  ⟨h.allocated, fun t _ => h.status t, fun t _ => h.esp0 t⟩

theorem silent_others {e : Event} (hstep : SchedStep s e u) (he : e.silent = true) : OthersSame s u := by
  cases hstep with
  | create t stackBase eip _ _ _ _ => cases he
  | createError _ => exact SameThreads.others (sameThreads_refl s)
  | start _ _ =>
    exact ⟨(startScheduler_thread s 0).2.2, fun t _ => (startScheduler_thread s t).2.1,
      fun t _ => (startScheduler_thread s t).1⟩
  | nice newPriority _ => exact SameThreads.others (sameThreads_pNice s.pCurrentTask newPriority s)
  | pNice t newPriority _ => exact SameThreads.others (sameThreads_pNice t newPriority s)
  | interrupt _ _ =>
    unfold switchEvent at he
    split_ifs at he <;> cases he
  | softInterrupt _ _ _ =>
    unfold switchEvent at he
    split_ifs at he <;> cases he
  | yieldQuantum _ _ => exact SameThreads.others (sameThreads_endQuantum .yielding s)
  | killStatus _ _ =>
    exact ⟨rfl, fun t ht => congrArg KernelThread.status (killStatus_other ht),
      fun t ht => congrArg KernelThread.esp0 (killStatus_other ht)⟩
  | killMask _ => exact SameThreads.others (sameThreads_phase s s.pCurrentTask .masked)
  | killUnlink _ => exact SameThreads.others (sameThreads_killUnlink s)
  | killClear _ => exact SameThreads.others (sameThreads_killClear s)
  | killUnmask _ => exact SameThreads.others (sameThreads_phase s s.pCurrentTask .unmasked)
  | killQuantum _ => exact SameThreads.others (sameThreads_endQuantum .leaving s)

theorem OthersSame.runnable (h : OthersSame s u) {t : ℕ} (ht : t ≠ s.pCurrentTask) :
    runnable (u.thread t) = runnable (s.thread t) := by
  simp only [Scheduler.runnable, h.status t ht]

theorem refines_boot (c : Cpu) (thread : ℕ → KernelThread) (links : CircularList.Links Node) :
    Refines ⟨c, clearThreads thread links⟩ (boot c.toContext) :=
  ⟨⟨[], saved_clear thread links⟩, rfl, rfl, rfl, fun _ ht => absurd ht List.not_mem_nil⟩

/-- A step that comes back to the running thread with a context `c'` of its own. -/
theorem Refines.same (h : Refines ⟨c, s⟩ v) {c' : Cpu} (hhistory : ∃ events, Saved events u)
    (hcur : u.pCurrentTask = s.pCurrentTask) (hothers : OthersSame s u) (hkept : FramesKept s c.mem c'.mem)
    (v' : Virtual) (hrunning : v'.running = v.running) (hthreads : v'.threads = v.threads)
    (hcontext : v'.context v.running = c'.toContext)
    (hstopped : ∀ t, t ≠ v.running → v'.context t = v.context t) : Refines ⟨c', u⟩ v' := by
  refine ⟨hhistory, ?_, ?_, ?_, fun t ht hne hr => ?_⟩
  · rw [hrunning, h.running, hcur]
  · rw [hthreads, h.threads, hothers.allocated]
  · rw [hrunning, hcontext]
  · have ht' : t ∈ s.allocated := hothers.allocated ▸ ht
    have hne' : t ≠ s.pCurrentTask := hcur ▸ hne
    have hr' : runnable (s.thread t) = true := hothers.runnable hne' ▸ hr
    rw [hothers.esp0 t hne', hstopped t (h.running ▸ hne')]
    exact (h.stopped t ht' hne' hr').kept (hkept t ht' hne' hr')

theorem Refines.own (h : Refines ⟨c, s⟩ v) {c' : Cpu}
    (hsched : u = s ∨ ∃ e, e.silent = true ∧ SchedStep s e u) (hcur : u.pCurrentTask = s.pCurrentTask)
    (hkept : FramesKept s c.mem c'.mem) :
    Refines ⟨c', u⟩ (v.setContext v.running c'.toContext) := by
  obtain ⟨events, hsaved⟩ := h.history
  have hstep : (∃ events, Saved events u) ∧ OthersSame s u := by
    rcases hsched with rfl | ⟨e, he, hstep⟩
    · exact ⟨⟨events, hsaved⟩, SameThreads.others (sameThreads_refl u)⟩
    · exact ⟨⟨_, (hsaved.step hstep).1⟩, silent_others hstep he⟩
  exact h.same hstep.1 hcur hstep.2 hkept _ rfl rfl (Function.update_self _ _ _)
    fun t ht => Function.update_of_ne ht _ _

/-- An interrupt that leaves the scheduler alone is not noticed. -/
theorem Refines.served (h : Refines ⟨c, s⟩ v) {c' : Cpu} (hcontext : c'.toContext = c.toContext)
    (hkept : FramesKept s c.mem c'.mem) : Refines ⟨c', s⟩ v :=
  h.same h.history rfl (SameThreads.others (sameThreads_refl s)) hkept v rfl rfl
    (h.context.trans hcontext.symm) fun _ _ => rfl

theorem Refines.running_cases (h : Refines ⟨c, s⟩ v) : v.running = 0 ∨ v.running ∈ v.threads := by
  obtain ⟨events, hsaved⟩ := h.history
  rw [h.running, h.threads]
  by_cases hcur : s.pCurrentTask = 0
  · exact Or.inl hcur
  · exact Or.inr (hsaved.current hcur)

theorem Refines.fresh (h : Refines ⟨c, s⟩ v) {t : ℕ} (hnull : t ≠ 0) (hfresh : t ∉ s.allocated) :
    t ∉ v.threads ∧ t ≠ v.running := by
  obtain ⟨events, hsaved⟩ := h.history
  rw [h.threads, h.running]
  refine ⟨hfresh, fun heq => ?_⟩
  have hcur : s.pCurrentTask ≠ 0 := heq ▸ hnull
  exact hfresh (heq ▸ hsaved.current hcur)

theorem Refines.create (h : Refines ⟨c, s⟩ v) {t : ℕ} (esp0base eip : Dword) (hnull : t ≠ 0)
    (hfresh : t ∉ s.allocated) (hkept : FramesKept s c.mem (threadStack esp0base eip c.mem).2) :
    Refines ⟨{ c with mem := (threadStack esp0base eip c.mem).2 },
      createKernelThread t esp0base.toNat eip.toNat s⟩ (v.create t (startContext esp0base eip)) := by
  obtain ⟨events, hsaved⟩ := h.history
  obtain ⟨hthreads, hother⟩ := h.fresh hnull hfresh
  refine ⟨⟨_, hsaved.create esp0base.toNat eip.toNat hnull hfresh⟩, h.running, ?_, ?_, fun t' ht' hne hr => ?_⟩
  · exact congrArg (t :: ·) h.threads
  · exact (Function.update_of_ne hother.symm _ _).trans h.context
  · by_cases heq : t' = t
    · have hnew : ((createKernelThread t esp0base.toNat eip.toNat s).thread t).esp0 =
          initialESP esp0base.toNat eip.toNat := by
        simp [createKernelThread]
      have hcontext : (v.create t (startContext esp0base eip)).context t = startContext esp0base eip :=
        Function.update_self _ _ _
      rw [heq, hnew, hcontext]
      exact threadStack_stopped esp0base eip c.mem
    · have ht : t' ∈ s.allocated := (List.mem_cons.mp ht').resolve_left heq
      have hcontext : (v.create t (startContext esp0base eip)).context t' = v.context t' :=
        Function.update_of_ne heq _ _
      rw [createKernelThread_old s _ _ hfresh ht] at hr ⊢
      rw [hcontext]
      exact (h.stopped t' ht hne hr).kept (hkept t' ht hne hr)

/-- The boot code becomes the first thread; what that thread was to start with is lost. -/
theorem Refines.start (h : Refines ⟨c, s⟩ v) (hcur : s.pCurrentTask = 0) :
    Refines ⟨c, startScheduler s⟩ ((v.setContext (startScheduler s).pCurrentTask (v.context 0)).switchTo
      (startScheduler s).pCurrentTask) := by
  obtain ⟨events, hsaved⟩ := h.history
  have hzero : v.running = 0 := h.running.trans hcur
  have hthread := startScheduler_thread s
  refine ⟨⟨_, hsaved.start hcur⟩, rfl, ?_, ?_, fun t ht hne hr => ?_⟩
  · exact h.threads.trans (hthread 0).2.2.symm
  · exact (Function.update_self _ _ _).trans (hzero ▸ h.context)
  · have ht' : t ∈ s.allocated := (hthread 0).2.2 ▸ ht
    have hnull : t ≠ s.pCurrentTask := fun heq => hsaved.nonnull (hcur ▸ heq ▸ ht')
    have hr' : runnable (s.thread t) = true := by
      simpa only [runnable, (hthread t).2.1] using hr
    have hcontext := Function.update_of_ne hne (v.context 0) v.context
    change Stopped c.mem (BitVec.ofNat 32 ((startScheduler s).thread t).esp0)
      (Function.update v.context (startScheduler s).pCurrentTask (v.context 0) t)
    rw [(hthread t).1, hcontext]
    exact h.stopped t ht' hnull hr'

section Timer
variable {g : Gate} {handler : CFunction 1 15} {currentESP : ℕ}

/-- Once the current thread has retired, each thread that can run can be resumed. -/
theorem Refines.retired (h : Refines ⟨c, s⟩ v) (hcall : currentESP = (top (timerEntry g c)).toNat)
    (hquantum : (s.thread s.pCurrentTask).quantum = 0)
    (hkept : FramesKept s c.mem (x86InterruptHandler20 g handler c).mem) {t : ℕ} (ht : t ∈ s.allocated)
    (hr : runnable ((s.setThread s.pCurrentTask (retire currentESP)).thread t) = true) :
    Stopped (x86InterruptHandler20 g handler c).mem
      (BitVec.ofNat 32 ((s.setThread s.pCurrentTask (retire currentESP)).thread t).esp0) (v.context t) := by
  by_cases heq : t = s.pCurrentTask
  · have hcontext : v.context t = c.toContext := by
      rw [heq, ← h.running]
      exact h.context
    have hesp0 : ((s.setThread s.pCurrentTask (retire currentESP)).thread t).esp0 = currentESP := by
      rw [heq, setThread_self] at hr ⊢
      rcases retire_cases currentESP _ hquantum with ⟨_, hst⟩ | ⟨_, hesp⟩
      · rw [runnable_iff, hst] at hr
        rcases hr with hr | hr <;> cases hr
      · exact hesp
    rw [hesp0, hcontext, hcall, BitVec.ofNat_toNat, BitVec.setWidth_eq]
    exact interrupted_stopped g handler c
  · rw [setThread_other s _ heq] at hr ⊢
    exact (h.stopped t ht heq hr).kept (hkept t ht heq hr)

theorem Refines.switch (h : Refines ⟨c, s⟩ v) (hcall : currentESP = (top (timerEntry g c)).toNat)
    (hquantum : (s.thread s.pCurrentTask).quantum = 0)
    (hkept : FramesKept s c.mem (x86InterruptHandler20 g handler c).mem) {index into : ℕ}
    (hhistory : ∃ events, Saved events (switchedTo currentESP index into s)) (hinto : into ∈ s.allocated)
    (hr : runnable ((s.setThread s.pCurrentTask (retire currentESP)).thread into) = true)
    (hreturns : (handler.run (timerEntry g c)).eax =
      BitVec.ofNat 32 ((s.setThread s.pCurrentTask (retire currentESP)).thread into).esp0) :
    Refines ⟨x86InterruptHandler20 g handler c, switchedTo currentESP index into s⟩ (v.switchTo into) := by
  refine ⟨hhistory, rfl, h.threads, ?_, fun t ht hne hr' => ?_⟩
  · have hstopped := h.retired hcall hquantum hkept hinto hr
    rw [← hreturns] at hstopped
    exact (handler_resumes hstopped).symm
  · have hout : (switchedTo currentESP index into s).thread t =
        (s.setThread s.pCurrentTask (retire currentESP)).thread t := switchedTo_out hne
    rw [hout] at hr' ⊢
    exact h.retired hcall hquantum hkept ht hr'

/-- An interrupt that goes back to the stack it came from. -/
theorem handler_returns (hcall : currentESP = (top (timerEntry g c)).toNat)
    (hreturns : (handler.run (timerEntry g c)).eax = BitVec.ofNat 32 currentESP) :
    (x86InterruptHandler20 g handler c).toContext = c.toContext := by
  apply x86InterruptHandler20_restores
  rw [hreturns, hcall, BitVec.ofNat_toNat, BitVec.setWidth_eq]

theorem Refines.taskSwitch (h : Refines ⟨c, s⟩ v) {fuel esp : ℕ}
    (hrun : taskSwitch fuel currentESP s = some (esp, u)) (hcall : currentESP = (top (timerEntry g c)).toNat)
    (hreturns : (handler.run (timerEntry g c)).eax = BitVec.ofNat 32 esp)
    (hkept : FramesKept s c.mem (x86InterruptHandler20 g handler c).mem) :
    (u.pCurrentTask = v.running ∨ u.pCurrentTask ∈ v.threads) ∧
      Refines ⟨x86InterruptHandler20 g handler c, u⟩ (v.switchTo u.pCurrentTask) := by
  obtain ⟨events, hsaved⟩ := h.history
  have hhistory : ∃ events, Saved events u := ⟨_, (hsaved.switchCall .timer hrun).1⟩
  rcases taskSwitch_cases hrun with ⟨_, rfl, rfl⟩ | ⟨_, _, rfl, rfl⟩ |
    ⟨_, hquantum, index, into, hinto, hnull, hr, rfl, rfl⟩
  · have hsame := h.served (handler_returns hcall hreturns) hkept
    rw [show u.pCurrentTask = v.running from h.running.symm]
    exact ⟨Or.inl rfl, hsame⟩
  · have hothers := SameThreads.others (sameThreads_set s s.pCurrentTask countTick (fun _ => rfl) (fun _ => rfl))
    have hsame := h.same hhistory rfl hothers hkept v rfl rfl
      (h.context.trans (handler_returns hcall hreturns).symm) fun _ _ => rfl
    rw [show (s.setThread s.pCurrentTask countTick).pCurrentTask = v.running from h.running.symm]
    exact ⟨Or.inl rfl, hsame⟩
  · have hmem : into ∈ s.allocated := hinto ▸ hsaved.table index (by rwa [hinto])
    refine ⟨Or.inr ?_, h.switch hcall hquantum hkept hhistory hmem hr hreturns⟩
    exact h.threads.symm ▸ hmem

end Timer

theorem stackPointers_switchEvent (cause : Cause) (s : Sched) (currentESP esp : ℕ) (u : Sched) :
    stackPointers (switchEvent cause s currentESP esp u) = some (currentESP, esp) := by
  unfold switchEvent
  split_ifs <;> rfl

theorem Refines.phase (h : Refines ⟨c, s⟩ v) (t : ℕ) (p : Phase) : Refines ⟨c, s.setPhase t p⟩ v := by
  obtain ⟨events, hsaved⟩ := h.history
  have hsame := sameThreads_phase s t p
  exact h.same ⟨events, hsaved.same hsame⟩ rfl (SameThreads.others hsame) (fun _ _ _ _ _ _ => rfl) v rfl rfl
    h.context fun _ _ => rfl

theorem Refines.timer (h : Refines ⟨c, s⟩ v) {e : Event} {esp : ℕ} {g : Gate} {handler : CFunction 1 15}
    (hstep : SchedStep s e u) (hcall : stackPointers e = some ((top (timerEntry g c)).toNat, esp))
    (hreturns : (handler.run (timerEntry g c)).eax = BitVec.ofNat 32 esp)
    (hkept : FramesKept s c.mem (x86InterruptHandler20 g handler c).mem) :
    (u.pCurrentTask = v.running ∨ u.pCurrentTask ∈ v.threads) ∧
      Refines ⟨x86InterruptHandler20 g handler c, u⟩ (v.switchTo u.pCurrentTask) := by
  cases hstep with
  | interrupt _ hrun =>
    rw [stackPointers_switchEvent] at hcall
    obtain ⟨rfl, rfl⟩ := Prod.mk.inj (Option.some.inj hcall)
    exact h.taskSwitch hrun rfl hreturns hkept
  | softInterrupt _ _ hrun =>
    rw [stackPointers_switchEvent] at hcall
    obtain ⟨rfl, rfl⟩ := Prod.mk.inj (Option.some.inj hcall)
    exact (h.phase s.pCurrentTask .running).taskSwitch hrun rfl hreturns hkept
  | _ => cases hcall

end Steps

/-- One step on the shared processor is one step of the threads' own processors. -/
theorem step_refines {m m' : Machine} {v : Virtual} {a : Act} (h : Refines m v) (hstep : KernelStep m a m') :
    ∃ v', VirtualStep v a v' ∧ Refines m' v' := by
  cases hstep with
  | own hsched hcur hkept =>
    have hown := VirtualStep.own v
    rw [h.context, h.running] at hown
    refine ⟨_, hown _, ?_⟩
    exact h.running ▸ h.own hsched hcur hkept
  | create t esp0base eip hphase hnull hfresh _ hkept =>
    obtain ⟨hthreads, hother⟩ := h.fresh hnull hfresh
    exact ⟨_, .created v t esp0base eip hthreads hother, h.create esp0base eip hnull hfresh hkept⟩
  | start hcur _ =>
    have hu := h.start hcur
    exact ⟨_, .adopted v _ (h.running.trans hcur) hu.running_cases, hu⟩
  | timer g taskSwitch hstep hcall hreturns hkept =>
    obtain ⟨hinto, hu⟩ := h.timer hstep hcall hreturns hkept
    exact ⟨_, .interrupted v _ hinto, hu⟩
  | keyboard g kbdIrqHandler hkept =>
    exact ⟨v, .served v, h.served (x86InterruptHandler21_restores g kbdIrqHandler _) hkept⟩
  | syscall g sysHandler hkept =>
    exact ⟨v, .served v, h.served (syscallHandler_restores g sysHandler _) hkept⟩

/-- Preemption cannot be noticed. Whatever the threads do on the shared processor, and wherever interrupts
come, they do the same on processors of their own, and what the shared one holds is what the running
thread's own would. -/
theorem preemption_transparent {thread : ℕ → KernelThread} {links : CircularList.Links Node} {c : Cpu}
    {acts : List Act} {m : Machine} (h : Run KernelStep ⟨c, clearThreads thread links⟩ acts m) :
    ∃ v, Run VirtualStep (boot c.toContext) acts v ∧ v.running = m.sched.pCurrentTask ∧
      v.context v.running = m.cpu.toContext := by
  have hsteps : ∀ m v a m', Refines m v → KernelStep m a m' → ∃ v', VirtualStep v a v' ∧ Refines m' v' :=
    fun _ _ _ _ hv hstep => step_refines hv hstep
  obtain ⟨v, hrun, hv⟩ := h.simulation Refines (refines_boot c thread links) hsteps
  exact ⟨v, hrun, hv.running, hv.context⟩

/-- The call of `__task_switch` that starts the thread at `0x110000`. -/
def toSecond : CFunction 1 15 where
  run := fun c => { c with eax := 0x201C4 }
  esp_run := fun _ => rfl
  kept_run := fun _ _ _ _ => rfl

def booting : Machine :=
  ⟨InterruptStubs.running, clearThreads (fun _ => ⟨0, 0, .init, 0, 0, 0, 0⟩) ⟨fun _ => none, fun _ => none⟩⟩

def twoCreated : Machine where
  cpu := { InterruptStubs.running with
    mem := (threadStack 0x20000 0x110000 (threadStack 0x10000 0x100000 InterruptStubs.running.mem).2).2 }
  sched := createKernelThread 0x6000 0x20000 0x110000 (createKernelThread 0x5000 0x10000 0x100000 booting.sched)

theorem twoCreated_run :
    Run KernelStep booting [.created 0x5000 0x10000 0x100000, .created 0x6000 0x20000 0x110000] twoCreated := by
  refine .next (.create 0x5000 0x10000 0x100000 rfl (by decide) (by decide) (by decide) ?_) ?_
  · exact fun t ht => absurd ht List.not_mem_nil
  refine .single (.create 0x6000 0x20000 0x110000 rfl (by decide) (by decide) (by decide) ?_)
  intro t ht _ _
  obtain rfl := List.mem_singleton.mp ht
  show ∀ i < 15, _
  decide +kernel

/-- The second thread starts at its entry point, while the first is stopped where the boot code was. -/
theorem preemption_transparent_two : ∃ m v, Run KernelStep booting [.created 0x5000 0x10000 0x100000,
      .created 0x6000 0x20000 0x110000, .adopted 0x5000, .interrupted 0x6000] m ∧
    Run VirtualStep (boot InterruptStubs.running.toContext) [.created 0x5000 0x10000 0x100000,
      .created 0x6000 0x20000 0x110000, .adopted 0x5000, .interrupted 0x6000] v ∧
    v.running = 0x6000 ∧ v.context v.running = m.cpu.toContext := by
  have hswitch : ∃ u, taskSwitch 1 0x8FC4 (startScheduler twoCreated.sched) = some (0x201C4, u) ∧
      u.pCurrentTask = 0x6000 := ⟨_, rfl, rfl⟩
  obtain ⟨u, hswitch, hcur⟩ := hswitch
  have hcall : top (timerEntry ⟨0x18, 0x2000⟩ twoCreated.cpu) = 0x8FC4 := timerEntry_top _ _
  have hkept : FramesKept (startScheduler twoCreated.sched) twoCreated.cpu.mem
      (x86InterruptHandler20 ⟨0x18, 0x2000⟩ toSecond twoCreated.cpu).mem := by
    intro t ht hne _
    have hsecond : t = 0x6000 := by
      rcases List.mem_cons.mp ht with rfl | ht
      · rfl
      · exact absurd (List.mem_singleton.mp ht) hne
    subst hsecond
    show ∀ i < 15, _
    decide +kernel
  have htimer : KernelStep ⟨twoCreated.cpu, startScheduler twoCreated.sched⟩ (.interrupted 0x6000)
      ⟨x86InterruptHandler20 ⟨0x18, 0x2000⟩ toSecond twoCreated.cpu, u⟩ := by
    rw [← hcur]
    refine .timer ⟨0x18, 0x2000⟩ toSecond (.interrupt ⟨by decide, by decide, by decide⟩ hswitch) ?_ rfl hkept
    rw [stackPointers_switchEvent, hcall]
    rfl
  have hrun := twoCreated_run.append (.next (.start rfl (by decide)) (.single htimer))
  obtain ⟨v, hv, hrunning, hcontext⟩ := preemption_transparent hrun
  exact ⟨_, v, hrun, hv, hrunning.trans hcur, hcontext⟩

end Ktux.Preemption
