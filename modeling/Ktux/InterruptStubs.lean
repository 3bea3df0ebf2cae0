import Ktux.Scheduler
import Ktux.X86Stack

set_option autoImplicit false

/-!
# The interrupt stubs

The stubs of `isr.s` around their C handlers, and the stack that `create_kernel_thread` prepares. Every
stub runs in the kernel's own privilege level; `xchg bx,bx` and the writes of the end-of-interrupt command
change no register and no memory and are left out.
-/
namespace Ktux.InterruptStubs
open X86Stack Scheduler Words

def macroRegsSave (c : Cpu) : Cpu :=
  let c := pushad c
  let c := pushSegment c.gs c
  let c := pushSegment c.fs c
  let c := pushSegment c.es c
  let c := pushSegment c.ds c
  let c := { c with ebx := 0x20 }
  let bx := c.ebx.setWidth 16
  { c with ds := bx, es := bx, fs := bx, gs := bx }

def macroRegsRestore (c : Cpu) : Cpu :=
  -- `mov al, 0x20` replaces the low byte of EAX
  let c := { c with eax := c.eax &&& ~~~0xFF ||| 0x20 }
  let c := popDS c
  let c := popES c
  let c := popFS c
  let c := popGS c
  popad c

/-- The timer stub up to its call: the argument is the stack pointer behind the saved registers. -/
def timerEntry (g : Gate) (c : Cpu) : Cpu :=
  let c := macroRegsSave (cli (interrupt g c))
  let c := { c with eax := c.esp }
  push c.eax c

def timerExit (c : Cpu) : Cpu :=
  let c := { c with esp := c.eax }
  iret (sti (macroRegsRestore c))

def x86InterruptHandler20 (g : Gate) (taskSwitch : CFunction 1 15) (c : Cpu) : Cpu :=
  timerExit (taskSwitch.run (timerEntry g c))

def x86InterruptHandler21 (g : Gate) (kbdIrqHandler : CFunction 0 15) (c : Cpu) : Cpu :=
  let c := macroRegsSave (cli (interrupt g c))
  let c := kbdIrqHandler.run c
  iret (sti (macroRegsRestore c))

def syscallHandler (g : Gate) (sysHandler : CFunction 1 15) (c : Cpu) : Cpu :=
  let c := macroRegsSave (interrupt g c)
  let c := { c with eax := c.esp }
  let c := push c.eax c
  let c := sysHandler.run c
  let c := popEAX c
  iret (macroRegsRestore c)

def pushWord (stack : Dword × Mem) (w : ℕ) : Dword × Mem :=
  (stack.1 - 4, store (stack.1 - 4) (BitVec.ofNat 32 w) stack.2)

/-- The value of `esp0` and the memory that `create_kernel_thread` leaves. -/
def threadStack (esp0base eip : Dword) (m : Mem) : Dword × Mem :=
  (initialFrame eip.toNat).foldl pushWord (BitVec.ofNat 32 (wadd esp0base.toNat stackSize), m)

/-- The context in which a new thread has to start. -/
def startContext (esp0base eip : Dword) : Context where
  eax := 0
  ecx := 0
  edx := 0
  ebx := 0
  esp := esp0base + BitVec.ofNat 32 stackSize
  ebp := 0
  esi := 0
  edi := 0
  ds := BitVec.ofNat 16 kernelDataSelector
  es := BitVec.ofNat 16 kernelDataSelector
  fs := BitVec.ofNat 16 kernelDataSelector
  gs := BitVec.ofNat 16 kernelDataSelector
  cs := BitVec.ofNat 16 kernelCodeSelector
  eip := eip
  eflags := 0x202

/-- The words that `MACRO_REGS_SAVE` puts in front of `ws`. The word `esp` is stored by `pushad` and never
loaded. -/
def savedRegs (k : Context) (esp : Dword) (ws : List Dword) : List Dword :=
  k.ds.setWidth 32 :: k.es.setWidth 32 :: k.fs.setWidth 32 :: k.gs.setWidth 32 :: k.edi :: k.esi :: k.ebp ::
    esp :: k.ebx :: k.edx :: k.ecx :: k.eax :: ws

/-- The fifteen words of a saved context from the stack pointer up. -/
def savedFrame (k : Context) (esp : Dword) : List Dword :=
  savedRegs k esp [k.eip, k.cs.setWidth 32, k.eflags]

def FrameKept (m m' : Mem) (p : Dword) : Prop :=
  ∀ i < 15, load m' (p + 4 * BitVec.ofNat 32 i) = load m (p + 4 * BitVec.ofNat 32 i)

section Lemmas
variable {c : Cpu} {k : Context} {w : Dword}

theorem savedFrame_length (k : Context) (esp : Dword) : (savedFrame k esp).length = 15 := rfl

theorem macroRegsSave_esp (c : Cpu) : (macroRegsSave c).esp = c.esp - 48 := by
  simp [macroRegsSave, BitVec.sub_sub]

theorem macroRegsSave_mem (c : Cpu) : (macroRegsSave c).mem =
    (pushSegment c.ds (pushSegment c.es (pushSegment c.fs (pushSegment c.gs (pushad c))))).mem := by
  simp only [macroRegsSave, pushSegment_toContext, pushad_toContext]

theorem macroRegsSave_holds {ws : List Dword} (hfit : 4 * (ws.length + 12) ≤ 2 ^ 32)
    (h : StackHolds c.mem c.esp ws) :
    StackHolds (macroRegsSave c).mem (macroRegsSave c).esp (savedRegs c.toContext c.esp ws) := by
  have hesp : (macroRegsSave c).esp =
      (pushSegment c.ds (pushSegment c.es (pushSegment c.fs (pushSegment c.gs (pushad c))))).esp := by
    simp [macroRegsSave_esp, BitVec.sub_sub]
  rw [macroRegsSave_mem, hesp]
  unfold savedRegs pushSegment
  iterate 4 refine stackHolds_push _ (by simp only [List.length_cons]; omega) ?_
  exact pushad_holds _ (by omega) h

theorem interrupt_saved (g : Gate) (c : Cpu) :
    StackHolds (macroRegsSave (interrupt g c)).mem (macroRegsSave (interrupt g c)).esp
      (savedFrame c.toContext (c.esp - 12)) := by
  have h := macroRegsSave_holds (by simp) (interrupt_holds g c [] (by simp) trivial)
  rwa [interrupt_toContext] at h

@[simp] theorem macroRegsRestore_mem (c : Cpu) : (macroRegsRestore c).mem = c.mem := rfl

theorem macroRegsRestore_toContext (c : Cpu) : (macroRegsRestore c).toContext =
    { c.toContext with
      ds := (stackWord 0 c).setWidth 16
      es := (stackWord 4 c).setWidth 16
      fs := (stackWord 8 c).setWidth 16
      gs := (stackWord 12 c).setWidth 16
      edi := stackWord 16 c
      esi := stackWord 20 c
      ebp := stackWord 24 c
      ebx := stackWord 32 c
      edx := stackWord 36 c
      ecx := stackWord 40 c
      eax := stackWord 44 c
      esp := c.esp + 48 } := by
  simp [macroRegsRestore, popad, stackWord, top, BitVec.add_assoc]

theorem iret_restore_words {ds es fs gs edi esi ebp esp ebx edx ecx eax eip cs eflags : Dword}
    (h : StackHolds c.mem c.esp
      [ds, es, fs, gs, edi, esi, ebp, esp, ebx, edx, ecx, eax, eip, cs, eflags]) :
    (iret (macroRegsRestore c)).toContext =
      { eax := eax, ecx := ecx, edx := edx, ebx := ebx, esp := c.esp + 60, ebp := ebp, esi := esi, edi := edi,
        ds := ds.setWidth 16, es := es.setWidth 16, fs := fs.setWidth 16, gs := gs.setWidth 16,
        cs := cs.setWidth 16, eip := eip, eflags := eflags } := by
  obtain ⟨hds, hes, hfs, hgs, hedi, hesi, hebp, -, hebx, hedx, hecx, heax, heip, hcs, heflags, -⟩ := h
  simp only [BitVec.ofNat_eq_ofNat, BitVec.add_assoc, BitVec.reduceAdd] at *
  simp [iret, stackWord, macroRegsRestore_toContext, BitVec.add_assoc, hds, hes, hfs, hgs, hedi, hesi, hebp,
    hebx, hedx, hecx, heax, heip, hcs, heflags]

theorem iret_restore (h : StackHolds c.mem c.esp (savedFrame k w)) (hesp : k.esp = c.esp + 60) :
    (iret (macroRegsRestore c)).toContext = k := by
  rw [iret_restore_words h, ← hesp]
  simp

end Lemmas

section Timer
variable {c : Cpu} {k : Context} {w : Dword}

theorem timerEntry_esp (g : Gate) (c : Cpu) : (timerEntry g c).esp = c.esp - 64 := by
  simp [timerEntry, macroRegsSave_esp, BitVec.sub_sub]

theorem timerEntry_holds (g : Gate) (c : Cpu) :
    StackHolds (timerEntry g c).mem (timerEntry g c).esp
      ((c.esp - 60) :: savedFrame c.toContext (c.esp - 12)) := by
  have hargument : (macroRegsSave (interrupt g c)).esp = c.esp - 60 := by
    simp [macroRegsSave_esp, BitVec.sub_sub]
  have h := (interrupt_saved g c).pushed (w := c.esp - 60) (by rw [savedFrame_length]; decide)
  have hmem : (timerEntry g c).mem = store ((macroRegsSave (interrupt g c)).esp - 4) (c.esp - 60)
      (macroRegsSave (interrupt g c)).mem := by
    rw [← hargument]
    simp only [timerEntry, cli_interrupt, push]
  rw [hmem, timerEntry_esp]
  rwa [hargument, BitVec.sub_sub] at h ⊢

/-- The stub leaves through the context whose frame stands at the returned stack pointer. -/
theorem timerExit_resumes (h : StackHolds c.mem c.eax (savedFrame k w)) (hesp : k.esp = c.eax + 60) :
    (timerExit c).toContext = k :=
  iret_restore (c := { c with esp := c.eax }) h hesp

theorem timerEntry_top (g : Gate) (c : Cpu) : top (timerEntry g c) = c.esp - 60 := (timerEntry_holds g c).1

theorem timerEntry_frame (g : Gate) (c : Cpu) :
    StackHolds (timerEntry g c).mem (c.esp - 60) (savedFrame c.toContext (c.esp - 12)) := by
  have h := (timerEntry_holds g c).2
  rwa [timerEntry_esp, show c.esp - 64 + 4 = c.esp - 60 by bv_omega] at h

/-- A frame that still stands is resumed, whatever happened elsewhere. -/
theorem timerExit_kept {m : Mem} (hkept : FrameKept m c.mem c.eax)
    (h : StackHolds m c.eax (savedFrame k w)) (hesp : k.esp = c.eax + 60) :
    (timerExit c).toContext = k :=
  timerExit_resumes (stackHolds_congr (fun i hi => hkept i hi) h) hesp

theorem timerEntry_called (g : Gate) (handler : CFunction 1 15) (c : Cpu) :
    StackHolds (handler.run (timerEntry g c)).mem (c.esp - 60) (savedFrame c.toContext (c.esp - 12)) := by
  have hcall := stackHolds_call handler [c.esp - 60] rfl (savedFrame_length _ _).le (timerEntry_holds g c)
  rwa [handler.esp_run, timerEntry_esp, show c.esp - 64 + 4 * BitVec.ofNat 32 1 = c.esp - 60 by bv_omega]
    at hcall

theorem x86InterruptHandler20_restores (g : Gate) (taskSwitch : CFunction 1 15) (c : Cpu)
    (hreturns : (taskSwitch.run (timerEntry g c)).eax = top (timerEntry g c)) :
    (x86InterruptHandler20 g taskSwitch c).toContext = c.toContext := by
  rw [timerEntry_top] at hreturns
  refine timerExit_resumes (w := c.esp - 12) ?_ (by rw [hreturns, BitVec.sub_add_cancel])
  rw [hreturns]
  exact timerEntry_called g taskSwitch c

end Timer

section Handlers

theorem x86InterruptHandler21_restores (g : Gate) (kbdIrqHandler : CFunction 0 15) (c : Cpu) :
    (x86InterruptHandler21 g kbdIrqHandler c).toContext = c.toContext := by
  have hcall := stackHolds_call kbdIrqHandler [] rfl (savedFrame_length _ _).le
    (interrupt_saved g c)
  have hesp : (kbdIrqHandler.run (macroRegsSave (interrupt g c))).esp = c.esp - 60 := by
    simp [kbdIrqHandler.esp_run, macroRegsSave_esp, BitVec.sub_sub]
  simp only [x86InterruptHandler21, cli_interrupt, iret_sti]
  refine iret_restore (w := c.esp - 12) ?_ (by rw [hesp, BitVec.sub_add_cancel])
  rwa [show ∀ p : Dword, p + 4 * BitVec.ofNat 32 0 = p by intro p; bv_omega] at hcall

/-- `syscallHandler` pushes its argument as the timer stub does. -/
theorem syscallHandler_restores (g : Gate) (sysHandler : CFunction 1 15) (c : Cpu) :
    (syscallHandler g sysHandler c).toContext = c.toContext := by
  have hentry : syscallHandler g sysHandler c =
      iret (macroRegsRestore (popEAX (sysHandler.run (timerEntry g c)))) := by
    simp only [syscallHandler, timerEntry, cli_interrupt]
  have hesp : (popEAX (sysHandler.run (timerEntry g c))).esp = c.esp - 60 := by
    rw [popEAX_toContext, sysHandler.esp_run, timerEntry_esp]
    bv_omega
  rw [hentry]
  refine iret_restore (w := c.esp - 12) ?_ (by rw [hesp, BitVec.sub_add_cancel])
  rw [hesp, popEAX_mem]
  exact timerEntry_called g sysHandler c

end Handlers

section Threads

theorem pushWord_fst (ws : List ℕ) (s : Dword × Mem) :
    (ws.foldl pushWord s).1 = s.1 - 4 * BitVec.ofNat 32 ws.length := by
  induction ws generalizing s with
  | nil => simp
  | cons w ws ih =>
    rw [List.foldl_cons, ih, List.length_cons]
    simp only [pushWord]
    bv_omega

theorem pushWord_holds (ws : List ℕ) (s : Dword × Mem) (xs : List Dword)
    (hfit : 4 * (ws.length + xs.length) ≤ 2 ^ 32) (h : StackHolds s.2 s.1 xs) :
    StackHolds (ws.foldl pushWord s).2 (ws.foldl pushWord s).1 ((ws.map (BitVec.ofNat 32)).reverse ++ xs) := by
  induction ws generalizing s xs with
  | nil => exact h
  | cons w ws ih =>
    rw [List.length_cons] at hfit
    have htail := ih (pushWord s w) (BitVec.ofNat 32 w :: xs) (by rw [List.length_cons]; omega)
      (h.pushed (by omega))
    rwa [List.foldl_cons, List.map_cons, List.reverse_cons, List.append_assoc, List.singleton_append]

theorem initialFrame_saved (esp0base eip : Dword) :
    ((initialFrame eip.toNat).map (BitVec.ofNat 32)).reverse ++ [] =
      savedFrame (startContext esp0base eip) 0 := by
  simp [initialFrame, savedFrame, savedRegs, startContext]

theorem threadStack_esp0 (esp0base eip : Dword) (m : Mem) :
    (threadStack esp0base eip m).1 = BitVec.ofNat 32 (initialESP esp0base.toNat eip.toNat) := by
  rw [threadStack, pushWord_fst]
  simp only [initialESP, initialFrame, wadd, wsub, wordSize_eq, stackSize, List.length_cons, List.length_nil]
  bv_omega

theorem threadStack_holds (esp0base eip : Dword) (m : Mem) :
    StackHolds (threadStack esp0base eip m).2 (threadStack esp0base eip m).1
      (savedFrame (startContext esp0base eip) 0) := by
  rw [← initialFrame_saved]
  exact pushWord_holds _ _ [] (by simp [initialFrame]) trivial

theorem threadStack_top (esp0base eip : Dword) (m : Mem) :
    (startContext esp0base eip).esp = (threadStack esp0base eip m).1 + 60 := by
  rw [threadStack, pushWord_fst]
  simp only [startContext, initialFrame, wadd, wordSize_eq, stackSize, List.length_cons, List.length_nil]
  bv_omega

end Threads

/-- One frame serves the stubs and the new threads. An interrupt that comes back to its own stack restores
the interrupted context; a stack pointer from `create_kernel_thread` starts the thread, and one that an
earlier interrupt saved resumes the context of that interrupt, as long as the frame there still stands. -/
theorem stubs_share_frame :
    (∀ (g : Gate) (taskSwitch : CFunction 1 15) (c : Cpu),
      (taskSwitch.run (timerEntry g c)).eax = top (timerEntry g c) →
        (x86InterruptHandler20 g taskSwitch c).toContext = c.toContext) ∧
    (∀ (g : Gate) (kbdIrqHandler : CFunction 0 15) (c : Cpu),
      (x86InterruptHandler21 g kbdIrqHandler c).toContext = c.toContext) ∧
    (∀ (g : Gate) (sysHandler : CFunction 1 15) (c : Cpu),
      (syscallHandler g sysHandler c).toContext = c.toContext) ∧
    (∀ (esp0base eip : Dword) (m : Mem) (c : Cpu),
      c.eax = BitVec.ofNat 32 (initialESP esp0base.toNat eip.toNat) →
      FrameKept (threadStack esp0base eip m).2 c.mem c.eax →
        (timerExit c).toContext = startContext esp0base eip) ∧
    (∀ (g : Gate) (earlier c : Cpu), c.eax = top (timerEntry g earlier) →
      FrameKept (timerEntry g earlier).mem c.mem c.eax →
        (timerExit c).toContext = earlier.toContext) := by
  refine ⟨x86InterruptHandler20_restores, x86InterruptHandler21_restores, syscallHandler_restores,
    fun esp0base eip m c hesp0 hkept => ?_, fun g earlier c hsaved hkept => ?_⟩
  · rw [← threadStack_esp0 esp0base eip m] at hesp0
    refine timerExit_kept (w := 0) hkept ?_ ?_
    · rw [hesp0]
      exact threadStack_holds esp0base eip m
    · rw [hesp0]
      exact threadStack_top esp0base eip m
  · rw [timerEntry_top] at hsaved
    refine timerExit_kept (w := earlier.esp - 12) hkept ?_ ?_
    · rw [hsaved]
      exact timerEntry_frame g earlier
    · rw [hsaved, BitVec.sub_add_cancel]

def sameStack : CFunction 1 15 where
  run := fun c => { c with eax := top c }
  esp_run := fun _ => rfl
  kept_run := fun _ _ _ _ => rfl

/-- A processor on an empty stack at `0x9000`, in the thread's code at `0x100020`. -/
def running : Cpu where
  toContext := { startContext 0x10000 0x100020 with esp := 0x9000 }
  mem := fun _ => 0

/-- `__task_switch` has just returned the stack of the thread that starts at `0x100000`. -/
def switching : Cpu where
  toContext := { running.toContext with eax := 0x101C4 }
  mem := (threadStack 0x10000 0x100000 running.mem).2

theorem stubs_share_frame_running :
    (x86InterruptHandler20 ⟨0x18, 0x2000⟩ sameStack running).toContext = running.toContext ∧
      (timerExit switching).toContext = startContext 0x10000 0x100000 :=
  ⟨stubs_share_frame.1 _ _ _ rfl,
    stubs_share_frame.2.2.2.1 0x10000 0x100000 running.mem switching (by decide) fun _ _ => rfl⟩

end Ktux.InterruptStubs
