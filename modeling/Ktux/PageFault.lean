import Ktux.InterruptStubs
import Ktux.MapPage

set_option autoImplicit false

/-!
# The page fault stub

`x86PageFault` pushes one word and pops three around its C handler, which reads three arguments. The model
loads any selector; a processor would fault again on one that names no segment.
-/
namespace Ktux.PageFault
open Words MemoryLayout PageAllocator KernelMemory MapPage InterruptStubs
open X86Stack hiding load store
open TwoLevelPaging (entryIndex)

/-- `none` is a thread that is left in the handler's endless loop. The debug text reads the page table
entry before and after it is written. -/
def pageFaultHandler (address errorCode _eip : ℕ) (m : Memory) : Option Memory := do
  let pageDir ← loadWord m (element pKernelPageDirectory (virt2Dir address))
  let pageTable := pageDir &&& pdeAddrMask
  let _ ← loadWord m (element pageTable (virt2Page address))
  if errorCode &&& pdeFlagPresent ≠ 0 then none
  else if address < kernelVirtAddr then none
  else if address < vKernelHeapAddr then none
  else if address < vKernelDriverHeap then
    if address < m.kernelHeapEnd then do
      let u ← storeWord (allocated m) (element pageTable (virt2Page address))
        (makePTEphys (allocPage m.pages).1 mappedFlags)
      let _ ← loadWord u (element pageTable (virt2Page address))
      return u
    else none
  else none

def pageFaultEntry (g : Gate) (errorCode cr2 : Dword) (c : Cpu) : Cpu :=
  let c := macroRegsSave (cli (exception g errorCode c))
  let c := { c with eax := cr2 }
  push c.eax c

def rotateWords (c : Cpu) : Cpu :=
  let c := { c with ebx := stackWord 48 c }
  let c := { c with eax := stackWord 52 c }
  let c := setStackWord 48 c.eax c
  let c := { c with eax := stackWord 56 c }
  let c := setStackWord 52 c.eax c
  setStackWord 56 c.ebx c

/-- Three words are dropped and the error code is not. -/
def pageFaultExit (c : Cpu) : Cpu :=
  let c := popEAX (popEAX (popEAX c))
  let c := rotateWords c
  iret (sti (macroRegsRestore c))

def x86PageFault (g : Gate) (handler : CFunction 3 15) (errorCode cr2 : Dword) (c : Cpu) : Cpu :=
  pageFaultExit (handler.run (pageFaultEntry g errorCode cr2 c))

def arguments (c : Cpu) : Dword × Dword × Dword := (top c, stackWord 4 c, stackWord 8 c)

def HandlerReturns (g : Gate) (errorCode cr2 : Dword) (c : Cpu) (m : Memory) : Prop :=
  ∃ u, pageFaultHandler (arguments (pageFaultEntry g errorCode cr2 c)).1.toNat
    (arguments (pageFaultEntry g errorCode cr2 c)).2.1.toNat
    (arguments (pageFaultEntry g errorCode cr2 c)).2.2.toNat m = some u

/-- A fault that the faulting code does not notice: the handler reads the fault's own data, and every register
comes back. -/
def TransparentFault (g : Gate) (handler : CFunction 3 15) (errorCode cr2 : Dword) (c : Cpu)
    (m : Memory) : Prop :=
  HandlerReturns g errorCode cr2 c m →
    arguments (pageFaultEntry g errorCode cr2 c) = (cr2, errorCode, c.eip) ∧
      (x86PageFault g handler errorCode cr2 c).toContext = c.toContext

section Lemmas
variable (g : Gate) (handler : CFunction 3 15) (errorCode cr2 : Dword) (c : Cpu)

theorem pageFaultEntry_holds :
    StackHolds (pageFaultEntry g errorCode cr2 c).mem (pageFaultEntry g errorCode cr2 c).esp
      (cr2 :: savedRegs c.toContext (c.esp - 16)
        [errorCode, c.eip, c.cs.setWidth 32, c.eflags, top c]) := by
  have hfault : StackHolds (exception g errorCode c).mem (exception g errorCode c).esp
      [errorCode, c.eip, c.cs.setWidth 32, c.eflags, top c] :=
    stackHolds_push _ (by simp) (interrupt_holds g c [top c] (by simp) ⟨rfl, trivial⟩)
  have hsaved := (macroRegsSave_holds (by simp) hfault).pushed (w := cr2) (by simp [savedRegs])
  rw [exception_toContext] at hsaved
  simp only [pageFaultEntry, cli_exception]
  exact hsaved

end Lemmas

section Exit
variable {c : Cpu} {ds es fs gs edi esi ebp esp ebx edx ecx eax x y z : Dword}

theorem rotateWords_esp (c : Cpu) : (rotateWords c).esp = c.esp := rfl

theorem rotateWords_mem (c : Cpu) : (rotateWords c).mem =
    X86Stack.store (c.esp + 56) (stackWord 48 c)
      (X86Stack.store (c.esp + 52) (stackWord 56 (setStackWord 48 (stackWord 52 c) c))
        (X86Stack.store (c.esp + 48) (stackWord 52 c) c.mem)) := rfl

theorem rotateWords_holds (h : StackHolds c.mem c.esp
      [ds, es, fs, gs, edi, esi, ebp, esp, ebx, edx, ecx, eax, x, y, z]) :
    StackHolds (rotateWords c).mem (rotateWords c).esp
      [ds, es, fs, gs, edi, esi, ebp, esp, ebx, edx, ecx, eax, y, z, x] := by
  have hwords := h
  obtain ⟨-, -, -, -, -, -, -, -, -, -, -, -, hx, hy, hz, -⟩ := hwords
  simp only [BitVec.ofNat_eq_ofNat, BitVec.add_assoc, BitVec.reduceAdd] at hx hy hz
  have hkept : stackWord 56 (setStackWord 48 (stackWord 52 c) c) = stackWord 56 c :=
    load_store_other (p := c.esp + 56) (a := c.esp + 48) (by bv_omega) (by bv_omega)
  have hrotated := ((h.set (i := 12) (v := y) (by simp) (by simp)).set (i := 13) (v := z) (by simp)
    (by simp)).set (i := 14) (v := x) (by simp) (by simp)
  rw [rotateWords_mem, hkept]
  simp only [stackWord, BitVec.ofNat_eq_ofNat, hx, hy, hz]
  exact hrotated

/-- The stub leaves with the words it found, each one place too low, and `x` and `z` exchanged. -/
theorem pageFaultExit_toContext (h : StackHolds c.mem (c.esp + 12)
      [ds, es, fs, gs, edi, esi, ebp, esp, ebx, edx, ecx, eax, x, y, z]) :
    (pageFaultExit c).toContext =
      { eax := eax, ecx := ecx, edx := edx, ebx := ebx, esp := c.esp + 72, ebp := ebp, esi := esi, edi := edi,
        ds := ds.setWidth 16, es := es.setWidth 16, fs := fs.setWidth 16, gs := gs.setWidth 16,
        cs := z.setWidth 16, eip := y, eflags := x } := by
  have hesp : (popEAX (popEAX (popEAX c))).esp = c.esp + 12 := by
    simp [BitVec.add_assoc]
  have hmem : (popEAX (popEAX (popEAX c))).mem = c.mem := rfl
  rw [← hesp, ← hmem] at h
  rw [pageFaultExit, iret_sti, iret_restore_words (rotateWords_holds h), rotateWords_esp, hesp,
    show c.esp + 12 + 60 = c.esp + 72 by bv_omega]

end Exit

section Stub
variable (g : Gate) (handler : CFunction 3 15) (errorCode cr2 : Dword) (c : Cpu) (m : Memory)

theorem arguments_eq : arguments (pageFaultEntry g errorCode cr2 c) =
    (cr2, c.ds.setWidth 32, c.es.setWidth 32) := by
  obtain ⟨hcr2, hds, hes, -⟩ := pageFaultEntry_holds g errorCode cr2 c
  rw [BitVec.add_assoc] at hes
  exact Prod.ext hcr2 (Prod.ext hds hes)

theorem x86PageFault_toContext : (x86PageFault g handler errorCode cr2 c).toContext =
    { eax := c.eip, ecx := errorCode, edx := c.eax, ebx := c.ecx, esp := c.esp + 4, ebp := c.ebx,
      esi := c.esp - 16, edi := c.ebp, ds := c.fs, es := c.gs, fs := c.edi.setWidth 16,
      gs := c.esi.setWidth 16, cs := (top c).setWidth 16, eip := c.eflags, eflags := c.cs.setWidth 32 } := by
  have hesp : (handler.run (pageFaultEntry g errorCode cr2 c)).esp = c.esp - 68 := by
    rw [handler.esp_run]
    simp [pageFaultEntry, macroRegsSave_esp, cli_exception, exception_toContext, BitVec.sub_sub]
  have hcall := stackHolds_call handler [cr2, c.ds.setWidth 32, c.es.setWidth 32] rfl le_rfl
    (pageFaultEntry_holds g errorCode cr2 c)
  rw [x86PageFault, pageFaultExit_toContext hcall, hesp, show c.esp - 68 + 72 = c.esp + 4 by bv_omega]
  simp

theorem esp_not_restored : (x86PageFault g handler errorCode cr2 c).toContext ≠ c.toContext := by
  intro h
  rw [x86PageFault_toContext] at h
  have hesp : c.esp + 4 = c.esp := congrArg Context.esp h
  bv_omega

theorem pageFault_not_transparent (hreturns : HandlerReturns g errorCode cr2 c m) :
    ¬ TransparentFault g handler errorCode cr2 c m := fun h =>
  esp_not_restored g handler errorCode cr2 c (h hreturns).2

end Stub

/-- The first 4 MB mapped to themselves, an empty table for the heap, and a heap of two pages that have
none. -/
def emptyHeap : Memory where
  phys := fun w =>
    if w = entryIndex directory 0 then 0x5003
    else if w = entryIndex directory 832 then 0x7003
    else if entryIndex 5 0 ≤ w ∧ w < entryIndex 6 0 then (w - entryIndex 5 0) * 4096 + 3
    else 0
  pages := threePages
  vKernelEndAddress := 0xC0100000
  freePageListSize := 0
  pFreeMemoryStart := 0x200000
  numKernelPages := 0
  numKernelTables := 0
  kernelHeapEnd := 0xD0002000
  vHeapMappedLimit := 0xD0002000
  freeBytes := 0

def untouched : CFunction 3 15 where
  run := id
  esp_run := fun _ => rfl
  kept_run := fun _ _ _ _ => rfl

theorem emptyHeap_returns : HandlerReturns ⟨0x18, 0x2000⟩ 2 0xD0001000 running emptyHeap := by
  rw [HandlerReturns, arguments_eq]
  exact Option.isSome_iff_exists.mp (by decide)

theorem pageFault_not_transparent_heap :
    ¬ TransparentFault ⟨0x18, 0x2000⟩ untouched 2 0xD0001000 running emptyHeap :=
  pageFault_not_transparent _ _ _ _ _ _ emptyHeap_returns

/-- A write to the first byte of the heap's second page. The handler is told of error code and instruction
`0x20`, and the thread goes on with the stack pointer four bytes up. -/
theorem pageFault_transparent_fails :
    HandlerReturns ⟨0x18, 0x2000⟩ 2 0xD0001000 running emptyHeap ∧
      arguments (pageFaultEntry ⟨0x18, 0x2000⟩ 2 0xD0001000 running) = (0xD0001000, 0x20, 0x20) ∧
      (x86PageFault ⟨0x18, 0x2000⟩ untouched 2 0xD0001000 running).esp = 0x9004 ∧
      ¬ TransparentFault ⟨0x18, 0x2000⟩ untouched 2 0xD0001000 running emptyHeap := by
  refine ⟨emptyHeap_returns, arguments_eq _ _ _ _, ?_, fun h => ?_⟩
  · have h := congrArg Context.esp
      (x86PageFault_toContext ⟨0x18, 0x2000⟩ untouched 2 0xD0001000 running)
    exact h
  · exact esp_not_restored _ _ _ _ _ (h emptyHeap_returns).2

end Ktux.PageFault
