import Ktux.InterruptStubs
import Ktux.InterruptTable
import Mathlib.Tactic.IntervalCases

set_option autoImplicit false

/-!
# The register dump

The stack that the exception stubs hand to `exception_handler`, read through `int_stack_regs_struct`. Some
vectors push an error code in front of the number, and the structure has no field for it.
-/
namespace Ktux.RegisterDump
open X86Stack InterruptStubs InterruptTable

structure IntStackRegs where
  ds : Dword
  es : Dword
  fs : Dword
  gs : Dword
  edi : Dword
  esi : Dword
  ebp : Dword
  esp : Dword
  ebx : Dword
  edx : Dword
  ecx : Dword
  eax : Dword
  interruptNum : Dword
  eip : Dword
  cs : Dword
  eflags : Dword

def intStackRegs (m : Mem) (p : Dword) : IntStackRegs where
  ds := load m p
  es := load m (p + 4)
  fs := load m (p + 8)
  gs := load m (p + 12)
  edi := load m (p + 16)
  esi := load m (p + 20)
  ebp := load m (p + 24)
  esp := load m (p + 28)
  ebx := load m (p + 32)
  edx := load m (p + 36)
  ecx := load m (p + 40)
  eax := load m (p + 44)
  interruptNum := load m (p + 48)
  eip := load m (p + 52)
  cs := load m (p + 56)
  eflags := load m (p + 60)

def intUnhandled : ℕ := 0x100

/-- The number that a stub pushes before it jumps to `mainIsrStub`. The others do not. -/
def stubNumber : Handler → Option ℕ
  | .x86ExceptionHandler0 => some 0x0
  | .x86ExceptionHandler1 => some 0x1
  | .x86ExceptionHandler2 => some 0x2
  | .x86ExceptionHandler3 => some 0x3
  | .x86ExceptionHandler4 => some 0x4
  | .x86ExceptionHandler5 => some 0x5
  | .x86ExceptionHandler6 => some 0x6
  | .x86ExceptionHandler7 => some 0x7
  | .x86ExceptionHandler8 => some 0x8
  | .x86ExceptionHandler9 => some 0x9
  | .x86ExceptionHandlerA => some 0xA
  | .x86ExceptionHandlerB => some 0xB
  | .x86ExceptionHandlerC => some 0xC
  | .x86ExceptionHandlerD => some 0xD
  | .x86ExceptionHandler10 => some 0x10
  | .x86ExceptionHandler11 => some 0x11
  | .x86ExceptionHandler12 => some 0x12
  | .x86ExceptionHandlerUnimp => some intUnhandled
  | .x86PageFault | .x86InterruptHandler20 | .x86InterruptHandler21 | .syscallHandler => none

/-- The exceptions for which the processor pushes an error code. -/
def PushesErrorCode (v : ℕ) : Prop := v = 8 ∨ 0xA ≤ v ∧ v ≤ 0xD ∨ v = 0x11

instance (v : ℕ) : Decidable (PushesErrorCode v) := inferInstanceAs (Decidable (_ ∨ _))

def deliver (v : ℕ) (g : Gate) (errorCode : Dword) (c : Cpu) : Cpu :=
  if PushesErrorCode v then exception g errorCode c else interrupt g c

/-- `mainIsrStub` up to its call, from which `exception_handler` does not return. -/
def mainIsrStub (c : Cpu) : Cpu :=
  let c := macroRegsSave c
  let c := { c with eax := c.esp }
  push c.eax c

def x86ExceptionHandler (number : ℕ) (c : Cpu) : Cpu := mainIsrStub (push (BitVec.ofNat 32 number) c)

/-- The structure that `exception_handler` receives when the stub for `number` serves vector `v`. -/
def intRegs (number v : ℕ) (g : Gate) (errorCode : Dword) (c : Cpu) : IntStackRegs :=
  let c := x86ExceptionHandler number (deliver v g errorCode c)
  intStackRegs c.mem (top c)

structure Shows (r : IntStackRegs) (v : ℕ) (k : Context) : Prop where
  interruptNum : r.interruptNum = BitVec.ofNat 32 v
  eip : r.eip = k.eip
  cs : r.cs = k.cs.setWidth 32
  eflags : r.eflags = k.eflags
  eax : r.eax = k.eax
  ebx : r.ebx = k.ebx
  ecx : r.ecx = k.ecx
  edx : r.edx = k.edx
  esi : r.esi = k.esi
  edi : r.edi = k.edi
  ebp : r.ebp = k.ebp
  ds : r.ds = k.ds.setWidth 32
  es : r.es = k.es.setWidth 32
  fs : r.fs = k.fs.setWidth 32
  gs : r.gs = k.gs.setWidth 32

section Lemmas
variable {m : Mem} {p : Dword} {c : Cpu} {ws : List Dword}

theorem mainIsrStub_top (c : Cpu) : top (mainIsrStub c) = (macroRegsSave c).esp := load_store_same _ _ _

theorem mainIsrStub_holds (hfit : 4 * (ws.length + 13) ≤ 2 ^ 32) (h : StackHolds c.mem c.esp ws) :
    StackHolds (mainIsrStub c).mem (top (mainIsrStub c)) (savedRegs c.toContext c.esp ws) := by
  have hsaved := macroRegsSave_holds (by omega) h
  have hpushed := (hsaved.pushed (w := (macroRegsSave c).esp) (by
    simp only [savedRegs, List.length_cons]
    omega)).2
  rw [BitVec.sub_add_cancel] at hpushed
  rw [mainIsrStub_top]
  exact hpushed

theorem intStackRegs_of_holds {ds es fs gs edi esi ebp esp ebx edx ecx eax number eip cs eflags : Dword}
    (h : StackHolds m p
      (ds :: es :: fs :: gs :: edi :: esi :: ebp :: esp :: ebx :: edx :: ecx :: eax :: number :: eip :: cs ::
        eflags :: ws)) :
    intStackRegs m p =
      ⟨ds, es, fs, gs, edi, esi, ebp, esp, ebx, edx, ecx, eax, number, eip, cs, eflags⟩ := by
  obtain ⟨hds, hes, hfs, hgs, hedi, hesi, hebp, hesp, hebx, hedx, hecx, heax, hnumber, heip, hcs,
    heflags, -⟩ := h
  simp only [BitVec.ofNat_eq_ofNat, BitVec.add_assoc, BitVec.reduceAdd] at *
  simp [intStackRegs, hds, hes, hfs, hgs, hedi, hesi, hebp, hesp, hebx, hedx, hecx, heax, hnumber, heip, hcs,
    heflags]

theorem stub_regs {w₁ w₂ w₃ : Dword} (number : ℕ) (hfit : 4 * (ws.length + 17) ≤ 2 ^ 32)
    (h : StackHolds c.mem c.esp (w₁ :: w₂ :: w₃ :: ws)) :
    intStackRegs (x86ExceptionHandler number c).mem (top (x86ExceptionHandler number c)) =
      ⟨c.ds.setWidth 32, c.es.setWidth 32, c.fs.setWidth 32, c.gs.setWidth 32, c.edi, c.esi, c.ebp, c.esp - 4,
        c.ebx, c.edx, c.ecx, c.eax, BitVec.ofNat 32 number, w₁, w₂, w₃⟩ := by
  have hnumber := stackHolds_push (w := BitVec.ofNat 32 number) c (by
    simp only [List.length_cons]
    omega) h
  exact intStackRegs_of_holds (mainIsrStub_holds (by
    simp only [List.length_cons]
    omega) hnumber)

end Lemmas

section Dump
variable (g : Gate) (errorCode : Dword) (c : Cpu)

theorem intRegs_plain (number : ℕ) {v : ℕ} (hv : ¬ PushesErrorCode v) : intRegs number v g errorCode c =
    ⟨c.ds.setWidth 32, c.es.setWidth 32, c.fs.setWidth 32, c.gs.setWidth 32, c.edi, c.esi, c.ebp, c.esp - 16,
      c.ebx, c.edx, c.ecx, c.eax, BitVec.ofNat 32 number, c.eip, c.cs.setWidth 32, c.eflags⟩ := by
  have hframe := interrupt_holds g c [] (by simp) trivial
  have hregs := stub_regs number (by simp) hframe
  rw [interrupt_toContext, BitVec.sub_sub] at hregs
  unfold intRegs deliver
  rw [if_neg hv]
  exact hregs

/-- An error code takes the place of EIP, EIP that of CS and CS that of EFLAGS. -/
theorem intRegs_shifted (number : ℕ) {v : ℕ} (hv : PushesErrorCode v) : intRegs number v g errorCode c =
    ⟨c.ds.setWidth 32, c.es.setWidth 32, c.fs.setWidth 32, c.gs.setWidth 32, c.edi, c.esi, c.ebp, c.esp - 20,
      c.ebx, c.edx, c.ecx, c.eax, BitVec.ofNat 32 number, errorCode, c.eip, c.cs.setWidth 32⟩ := by
  have hframe : StackHolds (exception g errorCode c).mem (exception g errorCode c).esp
      [errorCode, c.eip, c.cs.setWidth 32, c.eflags] :=
    stackHolds_push _ (by simp) (interrupt_holds g c [] (by simp) trivial)
  have hregs := stub_regs number (by simp) hframe
  rw [exception_toContext, BitVec.sub_sub] at hregs
  unfold intRegs deliver
  rw [if_pos hv]
  exact hregs

theorem stubNumber_expected {v : ℕ} (hv : numStdExp ≤ v) :
    stubNumber (expected v) = none ∨ stubNumber (expected v) = some intUnhandled := by
  have hlist : ∀ h ∈ idtIRQList, stubNumber h = none ∨ stubNumber h = some intUnhandled := by decide
  rw [expected, if_neg (Nat.not_lt.mpr hv)]
  split_ifs
  · by_cases hi : v - irq0Int < idtIRQList.length
    · rw [List.getD_eq_getElem _ _ hi]
      exact hlist _ (List.getElem_mem hi)
    · rw [List.getD_eq_default _ _ (Nat.le_of_not_lt hi)]
      exact Or.inr rfl
  · exact Or.inl rfl
  · exact Or.inr rfl

/-- The vectors that are routed to `mainIsrStub` with their own number. -/
theorem ownNumber_iff {v : ℕ} (hv : v < 256) :
    stubNumber (expected v) = some v ↔ v ≤ 0xD ∨ 0x10 ≤ v ∧ v ≤ 0x12 := by
  by_cases hstd : v < numStdExp
  · rw [numStdExp] at hstd
    interval_cases v <;> decide
  · have hother : stubNumber (expected v) ≠ some v := by
      rcases stubNumber_expected (Nat.le_of_not_lt hstd) with h | h
      · rw [h]
        exact (Option.some_ne_none v).symm
      · rw [h, Ne, Option.some.injEq, intUnhandled]
        omega
    rw [numStdExp] at hstd
    exact iff_of_false hother (by omega)

/-- The dump is right for the vectors without an error code. For the others it is right only where the four
words that the processor pushed are equal. -/
theorem shows_iff {v : ℕ} (hv : v ≤ 0xD ∨ 0x10 ≤ v ∧ v ≤ 0x12) :
    stubNumber (expected v) = some v ∧ (Shows (intRegs v v g errorCode c) v c.toContext ↔
      ¬ PushesErrorCode v ∨ errorCode = c.eip ∧ c.eip = c.cs.setWidth 32 ∧ c.cs.setWidth 32 = c.eflags) := by
  refine ⟨(ownNumber_iff (by omega)).mpr hv, ?_⟩
  by_cases hcode : PushesErrorCode v
  · rw [intRegs_shifted g errorCode c v hcode]
    constructor
    · intro h
      exact Or.inr ⟨h.eip, h.cs, h.eflags⟩
    · intro h
      obtain ⟨heip, hcs, heflags⟩ := h.resolve_left (not_not_intro hcode)
      exact ⟨rfl, heip, hcs, heflags, rfl, rfl, rfl, rfl, rfl, rfl, rfl, rfl, rfl, rfl, rfl⟩
  · rw [intRegs_plain g errorCode c v hcode]
    refine iff_of_true ?_ (Or.inl hcode)
    exact ⟨rfl, rfl, rfl, rfl, rfl, rfl, rfl, rfl, rfl, rfl, rfl, rfl, rfl, rfl, rfl⟩

end Dump

theorem shows_divideError : stubNumber (expected 0) = some 0 ∧
    (Shows (intRegs 0 0 ⟨0x18, 0x2000⟩ 0 running) 0 running.toContext ↔ ¬ PushesErrorCode 0 ∨
      0 = running.eip ∧ running.eip = running.cs.setWidth 32 ∧ running.cs.setWidth 32 = running.eflags) :=
  shows_iff ⟨0x18, 0x2000⟩ 0 running (by decide)

/-- A general protection fault with error code 0 at `0x100020`: the dump reports EIP 0. -/
theorem shows_fails : stubNumber (expected 0xD) = some 0xD ∧
    (intRegs 0xD 0xD ⟨0x18, 0x2000⟩ 0 running).eip = 0 ∧ running.eip = 0x100020 ∧
    ¬ Shows (intRegs 0xD 0xD ⟨0x18, 0x2000⟩ 0 running) 0xD running.toContext := by
  have hregs := intRegs_shifted ⟨0x18, 0x2000⟩ 0 running 0xD (v := 0xD) (by decide)
  refine ⟨by decide, by rw [hregs], rfl, fun h => ?_⟩
  have heip := h.eip
  rw [hregs] at heip
  exact absurd heip (by decide)

end Ktux.RegisterDump
