import Ktux.Scheduler

set_option autoImplicit false

/-!
# The interrupt descriptor table

`init_interrupts` and `set_idt_entry` over any placement of the handlers in memory. The words behind the two
handler lists, which are arrays on the stack, hold anything.
-/
namespace Ktux.InterruptTable
open Words Scheduler

@[simp] def numInts : ℕ := 0xFF
@[simp] def numStdExp : ℕ := 0x13
@[simp] def maxIrqImp : ℕ := 0x15
@[simp] def irq0Int : ℕ := 0x20
@[simp] def irq15Int : ℕ := 0x2F
@[simp] def intSyscall : ℕ := 0x80
@[simp] def dpl0 : ℕ := 0x8E00
@[simp] def dpl3 : ℕ := 0xEE00
@[simp] def errAlreadyInit : ℤ := -2
@[simp] def errBoundsExceed : ℤ := -4

/-- The entry points of `isr.s` that are installed. -/
inductive Handler where
  | x86ExceptionHandler0 | x86ExceptionHandler1 | x86ExceptionHandler2 | x86ExceptionHandler3
  | x86ExceptionHandler4 | x86ExceptionHandler5 | x86ExceptionHandler6 | x86ExceptionHandler7
  | x86ExceptionHandler8 | x86ExceptionHandler9 | x86ExceptionHandlerA | x86ExceptionHandlerB
  | x86ExceptionHandlerC | x86ExceptionHandlerD | x86PageFault | x86ExceptionHandler10
  | x86ExceptionHandler11 | x86ExceptionHandler12 | x86ExceptionHandlerUnimp
  | x86InterruptHandler20 | x86InterruptHandler21 | syscallHandler
  deriving DecidableEq

open Handler

def idtExceptionList : List Handler :=
  [x86ExceptionHandler0, x86ExceptionHandler1, x86ExceptionHandler2, x86ExceptionHandler3,
    x86ExceptionHandler4, x86ExceptionHandler5, x86ExceptionHandler6, x86ExceptionHandler7,
    x86ExceptionHandler8, x86ExceptionHandler9, x86ExceptionHandlerA, x86ExceptionHandlerB,
    x86ExceptionHandlerC, x86ExceptionHandlerD, x86PageFault, x86ExceptionHandlerUnimp,
    x86ExceptionHandler10, x86ExceptionHandler11, x86ExceptionHandler12]

def idtIRQList : List Handler :=
  [x86InterruptHandler20, x86InterruptHandler21, x86ExceptionHandlerUnimp, x86ExceptionHandlerUnimp,
    x86ExceptionHandlerUnimp, x86ExceptionHandlerUnimp, x86ExceptionHandlerUnimp, x86ExceptionHandlerUnimp,
    x86ExceptionHandlerUnimp, x86ExceptionHandlerUnimp, x86ExceptionHandlerUnimp, x86ExceptionHandlerUnimp,
    x86ExceptionHandlerUnimp, x86ExceptionHandlerUnimp, x86ExceptionHandlerUnimp, x86ExceptionHandlerUnimp]

/-- Where the handlers are, and the words from the end of each list on. -/
structure Image where
  address : Handler → ℕ
  behind : List Handler → ℕ → ℕ

/-- Handlers are linked at 32-bit addresses other than NULL. -/
structure Image.Linked (p : Image) : Prop where
  nonnull : ∀ h, p.address h ≠ 0
  word : ∀ h, p.address h < wordSize

structure IdtEntry where
  offsetLow : ℕ
  selector : ℕ
  settings : ℕ
  offsetHigh : ℕ
  deriving DecidableEq

structure Idtr where
  limit : ℕ
  base : ℕ

/-- `idtr` is what the processor was given. For the record stand the results of `set_idt_entry` and the
elements that were read of the two lists. -/
structure Interrupts where
  idtInitialized : Bool
  idt : ℕ → IdtEntry
  idtr : Idtr
  results : List ℤ
  reads : List (List Handler × ℕ)

section Code
variable (p : Image)

def recorded (status : ℤ) (s : Interrupts) : ℤ × Interrupts :=
  (status, { s with results := s.results ++ [status] })

def setIdtEntry (vectorNum intHandler dpl : ℕ) (s : Interrupts) : ℤ × Interrupts :=
  if vectorNum > 0xFF then recorded errBoundsExceed s
  else if intHandler = 0 then recorded errBoundsExceed s
  else
    let settings := if dpl = 0 then dpl0 else dpl3
    recorded 1 { s with
      idt := Function.update s.idt vectorNum
        { offsetLow := intHandler &&& 0xFFFF
          selector := kernelCodeSelector
          settings := settings
          offsetHigh := intHandler >>> 16 } }

/-- `list[i]`, also past the end of the list. -/
def element (list : List Handler) (i : ℕ) : ℕ :=
  match list[i]? with
  | some h => p.address h
  | none => p.behind list i

def readElement (list : List Handler) (i : ℕ) (s : Interrupts) : ℕ × Interrupts :=
  (element p list i, { s with reads := s.reads ++ [(list, i)] })

def unimplemented (_ : ℕ) (s : Interrupts) : ℕ × Interrupts := (p.address x86ExceptionHandlerUnimp, s)

/-- The passes from `i` on of one of the three loops, which return from `init_interrupts` on a status of
zero. -/
def setEntries (base : ℕ) (handler : ℕ → Interrupts → ℕ × Interrupts) :
    ℕ → ℕ → ℤ × Interrupts → Except (ℤ × Interrupts) (ℤ × Interrupts)
  | 0, _, r => .ok r
  | n + 1, i, r =>
    let (intHandler, s) := handler i r.2
    let r := setIdtEntry (base + i) intHandler 0 s
    if r.1 = 0 then .error r else setEntries base handler n (i + 1) r

/-- `sizeof(idt_entry_struct)` is 8. -/
def loadIdtr (idt : ℕ) (s : Interrupts) : Interrupts :=
  if s.idtInitialized then { s with idtr := ⟨0x100 * (8 - 1), idt⟩ } else s

/-- `idt` is the address of the table. -/
def initInterrupts (idt : ℕ) (s : Interrupts) : ℤ × Interrupts :=
  if s.idtInitialized then (errAlreadyInit, s)
  else
    let run : Except (ℤ × Interrupts) (ℤ × Interrupts) := do
      let r ← setEntries 0 (unimplemented p) numInts 0 (1, s)
      let r ← setEntries 0 (readElement p idtExceptionList) numStdExp 0 r
      let r ← setEntries irq0Int (readElement p idtIRQList) maxIrqImp 0 r
      let s := (setIdtEntry intSyscall (p.address syscallHandler) 0 r.2).2
      .ok (r.1, loadIdtr idt { s with idtInitialized := true })
    match run with
    | .ok r => r
    | .error r => r

end Code

section Property

/-- The gate as the processor decodes it: present, for ring 0, a 32-bit interrupt gate to kernel code. -/
structure Routes (e : IdtEntry) (offset : ℕ) : Prop where
  offset : e.offsetHigh * 2 ^ 16 + e.offsetLow = offset
  selector : e.selector = kernelCodeSelector
  present : e.settings / 2 ^ 15 % 2 = 1
  ring0 : e.settings / 2 ^ 13 % 4 = 0
  interruptGate : e.settings / 2 ^ 8 % 32 = 0xE

/-- The handler that vector `v` is meant for. -/
def expected (v : ℕ) : Handler :=
  if v < numStdExp then idtExceptionList.getD v x86ExceptionHandlerUnimp
  else if irq0Int ≤ v ∧ v ≤ irq15Int then idtIRQList.getD (v - irq0Int) x86ExceptionHandlerUnimp
  else if v = intSyscall then syscallHandler
  else x86ExceptionHandlerUnimp

structure Served (p : Image) (s : Interrupts) (v : ℕ) : Prop where
  inside : 8 * v + 7 ≤ s.idtr.limit
  routes : Routes (s.idt v) (p.address (expected v))

structure IdtComplete (p : Image) (r : ℤ × Interrupts) : Prop where
  served : ∀ v < 256, Served p r.2 v
  in_lists : ∀ q ∈ r.2.reads, q.2 < q.1.length
  failure : (∃ status ∈ r.2.results, status ≠ 1) → r.1 ≠ 1 ∧ r.2.idtInitialized = false

end Property

section Loops
variable {handler : ℕ → Interrupts → ℕ × Interrupts} {value : ℕ → ℕ}
  {log : ℕ → List (List Handler × ℕ)}

/-- The gate that `set_idt_entry` writes for ring 0. -/
def gate (offset : ℕ) : IdtEntry where
  offsetLow := offset &&& 0xFFFF
  selector := kernelCodeSelector
  settings := dpl0
  offsetHigh := offset >>> 16

theorem setIdtEntry_status (v offset dpl : ℕ) (s : Interrupts) : (setIdtEntry v offset dpl s).1 ≠ 0 := by
  unfold setIdtEntry recorded
  split_ifs <;> simp

theorem setIdtEntry_fails {v offset : ℕ} (h : ¬ (v ≤ 0xFF ∧ offset ≠ 0)) (s : Interrupts) :
    setIdtEntry v offset 0 s = recorded errBoundsExceed s := by
  unfold setIdtEntry
  by_cases hbound : v > 0xFF
  · rw [if_pos hbound]
  · have hnull : offset = 0 := by
      by_contra hne
      exact h ⟨Nat.le_of_not_gt hbound, hne⟩
    rw [if_neg hbound, if_pos hnull]

theorem setIdtEntry_installs {v offset : ℕ} (hv : v ≤ 0xFF) (hoffset : offset ≠ 0) (s : Interrupts) :
    setIdtEntry v offset 0 s = recorded 1 { s with idt := Function.update s.idt v (gate offset) } := by
  unfold setIdtEntry
  rw [if_neg (Nat.not_lt.mpr hv), if_neg hoffset]
  rfl

theorem setIdtEntry_idt (v offset : ℕ) (s : Interrupts) (w : ℕ) : (setIdtEntry v offset 0 s).2.idt w =
    if w = v ∧ v ≤ 0xFF ∧ offset ≠ 0 then gate offset else s.idt w := by
  by_cases h : v ≤ 0xFF ∧ offset ≠ 0
  · rw [setIdtEntry_installs h.1 h.2]
    by_cases hw : w = v
    · rw [if_pos ⟨hw, h⟩, hw]
      exact Function.update_self _ _ _
    · rw [if_neg fun hwv => hw hwv.1]
      exact Function.update_of_ne hw _ _
  · rw [setIdtEntry_fails h, if_neg fun hwv => h hwv.2]
    rfl

theorem setIdtEntry_reads (v offset : ℕ) (s : Interrupts) :
    (setIdtEntry v offset 0 s).2.reads = s.reads := by
  by_cases h : v ≤ 0xFF ∧ offset ≠ 0
  · rw [setIdtEntry_installs h.1 h.2]
    rfl
  · rw [setIdtEntry_fails h]
    rfl

/-- Pass `i` installs `value i`, and reads the elements `log i` for it. -/
structure Supplies (handler : ℕ → Interrupts → ℕ × Interrupts) (value : ℕ → ℕ)
    (log : ℕ → List (List Handler × ℕ)) : Prop where
  value_eq : ∀ i s, (handler i s).1 = value i
  state_eq : ∀ i s, (handler i s).2 = { s with reads := s.reads ++ log i }

theorem supplies_unimplemented (p : Image) :
    Supplies (unimplemented p) (fun _ => p.address x86ExceptionHandlerUnimp) fun _ => [] := by
  refine ⟨fun _ _ => rfl, fun _ s => ?_⟩
  rw [List.append_nil]
  rfl

theorem supplies_element (p : Image) (list : List Handler) :
    Supplies (readElement p list) (element p list) fun i => [(list, i)] :=
  ⟨fun _ _ => rfl, fun _ _ => rfl⟩

/-- What the loop has written after `n` passes: the last pass for a vector is the only one. -/
theorem setEntries_ok (h : Supplies handler value log) (base n i : ℕ) (r : ℤ × Interrupts) :
    ∃ u, setEntries base handler n i r = .ok u ∧
      u.2.reads = r.2.reads ++ (List.range' i n).flatMap log ∧
      ∀ v, u.2.idt v = if base + i ≤ v ∧ v < base + i + n ∧ v ≤ 0xFF ∧ value (v - base) ≠ 0 then
        gate (value (v - base)) else r.2.idt v := by
  induction n generalizing i r with
  | zero =>
    refine ⟨r, rfl, (List.append_nil _).symm, fun v => ?_⟩
    rw [if_neg (by omega)]
  | succ n ih =>
    obtain ⟨u, hu, hreads, hidt⟩ := ih (i + 1) (setIdtEntry (base + i) (value i) 0 (handler i r.2).2)
    refine ⟨u, ?_, ?_, fun v => ?_⟩
    · have hstatus := setIdtEntry_status (base + i) (value i) 0 (handler i r.2).2
      rw [setEntries]
      dsimp only
      rw [h.value_eq, if_neg hstatus]
      exact hu
    · rw [hreads, setIdtEntry_reads, h.state_eq, List.range'_succ, List.flatMap_cons, List.append_assoc]
    · have hstate : (handler i r.2).2.idt v = r.2.idt v := by rw [h.state_eq]
      rw [hidt, setIdtEntry_idt, hstate]
      by_cases hv : v = base + i
      · subst hv
        rw [if_neg (by omega), Nat.add_sub_cancel_left]
        exact if_congr (by omega) rfl rfl
      · rw [if_neg (by omega : ¬ (v = base + i ∧ _))]
        exact if_congr (by omega) rfl rfl

end Loops

section Result
variable {p : Image} {idt : ℕ} {s : Interrupts}

/-- The table after `init_interrupts`, from the last writer of each vector back. -/
def installed (p : Image) (s : Interrupts) (v : ℕ) : IdtEntry :=
  if v = intSyscall then gate (p.address syscallHandler)
  else if irq0Int ≤ v ∧ v < irq0Int + maxIrqImp ∧ element p idtIRQList (v - irq0Int) ≠ 0 then
    gate (element p idtIRQList (v - irq0Int))
  else if v < numStdExp then gate (element p idtExceptionList v)
  else if v < numInts then gate (p.address x86ExceptionHandlerUnimp)
  else s.idt v

theorem element_exception {i : ℕ} (hi : i < numStdExp) :
    element p idtExceptionList i = p.address (idtExceptionList.getD i x86ExceptionHandlerUnimp) := by
  have hlength : i < idtExceptionList.length := hi
  rw [element, List.getElem?_eq_getElem hlength, List.getD_eq_getElem _ _ hlength]

theorem initInterrupts_eq (idt : ℕ) (hlinked : p.Linked) (hfresh : s.idtInitialized = false) :
    (initInterrupts p idt s).2.idtr = ⟨0x700, idt⟩ ∧ (initInterrupts p idt s).2.idtInitialized = true ∧
      (∀ v, (initInterrupts p idt s).2.idt v = installed p s v) ∧
      (initInterrupts p idt s).2.reads = s.reads ++ (List.range' 0 numStdExp).map (idtExceptionList, ·) ++
        (List.range' 0 maxIrqImp).map (idtIRQList, ·) := by
  obtain ⟨u, hu, hureads, huidt⟩ := setEntries_ok (supplies_unimplemented p) 0 numInts 0 (1, s)
  obtain ⟨w, hw, hwreads, hwidt⟩ := setEntries_ok (supplies_element p idtExceptionList) 0 numStdExp 0 u
  obtain ⟨x, hx, hxreads, hxidt⟩ := setEntries_ok (supplies_element p idtIRQList) irq0Int maxIrqImp 0 w
  have hrun : initInterrupts p idt s = (x.1, loadIdtr idt
      { (setIdtEntry intSyscall (p.address syscallHandler) 0 x.2).2 with idtInitialized := true }) := by
    rw [initInterrupts, hfresh, if_neg Bool.false_ne_true]
    simp only [bind, Except.bind, hu, hw, hx]
  rw [hrun]
  refine ⟨rfl, rfl, fun v => ?_, ?_⟩
  · change (setIdtEntry intSyscall (p.address syscallHandler) 0 x.2).2.idt v = _
    have hsyscall := hlinked.nonnull syscallHandler
    have hunimp := hlinked.nonnull x86ExceptionHandlerUnimp
    have hexception : v < numStdExp → element p idtExceptionList v ≠ 0 := by
      intro hv
      rw [element_exception hv]
      exact hlinked.nonnull _
    rw [setIdtEntry_idt, hxidt, hwidt, huidt, installed]
    refine if_congr ?_ rfl (if_congr ?_ rfl (if_congr ?_ rfl (if_congr ?_ rfl rfl)))
    · exact ⟨fun h => h.1, fun h => ⟨h, by decide, hsyscall⟩⟩
    · rw [irq0Int, maxIrqImp]
      omega
    · rw [numStdExp] at *
      exact ⟨fun h => by omega, fun h => ⟨by omega, by omega, by omega, hexception h⟩⟩
    · rw [numInts]
      exact ⟨fun h => by omega, fun h => ⟨by omega, by omega, by omega, hunimp⟩⟩
  · change (setIdtEntry intSyscall (p.address syscallHandler) 0 x.2).2.reads = _
    have hnone : (List.range' 0 numInts).flatMap (fun _ => ([] : List (List Handler × ℕ))) = [] :=
      List.flatMap_eq_nil_iff.mpr fun _ _ => rfl
    rw [setIdtEntry_reads, hxreads, hwreads, hureads, hnone, List.append_nil, List.map_eq_flatMap,
      List.map_eq_flatMap]

theorem gate_offset {offset : ℕ} : (gate offset).offsetHigh * 2 ^ 16 + (gate offset).offsetLow = offset := by
  change (offset >>> 16) * 2 ^ 16 + (offset &&& (2 ^ 16 - 1)) = offset
  rw [and_lowMask, Nat.shiftRight_eq_div_pow]
  omega

theorem routes_gate_iff {offset target : ℕ} : Routes (gate offset) target ↔ offset = target := by
  constructor
  · intro h
    rw [← h.offset, gate_offset]
  · rintro rfl
    exact ⟨gate_offset, rfl, (by decide : dpl0 / 2 ^ 15 % 2 = 1), (by decide : dpl0 / 2 ^ 13 % 4 = 0),
      (by decide : dpl0 / 2 ^ 8 % 32 = 0xE)⟩

theorem element_irq {v : ℕ} (hlo : irq0Int ≤ v) (hhi : v ≤ irq15Int) :
    element p idtIRQList (v - irq0Int) = p.address (expected v) := by
  have hstd : ¬ v < numStdExp := by
    rw [irq0Int, numStdExp] at *
    omega
  have hlength : v - irq0Int < idtIRQList.length := by
    change v - irq0Int < 16
    rw [irq0Int, irq15Int] at *
    omega
  rw [element, List.getElem?_eq_getElem hlength, expected, if_neg hstd, if_pos ⟨hlo, hhi⟩,
    List.getD_eq_getElem _ _ hlength]

theorem element_behind {v : ℕ} (hv : irq15Int < v) :
    element p idtIRQList (v - irq0Int) = p.behind idtIRQList (v - irq0Int) := by
  have hlength : idtIRQList.length ≤ v - irq0Int := by
    change 16 ≤ v - irq0Int
    rw [irq0Int, irq15Int] at *
    omega
  rw [element, List.getElem?_eq_none hlength]

theorem expected_unimp {v : ℕ} (hstd : numStdExp ≤ v) (hirq : ¬ (irq0Int ≤ v ∧ v ≤ irq15Int))
    (hsys : v ≠ intSyscall) : expected v = x86ExceptionHandlerUnimp := by
  rw [expected, if_neg (Nat.not_lt.mpr hstd), if_neg hirq, if_neg hsys]

/-- The five vectors that the words behind `idtIRQList` are installed for. -/
def Overrun (v : ℕ) : Prop := irq15Int < v ∧ v < irq0Int + maxIrqImp

instance (v : ℕ) : Decidable (Overrun v) := inferInstanceAs (Decidable (_ ∧ _))

theorem Overrun.bounds {v : ℕ} (h : Overrun v) : 0x30 ≤ v ∧ v ≤ 0x34 := ⟨h.1, Nat.le_of_lt_succ h.2⟩

theorem installed_expected (hlinked : p.Linked) {v : ℕ} (hv : v < numInts) (hover : ¬ Overrun v) :
    installed p s v = gate (p.address (expected v)) := by
  unfold installed
  by_cases hsys : v = intSyscall
  · rw [if_pos hsys, hsys]
    rfl
  rw [if_neg hsys]
  by_cases hirq : irq0Int ≤ v ∧ v ≤ irq15Int
  · have hhi : v < irq0Int + maxIrqImp := by
      rw [irq0Int, irq15Int] at hirq
      rw [irq0Int, maxIrqImp]
      omega
    rw [element_irq hirq.1 hirq.2, if_pos ⟨hirq.1, hhi, hlinked.nonnull _⟩]
  have hbeyond : ¬ (irq0Int ≤ v ∧ v < irq0Int + maxIrqImp ∧ element p idtIRQList (v - irq0Int) ≠ 0) := by
    rintro ⟨hlo, hhi, -⟩
    exact hirq ⟨hlo, Nat.le_of_not_lt fun hlt => hover ⟨hlt, hhi⟩⟩
  rw [if_neg hbeyond]
  by_cases hstd : v < numStdExp
  · rw [if_pos hstd, element_exception hstd, expected, if_pos hstd]
  · rw [if_neg hstd, if_pos hv, expected_unimp (Nat.le_of_not_lt hstd) hirq hsys]

theorem installed_overrun {v : ℕ} (hover : Overrun v) : installed p s v =
    gate (if p.behind idtIRQList (v - irq0Int) = 0 then p.address x86ExceptionHandlerUnimp
      else p.behind idtIRQList (v - irq0Int)) := by
  obtain ⟨hlo, hhi⟩ := hover.bounds
  have hirq : irq0Int ≤ v := (by omega : 0x20 ≤ v)
  have hsys : v ≠ intSyscall := (by omega : v ≠ 0x80)
  have hstd : ¬ v < numStdExp := (by omega : ¬ v < 0x13)
  have hints : v < numInts := (by omega : v < 0xFF)
  rw [installed, if_neg hsys, element_behind hover.1, if_neg hstd, if_pos hints]
  split_ifs with hnonnull hnull
  · exact absurd hnull hnonnull.2.2
  · rfl
  · rfl
  · exact absurd ⟨hirq, hover.2, ‹_›⟩ hnonnull

theorem expected_overrun {v : ℕ} (hover : Overrun v) : expected v = x86ExceptionHandlerUnimp := by
  obtain ⟨hlo, hhi⟩ := hover.bounds
  apply expected_unimp
  · rw [numStdExp]
    omega
  · rw [irq0Int, irq15Int]
    omega
  · rw [intSyscall]
    omega

/-- The vectors that are served: the limit covers seven bytes of eight for each gate, and five gates hold
what stands behind `idtIRQList`. -/
theorem served_iff (hlinked : p.Linked) (hfresh : s.idtInitialized = false) {v : ℕ} (hv : v < 256) :
    Served p (initInterrupts p idt s).2 v ↔ v < 0xE0 ∧ (Overrun v →
      p.behind idtIRQList (v - irq0Int) = 0 ∨
      p.behind idtIRQList (v - irq0Int) = p.address x86ExceptionHandlerUnimp) := by
  obtain ⟨hidtr, -, hidt, -⟩ := initInterrupts_eq idt hlinked hfresh
  have hinside : 8 * v + 7 ≤ (initInterrupts p idt s).2.idtr.limit ↔ v < 0xE0 := by
    rw [hidtr]
    change 8 * v + 7 ≤ 0x700 ↔ _
    omega
  have hroutes : v < 0xE0 → (Routes ((initInterrupts p idt s).2.idt v) (p.address (expected v)) ↔
      (Overrun v → p.behind idtIRQList (v - irq0Int) = 0 ∨
        p.behind idtIRQList (v - irq0Int) = p.address x86ExceptionHandlerUnimp)) := by
    intro hlt
    rw [hidt]
    by_cases hover : Overrun v
    · rw [installed_overrun hover, routes_gate_iff, expected_overrun hover]
      split_ifs with hnull
      · exact iff_of_true rfl fun _ => Or.inl hnull
      · exact ⟨fun h _ => Or.inr h, fun h => (h hover).resolve_left hnull⟩
    · rw [installed_expected hlinked (by rw [numInts]; omega) hover, routes_gate_iff]
      exact iff_of_true rfl fun h => absurd h hover
  constructor
  · intro h
    have hlt := hinside.mp h.inside
    exact ⟨hlt, (hroutes hlt).mp h.routes⟩
  · intro h
    exact ⟨hinside.mpr h.1, (hroutes h.1).mpr h.2⟩

/-- The loop over the IRQs reads five elements behind its list. -/
theorem list_overrun (hlinked : p.Linked) (hfresh : s.idtInitialized = false) {v : ℕ} (hover : Overrun v) :
    (idtIRQList, v - irq0Int) ∈ (initInterrupts p idt s).2.reads ∧ idtIRQList.length ≤ v - irq0Int := by
  obtain ⟨-, -, -, hreads⟩ := initInterrupts_eq idt hlinked hfresh
  obtain ⟨hlo, hhi⟩ := hover.bounds
  rw [hreads]
  constructor
  · refine List.mem_append_right _ (List.mem_map.mpr ⟨_, List.mem_range'_1.mpr ⟨Nat.zero_le _, ?_⟩, rfl⟩)
    rw [irq0Int, maxIrqImp]
    omega
  · change 16 ≤ v - irq0Int
    rw [irq0Int]
    omega

/-- The table is complete for no placement of the handlers. The last 32 gates lie behind the limit, and the
others are right where no word behind the list was installed. -/
theorem idtComplete_never (hlinked : p.Linked) (hfresh : s.idtInitialized = false) :
    ¬ IdtComplete p (initInterrupts p idt s) ∧ ∀ v < 256,
      (Served p (initInterrupts p idt s).2 v ↔ v < 0xE0 ∧ (Overrun v →
        p.behind idtIRQList (v - irq0Int) = 0 ∨
        p.behind idtIRQList (v - irq0Int) = p.address x86ExceptionHandlerUnimp)) := by
  refine ⟨fun h => ?_, fun v hv => served_iff hlinked hfresh hv⟩
  have hlast := (served_iff hlinked hfresh (by decide)).mp (h.served 255 (by decide))
  exact absurd hlast.1 (by decide)

end Result

/-- All handlers in one place, with NULL behind the lists. -/
def flatImage : Image where
  address := fun _ => 0xC0100000
  behind := fun _ _ => 0

def staticInterrupts : Interrupts where
  idtInitialized := false
  idt := fun _ => ⟨0, 0, 0, 0⟩
  idtr := ⟨0, 0⟩
  results := []
  reads := []

theorem flatImage_linked : flatImage.Linked where
  nonnull := fun _ => (by decide : 0xC0100000 ≠ 0)
  word := fun _ => (by decide : 0xC0100000 < wordSize)

theorem idtComplete_flatImage :
    ¬ IdtComplete flatImage (initInterrupts flatImage 0xC0200000 staticInterrupts) :=
  (idtComplete_never flatImage_linked rfl).1

/-- The gate of the last vector lies outside the limit, the 17th element of the list of 16 is read, and NULL
is refused without notice. -/
theorem idtComplete_fails : flatImage.Linked ∧
    (initInterrupts flatImage 0xC0200000 staticInterrupts).2.idtr.limit < 8 * 255 + 7 ∧
    (idtIRQList, 16) ∈ (initInterrupts flatImage 0xC0200000 staticInterrupts).2.reads ∧
    ¬ IdtComplete flatImage (initInterrupts flatImage 0xC0200000 staticInterrupts) := by
  have hresult := initInterrupts_eq 0xC0200000 flatImage_linked (s := staticInterrupts) rfl
  refine ⟨flatImage_linked, ?_, (list_overrun (v := 0x30) flatImage_linked rfl (by decide)).1, fun h => ?_⟩
  · rw [hresult.1]
    decide
  · have hlast := (h.served 255 (by decide)).inside
    rw [hresult.1] at hlast
    exact absurd hlast (by decide)

end Ktux.InterruptTable
