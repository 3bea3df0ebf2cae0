import Ktux.Words

set_option autoImplicit false

/-!
# The interrupt controllers

`pic.c` over two 8259 chips: an initialisation sequence, then a mask register behind each data port, and
the array `irqStatus` that shadows them.
-/
namespace Ktux.Pic

@[simp] def pic1 : ℕ := 0x20
@[simp] def pic2 : ℕ := 0xA0
@[simp] def icw1 : BitVec 8 := 0x11
@[simp] def icw4 : BitVec 8 := 0x01
@[simp] def irq0Int : BitVec 8 := 0x20
@[simp] def irq8Int : BitVec 8 := 0x28
/-- Also the size of `irqStatus`. -/
@[simp] def maxIrqImp : ℕ := 0x15
@[simp] def irqCascade : ℕ := 2
@[simp] def ok : ℕ := 1
@[simp] def error : ℕ := 0

/-- `icw` counts the initialisation words that the data port still takes before it is the mask. -/
structure Chip where
  mask : BitVec 8
  icw : ℕ

/-- A command with bit 4 restarts the chip; bits 1 and 0 say whether a third and a fourth word follow. -/
def Chip.command (value : BitVec 8) (c : Chip) : Chip :=
  if value.getLsbD 4 then
    ⟨0, 1 + (if value.getLsbD 1 then 0 else 1) + (if value.getLsbD 0 then 1 else 0)⟩
  else c

def Chip.data (value : BitVec 8) (c : Chip) : Chip :=
  if c.icw = 0 then { c with mask := value } else { c with icw := c.icw - 1 }

/-- An index of `irqStatus` from `MAX_IRQ_IMP` on is a byte behind the array. -/
structure Irqs where
  master : Chip
  slave : Chip
  irqStatus : ℕ → ℕ
  idtInitialized : Bool

def outportb (port : ℕ) (value : BitVec 8) (s : Irqs) : Irqs :=
  if port = pic1 then { s with master := s.master.command value }
  else if port = pic1 + 1 then { s with master := s.master.data value }
  else if port = pic2 then { s with slave := s.slave.command value }
  else if port = pic2 + 1 then { s with slave := s.slave.data value }
  else s

def inportb (port : ℕ) (s : Irqs) : BitVec 8 :=
  if port = pic1 + 1 then s.master.mask else if port = pic2 + 1 then s.slave.mask else 0

/-- An `int` argument of `outportb` keeps its low byte. -/
def toChar (x : BitVec 32) : BitVec 8 := x.setWidth 8

def promote (x : BitVec 8) : BitVec 32 := x.setWidth 32

def clearBit (port irqNum : ℕ) (s : Irqs) : Irqs :=
  outportb port (toChar (promote (inportb port s) &&& ~~~(1#32 <<< irqNum))) s

def setBit (port irqNum : ℕ) (s : Irqs) : Irqs :=
  outportb port (toChar (promote (inportb port s) ||| 1#32 <<< irqNum)) s

/-- `inportb(PIC1+1) & ~0x04` -/
def openCascade (s : Irqs) : Irqs := clearBit (pic1 + 1) irqCascade s

def setStatus (irqNum x : ℕ) (s : Irqs) : Irqs :=
  { s with irqStatus := Function.update s.irqStatus irqNum x }

/-- `panic` only prints here, and the call goes on. -/
def enableIrq (irqNum : ℕ) (s : Irqs) : ℕ × Irqs :=
  if maxIrqImp < irqNum then (error, s)
  else if irqNum < 8 then (ok, setStatus irqNum 1 (clearBit (pic1 + 1) irqNum s))
  else if irqNum < 15 then (ok, setStatus irqNum 1 (clearBit (pic2 + 1) irqNum (openCascade s)))
  else (ok, setStatus irqNum 1 s)

def disableIrq (irqNum : ℕ) (s : Irqs) : ℕ × Irqs :=
  if maxIrqImp < irqNum then (error, s)
  else if irqNum < 8 then (ok, setStatus irqNum 0 (setBit (pic1 + 1) irqNum s))
  else if irqNum < 15 then (ok, setStatus irqNum 0 (setBit (pic2 + 1) irqNum (openCascade s)))
  else (ok, setStatus irqNum 0 s)

def toggleIrq (irqNum : ℕ) (s : Irqs) : ℕ × Irqs :=
  if s.idtInitialized = false then (error, s)
  else if maxIrqImp < irqNum then (error, s)
  else (ok, if s.irqStatus irqNum = 0 then (enableIrq irqNum s).2 else (disableIrq irqNum s).2)

def setIrqs (mask825921 mask8259a1 : BitVec 32) (s : Irqs) : Irqs :=
  if s.idtInitialized = false then s
  else
    let mask825921 := if mask8259a1.slt 0xFF then mask825921 &&& ~~~0x04 else mask825921
    outportb (pic2 + 1) (toChar mask8259a1) (outportb (pic1 + 1) (toChar mask825921) s)

def remapPics (irq0Int irq8Int : BitVec 8) (s : Irqs) : Irqs :=
  let s := outportb pic2 icw1 (outportb pic1 icw1 s)
  let s := outportb (pic2 + 1) irq8Int (outportb (pic1 + 1) irq0Int s)
  let s := outportb (pic2 + 1) 2 (outportb (pic1 + 1) 4 s)
  outportb (pic2 + 1) icw4 (outportb (pic1 + 1) icw4 s)

def initPic (s : Irqs) : Irqs :=
  let s := setIrqs (~~~0) (~~~0) (remapPics irq0Int irq8Int s)
  { s with irqStatus := fun i => if i < maxIrqImp then 0 else s.irqStatus i }

inductive Call where
  | enable (irqNum : ℕ)
  | disable (irqNum : ℕ)
  | toggle (irqNum : ℕ)
  deriving DecidableEq

def Call.irqNum : Call → ℕ
  | .enable n => n
  | .disable n => n
  | .toggle n => n

def Call.run : Call → Irqs → ℕ × Irqs
  | .enable n => enableIrq n
  | .disable n => disableIrq n
  | .toggle n => toggleIrq n

/-- The mask bit of a line, on its own chip. -/
def masked (s : Irqs) (n : ℕ) : Bool :=
  if n < 8 then s.master.mask.getLsbD n else s.slave.mask.getLsbD (n - 8)

structure CallSound (s : Irqs) (call : Call) : Prop where
  line : ((call.run s).1 = error ∧ (call.run s).2.master.mask = s.master.mask ∧
    (call.run s).2.slave.mask = s.slave.mask ∧ (call.run s).2.irqStatus = s.irqStatus) ∨ call.irqNum < 16
  agrees : ∀ n < 16, n ≠ irqCascade → ((call.run s).2.irqStatus n = 1 ↔ masked (call.run s).2 n = false)
  others : ∀ n < 16, n ≠ irqCascade → n ≠ call.irqNum → masked (call.run s).2 n = masked s n
  cascade : (∃ n < 16, 8 ≤ n ∧ masked (call.run s).2 n = false) → masked (call.run s).2 irqCascade = false

def BooksAgree : Irqs → List Call → Prop
  | _, [] => True
  | s, call :: calls => CallSound s call ∧ BooksAgree (call.run s).2 calls

/-- A line of the master, a line that is refused, or a line of the slave that is to be off. -/
def Kept : Call → Prop
  | .enable n => n < 8 ∨ maxIrqImp < n
  | .disable n => n < 16 ∨ maxIrqImp < n
  | .toggle n => n < 8 ∨ maxIrqImp < n

section Bits
variable (x : BitVec 8) {n k : ℕ}

theorem shifted_one (hk : k < 8) : (1#32 <<< n).getLsbD k = decide (k = n) := by
  have hk32 : k < 32 := by omega
  simp only [BitVec.getLsbD_shiftLeft, BitVec.getLsbD_one, hk32, decide_true, Bool.true_and]
  by_cases h : k < n
  · simp [h, h.ne]
  · by_cases he : k = n
    · simp [he]
    · have hsub : k - n ≠ 0 := by omega
      simp [h, he, hsub]

theorem clear_bit (hk : k < 8) :
    (toChar (promote x &&& ~~~(1#32 <<< n))).getLsbD k = (x.getLsbD k && !decide (k = n)) := by
  have hk32 : k < 32 := by omega
  simp only [toChar, promote, BitVec.getLsbD_setWidth, BitVec.getLsbD_and, BitVec.getLsbD_not,
    shifted_one hk, hk, hk32, decide_true, Bool.true_and]

theorem set_bit (hk : k < 8) :
    (toChar (promote x ||| 1#32 <<< n)).getLsbD k = (x.getLsbD k || decide (k = n)) := by
  have hk32 : k < 32 := by omega
  simp only [toChar, promote, BitVec.getLsbD_setWidth, BitVec.getLsbD_or, shifted_one hk, hk, hk32, decide_true,
    Bool.true_and]

/-- A shift by 8 or more leaves the byte alone. -/
theorem clear_high (hn : 8 ≤ n) : toChar (promote x &&& ~~~(1#32 <<< n)) = x := by
  refine BitVec.eq_of_getLsbD_eq fun k hk => ?_
  have hne : k ≠ n := by omega
  rw [clear_bit x hk]
  simp [hne]

theorem set_high (hn : 8 ≤ n) : toChar (promote x ||| 1#32 <<< n) = x := by
  refine BitVec.eq_of_getLsbD_eq fun k hk => ?_
  have hne : k ≠ n := by omega
  rw [set_bit x hk]
  simp [hne]

end Bits

/-- What holds between calls: the slave is closed, the cascade line open, and the master's lines are as
`irqStatus` says. -/
structure Booked (s : Irqs) : Prop where
  ready : s.idtInitialized = true
  master_icw : s.master.icw = 0
  slave_icw : s.slave.icw = 0
  slave : s.slave.mask = 0xFF
  low : ∀ n < 8, n ≠ irqCascade → s.irqStatus n = if s.master.mask.getLsbD n then 0 else 1
  high : ∀ n < 16, 8 ≤ n → s.irqStatus n = 0
  cascade : s.master.mask.getLsbD irqCascade = false

theorem remapPics_eq (s : Irqs) :
    remapPics irq0Int irq8Int s = { s with master := ⟨0, 0⟩, slave := ⟨0, 0⟩ } := rfl

theorem initPic_eq {s : Irqs} (h : s.idtInitialized = true) : initPic s =
    { s with
      master := ⟨0xFB, 0⟩
      slave := ⟨0xFF, 0⟩
      irqStatus := fun i => if i < maxIrqImp then 0 else s.irqStatus i } := by
  have hready : ({ s with master := ⟨0, 0⟩, slave := ⟨0, 0⟩ } : Irqs).idtInitialized ≠ false := by
    simp [h]
  have hslt : BitVec.slt (~~~0 : BitVec 32) 0xFF = true := by decide
  have hmaster : toChar (~~~0 &&& ~~~0x04) = 0xFB := by decide
  have hslave : toChar (~~~0) = 0xFF := by decide
  rw [initPic, remapPics_eq, setIrqs, if_neg hready]
  simp only [hslt, if_true, hmaster, hslave]
  rfl

theorem initPic_booked {s : Irqs} (h : s.idtInitialized = true) : Booked (initPic s) := by
  have hmask : ∀ n < 8, n ≠ irqCascade → (0xFB : BitVec 8).getLsbD n = true := by decide
  rw [initPic_eq h]
  refine ⟨h, rfl, rfl, rfl, fun n hn hne => ?_, fun n hn _ => ?_,
    show (0xFB : BitVec 8).getLsbD 2 = false by decide⟩
  · dsimp only
    rw [hmask n hn hne, if_pos rfl, if_pos (by rw [maxIrqImp]; omega)]
  · exact if_pos (by rw [maxIrqImp]; omega)

section Calls
variable {s : Irqs} {n : ℕ}

/-- After its initialisation words the master takes a byte as its mask. -/
theorem Booked.master_data (h : Booked s) (value : BitVec 8) : s.master.data value = ⟨value, 0⟩ := by
  rw [Chip.data, if_pos h.master_icw, h.master_icw]

theorem clearBit_master (h : Booked s) (n : ℕ) : clearBit (pic1 + 1) n s = { s with
    master := ⟨toChar (promote s.master.mask &&& ~~~(1#32 <<< n)), 0⟩ } := by
  rw [← h.master_data]
  rfl

theorem setBit_master (h : Booked s) (n : ℕ) : setBit (pic1 + 1) n s = { s with
    master := ⟨toChar (promote s.master.mask ||| 1#32 <<< n), 0⟩ } := by
  rw [← h.master_data]
  rfl

/-- The cascade line is open already, and a shift by the whole line number misses the slave's byte. -/
theorem slave_untouched (h : Booked s) (hn : 8 ≤ n) :
    clearBit (pic2 + 1) n (openCascade s) = s ∧ setBit (pic2 + 1) n (openCascade s) = s := by
  have hopen : openCascade s = s := by
    rw [openCascade, clearBit_master h]
    have hmask : toChar (promote s.master.mask &&& ~~~(1#32 <<< irqCascade)) = s.master.mask := by
      refine BitVec.eq_of_getLsbD_eq fun k hk => ?_
      rw [clear_bit _ hk]
      by_cases hk2 : k = irqCascade
      · rw [hk2, h.cascade, Bool.false_and]
      · rw [decide_eq_false hk2, Bool.not_false, Bool.and_true]
    rw [hmask, ← h.master_icw]
  have hdata : s.slave.data s.slave.mask = s.slave := by
    rw [Chip.data, if_pos h.slave_icw]
  have hport : outportb (pic2 + 1) s.slave.mask s = { s with slave := s.slave.data s.slave.mask } := rfl
  rw [hdata] at hport
  have hin : inportb (pic2 + 1) s = s.slave.mask := rfl
  rw [hopen, clearBit, setBit, hin, clear_high _ hn, set_high _ hn, hport]
  exact ⟨rfl, rfl⟩

theorem enableIrq_high (h : Booked s) (hn : 8 ≤ n) (hmax : n ≤ maxIrqImp) :
    enableIrq n s = (ok, setStatus n 1 s) := by
  rw [enableIrq, if_neg (Nat.not_lt.mpr hmax), if_neg (Nat.not_lt.mpr hn), (slave_untouched h hn).1, ite_self]

theorem disableIrq_high (h : Booked s) (hn : 8 ≤ n) (hmax : n ≤ maxIrqImp) :
    disableIrq n s = (ok, setStatus n 0 s) := by
  rw [disableIrq, if_neg (Nat.not_lt.mpr hmax), if_neg (Nat.not_lt.mpr hn), (slave_untouched h hn).2, ite_self]

/-- From `s` to `u` line `n` of the master changes, in its mask and in `irqStatus` alike. -/
structure LineSet (n : ℕ) (s u : Irqs) : Prop where
  ready : u.idtInitialized = s.idtInitialized
  icw : u.master.icw = 0
  slave : u.slave = s.slave
  others : ∀ k < 8, k ≠ n → u.master.mask.getLsbD k = s.master.mask.getLsbD k
  status : u.irqStatus = Function.update s.irqStatus n (if u.master.mask.getLsbD n then 0 else 1)

theorem not_maxIrqImp_lt (hn : n < 8) : ¬ maxIrqImp < n := by
  rw [maxIrqImp]
  omega

theorem lineSet_mask {value : BitVec 8} {x : ℕ}
    (hothers : ∀ k < 8, k ≠ n → value.getLsbD k = s.master.mask.getLsbD k)
    (hx : (if value.getLsbD n then 0 else 1) = x) :
    LineSet n s (setStatus n x { s with master := ⟨value, 0⟩ }) := by
  subst hx
  exact ⟨rfl, rfl, rfl, hothers, rfl⟩

theorem enableIrq_low (h : Booked s) (hn : n < 8) : LineSet n s (enableIrq n s).2 := by
  rw [enableIrq, if_neg (not_maxIrqImp_lt hn), if_pos hn, clearBit_master h]
  refine lineSet_mask (fun k hk hne => ?_) ?_
  · rw [clear_bit _ hk, decide_eq_false hne, Bool.not_false, Bool.and_true]
  · simp [clear_bit _ hn]

theorem disableIrq_low (h : Booked s) (hn : n < 8) : LineSet n s (disableIrq n s).2 := by
  rw [disableIrq, if_neg (not_maxIrqImp_lt hn), if_pos hn, setBit_master h]
  refine lineSet_mask (fun k hk hne => ?_) ?_
  · rw [set_bit _ hk, decide_eq_false hne, Bool.or_false]
  · simp [set_bit _ hn]

theorem LineSet.booked {u : Irqs} (hu : LineSet n s u) (h : Booked s) (hn : n < 8) (hne : n ≠ irqCascade) :
    Booked u := by
  refine ⟨hu.ready.trans h.ready, hu.icw, ?_, ?_, fun k hk hk2 => ?_, fun k hk hk8 => ?_, ?_⟩
  · rw [hu.slave]
    exact h.slave_icw
  · rw [hu.slave]
    exact h.slave
  · rw [hu.status]
    by_cases hkn : k = n
    · rw [hkn, Function.update_self]
    · rw [Function.update_of_ne hkn, hu.others k hk hkn, h.low k hk hk2]
  · rw [hu.status, Function.update_of_ne (by omega)]
    exact h.high k hk hk8
  · rw [hu.others irqCascade (by decide) hne.symm]
    exact h.cascade

theorem setStatus_booked (h : Booked s) (hn : 8 ≤ n) : Booked (setStatus n 0 s) := by
  refine ⟨h.ready, h.master_icw, h.slave_icw, h.slave, fun k hk hk2 => ?_, fun k hk hk8 => ?_, h.cascade⟩
  · change Function.update s.irqStatus n 0 k = _
    rw [Function.update_of_ne (by omega)]
    exact h.low k hk hk2
  · change Function.update s.irqStatus n 0 k = 0
    by_cases hkn : k = n
    · rw [hkn, Function.update_self]
    · rw [Function.update_of_ne hkn]
      exact h.high k hk hk8

theorem Booked.masked_slave (h : Booked s) {k : ℕ} (hk : k < 16) (hk8 : 8 ≤ k) : masked s k = true := by
  have hones : ∀ j < 8, (0xFF : BitVec 8).getLsbD j = true := by decide
  rw [masked, if_neg (Nat.not_lt.mpr hk8), h.slave]
  exact hones _ (by omega)

theorem Booked.agrees (h : Booked s) {k : ℕ} (hk : k < 16) (hne : k ≠ irqCascade) :
    s.irqStatus k = 1 ↔ masked s k = false := by
  by_cases hk8 : k < 8
  · rw [h.low k hk8 hne, masked, if_pos hk8]
    cases s.master.mask.getLsbD k
    · simp
    · simp
  · rw [h.high k hk (by omega), h.masked_slave hk (by omega)]
    simp

end Calls

section Steps
variable {s : Irqs} {call : Call}

/-- A call that keeps the books and the other lines is sound. -/
theorem Booked.sound (hu : Booked (call.run s).2)
    (hline : (call.run s) = (error, s) ∨ call.irqNum < 16)
    (hothers : ∀ n < 16, n ≠ call.irqNum → masked (call.run s).2 n = masked s n) : CallSound s call := by
  refine ⟨hline.imp_left fun heq => ?_, fun n hn hne => hu.agrees hn hne, fun n hn _ hne => hothers n hn hne,
    fun _ => hu.cascade⟩
  rw [heq]
  exact ⟨rfl, rfl, rfl, rfl⟩

theorem LineSet.masked_eq {u : Irqs} {n k : ℕ} (hu : LineSet n s u) (hne : k ≠ n) :
    masked u k = masked s k := by
  unfold masked
  split_ifs with hk
  · exact hu.others k hk hne
  · rw [hu.slave]

theorem LineSet.sound (call : Call) (hu : LineSet call.irqNum s (call.run s).2) (h : Booked s)
    (hn : call.irqNum < 8) (hne : call.irqNum ≠ irqCascade) : Booked (call.run s).2 ∧ CallSound s call := by
  have hbooked := hu.booked h hn hne
  exact ⟨hbooked, hbooked.sound (Or.inr (by omega)) fun k _ hk => hu.masked_eq hk⟩

theorem Booked.refused (h : Booked s) (call : Call) (hrun : call.run s = (error, s)) :
    Booked (call.run s).2 ∧ CallSound s call := by
  have hbooked : Booked (call.run s).2 := by rwa [hrun]
  exact ⟨hbooked, hbooked.sound (Or.inl hrun) fun k _ _ => by rw [hrun]⟩

theorem toggleIrq_eq (h : Booked s) {n : ℕ} (hmax : n ≤ maxIrqImp) : toggleIrq n s =
    (ok, if s.irqStatus n = 0 then (enableIrq n s).2 else (disableIrq n s).2) := by
  rw [toggleIrq, if_neg (by rw [h.ready]; decide), if_neg (Nat.not_lt.mpr hmax)]

theorem Kept.sound (hkept : Kept call) (h : Booked s) (hne : call.irqNum ≠ irqCascade) :
    Booked (call.run s).2 ∧ CallSound s call := by
  cases call with
  | enable n =>
    rcases hkept with hn | hmax
    · exact LineSet.sound (.enable n) (enableIrq_low h hn) h hn hne
    · exact h.refused (.enable n) (if_pos hmax)
  | disable n =>
    rcases hkept with hn | hmax
    · by_cases hn8 : n < 8
      · exact LineSet.sound (.disable n) (disableIrq_low h hn8) h hn8 hne
      · have hrun : (Call.disable n).run s = (ok, setStatus n 0 s) :=
          disableIrq_high h (by omega) (by rw [maxIrqImp]; omega)
        have hbooked : Booked ((Call.disable n).run s).2 := by
          rw [hrun]
          exact setStatus_booked h (by omega)
        exact ⟨hbooked, hbooked.sound (Or.inr hn) fun k _ _ => by rw [hrun]; rfl⟩
    · exact h.refused (.disable n) (if_pos hmax)
  | toggle n =>
    rcases hkept with hn | hmax
    · have hset : LineSet n s ((Call.toggle n).run s).2 := by
        change LineSet n s (toggleIrq n s).2
        rw [toggleIrq_eq h (by rw [maxIrqImp]; omega)]
        dsimp only
        split_ifs
        · exact enableIrq_low h hn
        · exact disableIrq_low h hn
      exact LineSet.sound (.toggle n) hset h hn hne
    · refine h.refused (.toggle n) ?_
      change toggleIrq n s = _
      rw [toggleIrq, if_neg (by rw [h.ready]; decide), if_pos hmax]

theorem CallSound.line_of_ok (hsound : CallSound s call) {u : Irqs} (hrun : call.run s = (ok, u)) :
    call.irqNum < 16 := by
  rcases hsound.line with ⟨herror, _⟩ | hline
  · rw [hrun] at herror
    exact absurd herror (show ok ≠ error by decide)
  · exact hline

/-- `irqStatus` calls a slave line enabled that the slave's mask still closes. -/
theorem CallSound.not_enabled {n : ℕ} (hsound : CallSound s call) (h : Booked s) (hn : call.irqNum = n)
    (hn8 : 8 ≤ n) (hrun : call.run s = (ok, setStatus n 1 s)) : False := by
  have hline : n < 16 := hn ▸ hsound.line_of_ok hrun
  have hagrees := (hsound.agrees n hline (by rw [irqCascade]; omega)).mp (by
    rw [hrun]
    exact Function.update_self _ _ _)
  rw [hrun] at hagrees
  have hclosed := h.masked_slave hline hn8
  exact absurd (hclosed.symm.trans hagrees) (by decide)

theorem CallSound.kept (hsound : CallSound s call) (h : Booked s) : Kept call := by
  by_contra hnot
  cases call with
  | enable n =>
    simp only [Kept, not_or, Nat.not_lt] at hnot
    exact hsound.not_enabled h rfl hnot.1 (enableIrq_high h hnot.1 hnot.2)
  | disable n =>
    simp only [Kept, not_or, Nat.not_lt] at hnot
    have hrun : (Call.disable n).run s = (ok, setStatus n 0 s) := disableIrq_high h (by omega) hnot.2
    exact absurd (hsound.line_of_ok hrun) (Nat.not_lt.mpr hnot.1)
  | toggle n =>
    simp only [Kept, not_or, Nat.not_lt] at hnot
    have hrun : (Call.toggle n).run s = (ok, setStatus n 1 s) ∨
        (Call.toggle n).run s = (ok, setStatus n 0 s) ∧ 16 ≤ n := by
      change toggleIrq n s = _ ∨ toggleIrq n s = _ ∧ _
      rw [toggleIrq_eq h hnot.2, enableIrq_high h hnot.1 hnot.2, disableIrq_high h hnot.1 hnot.2]
      by_cases hz : s.irqStatus n = 0
      · exact Or.inl (by rw [if_pos hz])
      · refine Or.inr ⟨by rw [if_neg hz], ?_⟩
        by_contra hlow
        exact hz (h.high n (by omega) hnot.1)
    rcases hrun with hrun | ⟨hrun, hhigh⟩
    · exact hsound.not_enabled h rfl hnot.1 hrun
    · exact absurd (hsound.line_of_ok hrun) (Nat.not_lt.mpr hhigh)

theorem booksAgree_from (h : Booked s) {calls : List Call}
    (hne : ∀ call ∈ calls, call.irqNum ≠ irqCascade) : BooksAgree s calls ↔ ∀ call ∈ calls, Kept call := by
  induction calls generalizing s with
  | nil => simp [BooksAgree]
  | cons call calls ih =>
    have hcall := hne call (List.mem_cons_self ..)
    have hrest : Kept call → (BooksAgree (call.run s).2 calls ↔ ∀ c ∈ calls, Kept c) := fun hkept =>
      ih (hkept.sound h hcall).1 fun c hc => hne c (List.mem_cons_of_mem _ hc)
    rw [BooksAgree, List.forall_mem_cons]
    constructor
    · rintro ⟨hsound, hbooks⟩
      have hkept := hsound.kept h
      exact ⟨hkept, (hrest hkept).mp hbooks⟩
    · rintro ⟨hkept, hall⟩
      exact ⟨(hkept.sound h hcall).2, (hrest hkept).mpr hall⟩

end Steps

/-- After `init_pic` the books agree over a run exactly when no call enables or toggles a slave line or
passes a number between the last line and `MAX_IRQ_IMP`. -/
theorem booksAgree_iff {s : Irqs} (h : s.idtInitialized = true) {calls : List Call}
    (hne : ∀ call ∈ calls, call.irqNum ≠ irqCascade) :
    BooksAgree (initPic s) calls ↔ ∀ call ∈ calls, Kept call :=
  booksAgree_from (initPic_booked h) hne

def afterInitInterrupts : Irqs := ⟨⟨0, 0⟩, ⟨0, 0⟩, fun _ => 0, true⟩

theorem booksAgree_timer : BooksAgree (initPic afterInitInterrupts) [.enable 0, .toggle 1, .disable 30] ↔
    ∀ call ∈ [Call.enable 0, .toggle 1, .disable 30], Kept call :=
  booksAgree_iff rfl (by decide)

/-- Line 8 is marked enabled, and the slave stays closed. -/
theorem booksAgree_fails : ¬ BooksAgree (initPic afterInitInterrupts) [.enable 8] := by
  intro hbooks
  have hkept := hbooks.1.kept (initPic_booked rfl)
  rcases hkept with hlow | hhigh
  · exact absurd hlow (by decide)
  · exact absurd hhigh (by decide)

end Ktux.Pic
