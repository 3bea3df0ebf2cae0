import Ktux.CString
import Ktux.Loops

set_option autoImplicit false

/-!
# The console of the boot loader

`kloaderPrintString` and `kloaderScrollLine` of `klConsoleIO.s`. DS is 0, so that a string and
`textCursorPointer` are addressed by offsets in the first segment.
-/
namespace Ktux.BootConsole
open Words Loops ByteMemory CString

@[simp] def textScreenStart : ℕ := 0xB8000
@[simp] def textNumRows : ℕ := 25
@[simp] def textNumColumns : ℕ := 80
@[simp] def textWhite : ℕ := 7
@[simp] def msgCr : ℕ := 0x0D
@[simp] def msgLf : ℕ := 0x0A

/-- `passes` counts the characters that have been processed. -/
structure State where
  mem : ByteMem
  ax : ℕ
  cx : ℕ
  si : ℕ
  di : ℕ
  textCursorPointer : ℕ
  passes : ℕ

/-- `off` is the offset of `textCursorPointer`, which the last store adds to a DS that points at the screen. -/
def kloaderScrollLine (off : ℕ) (mem : ByteMem) : ByteMem :=
  let mem := copyUp 4 ((textNumRows - 1) * textNumColumns / 2) (textScreenStart + textNumColumns * 2)
    textScreenStart mem
  let mem := blit (textScreenStart + (textNumRows - 1) * textNumColumns * 2) (2 * textNumColumns)
    (fun k => wordByte (256 * textWhite) (k % 2)) mem
  storeWord (textScreenStart + off) ((textNumRows - 1) * textNumColumns * 2) mem

section Instructions

def State.lodsb (s : State) : State :=
  { s with ax := 256 * (s.ax / 256) + (segmentAt 0 s.mem s.si).toNat, si := (s.si + 1) % 2 ^ 16 }

def State.incCx (s : State) : State := { s with cx := (s.cx + 1) % 2 ^ 16 }

def State.putCharacter (dl : UInt8) (s : State) : State :=
  let ax := 256 * dl.toNat + s.ax % 256
  { s with ax := ax, mem := storeWord (textScreenStart + s.di) ax s.mem, di := (s.di + 2) % 2 ^ 16 }

/-- AX is left with the start of the row. DI is on the page, so that the quotient of `div bl` fits in AL. -/
def State.doCr (s : State) : State :=
  { s with ax := s.di - s.di % (textNumColumns * 2), di := s.di - s.di % (textNumColumns * 2) }

def State.doLf (s : State) : State := { s with di := (s.di + textNumColumns * 2) % 2 ^ 16 }

/-- `jge` compares signed words. -/
def State.checkBounds (off : ℕ) (s : State) : State :=
  if textNumRows * textNumColumns * 2 ≤ s.di ∧ s.di < 2 ^ 15 then
    { s with mem := kloaderScrollLine off s.mem, di := (textNumRows - 1) * textNumColumns * 2 }
  else s

def State.checkStringLen (s : State) : State := { s with cx := dec16 s.cx, passes := s.passes + 1 }

end Instructions

def State.notNul (s : State) : Bool := decide (s.ax % 256 ≠ 0)

def getStringLen (fuel : ℕ) (s : State) : Option State :=
  whileLoop State.notNul (fun s => some s.incCx.lodsb) fuel { s with cx := 0 }.lodsb

/-- The comparisons are with AX and not with AL. -/
def characterLoop (off : ℕ) (dl : UInt8) (s : State) : State :=
  let s := s.lodsb
  let s := if s.ax = msgCr then s.doCr else if s.ax = msgLf then s.doLf else s.putCharacter dl
  (s.checkBounds off).checkStringLen

/-- The segment of the screen is still in AX when the first character is read. -/
def State.gotLength (si : ℕ) (s : State) : State :=
  { s with ax := textScreenStart / 16, si := si, di := s.textCursorPointer, passes := 0 }

def State.more (s : State) : Bool := decide (s.cx ≠ 0)

def State.stopPrint (s : State) : State := { s with textCursorPointer := s.di }

def kloaderPrintString (off : ℕ) (dl : UInt8) (fuel : ℕ) (s : State) : Option State :=
  (getStringLen fuel s).bind fun t =>
    (doLoop (fun s => some (characterLoop off dl s)) State.more fuel (t.gotLength s.si)).map State.stopPrint

def TextAt (mem : ByteMem) (si : ℕ) (text : List UInt8) : Prop := ListAt (segmentAt 0 mem) si (text ++ [0])

def IsControl (c : UInt8) : Prop := c = 13 ∨ c = 10

instance (c : UInt8) : Decidable (IsControl c) := inferInstanceAs (Decidable (_ ∨ _))

def target (c : UInt8) (pos : ℕ) : ℕ :=
  if c = 13 then pos - pos % 160 else if c = 10 then pos + 160 else pos + 2

def written (attr c : UInt8) (pos : ℕ) (mem : ByteMem) : ByteMem :=
  if IsControl c then mem else storeWord (textScreenStart + pos) (256 * attr.toNat + c.toNat) mem

def back (pos : ℕ) : ℕ := if pos < 4000 then 0 else 160

/-- `c` goes to the page, which scrolls by one row at its end, and nowhere else. -/
structure Shows (attr c : UInt8) (s t : State) : Prop where
  position : t.di + back (target c s.di) = target c s.di
  cells : ∀ i, i + back (target c s.di) < 4000 →
    t.mem (textScreenStart + i) = written attr c s.di s.mem (textScreenStart + (i + back (target c s.di)))
  outside : ∀ a, a < textScreenStart ∨ textScreenStart + 4000 ≤ a → t.mem a = s.mem a

def first (text : List UInt8) (s : State) : State := { s with cx := text.length }.gotLength s.si

/-- The run from `s` to `t` has one pass for each character, which shows it. -/
structure Printed (off : ℕ) (attr : UInt8) (text : List UInt8) (s t : State) : Prop where
  passes : t.passes = text.length
  final : t = ((characterLoop off attr)^[text.length] s).stopPrint
  each : ∀ i (hi : i < text.length),
    Shows attr text[i] ((characterLoop off attr)^[i] s) ((characterLoop off attr)^[i + 1] s)
  even : t.textCursorPointer % 2 = 0
  inside : t.textCursorPointer < 4000

/-- `text` is printed from the position `pointer` on, wherever it lies and whatever else is in memory. -/
def Prints (off : ℕ) (attr : UInt8) (pointer : ℕ) (text : List UInt8) : Prop :=
  ∀ s, TextAt s.mem s.si text → s.textCursorPointer = pointer →
    ∃ fuel t, kloaderPrintString off attr fuel s = some t ∧ Printed off attr text (first text s) t

/-- A control character is seen at `pos` behind `prev`: behind a line feed, behind a carriage return in the
first two rows, and behind another character if the attribute is 0. -/
def SeenAfter (attr : UInt8) : Option UInt8 → ℕ → Prop
  | none, _ => False
  | some c, pos => c = 10 ∨ c = 13 ∧ pos < 256 ∨ ¬IsControl c ∧ attr = 0

/-- Every control character is seen, and no character takes the position to the end of the page. -/
def Plain (attr : UInt8) : Option UInt8 → ℕ → List UInt8 → Prop
  | _, _, [] => True
  | prev, pos, c :: cs =>
    (IsControl c → SeenAfter attr prev pos) ∧ target c pos < 4000 ∧ Plain attr (some c) (target c pos) cs

section Text
variable {mem mem' : ByteMem} {si : ℕ} {c : UInt8} {text : List UInt8}

theorem TextAt.head (h : TextAt mem si (c :: text)) : segmentAt 0 mem si = c := h.1

theorem TextAt.tail (h : TextAt mem si (c :: text)) : TextAt mem ((si + 1) % 2 ^ 16) text := by
  refine ListAt.of_getElem fun i hi => ?_
  have hnext := ListAt.getElem h.2 hi
  rwa [segmentAt, Nat.mod_add_mod]

theorem TextAt.congr (h : TextAt mem si text) (hsame : ∀ a < textScreenStart, mem' a = mem a) :
    TextAt mem' si text := by
  have hbytes : segmentAt 0 mem' = segmentAt 0 mem := by
    funext offset
    have hoffset : offset % 2 ^ 16 < 2 ^ 16 := Nat.mod_lt _ (by decide)
    exact hsame _ (by rw [textScreenStart]; omega)
  rwa [TextAt, hbytes]

end Text

section Target
variable {c : UInt8}

theorem target_cr (pos : ℕ) : target 13 pos = pos - pos % 160 := rfl

theorem target_lf (pos : ℕ) : target 10 pos = pos + 160 := rfl

theorem target_plain (h : ¬IsControl c) (pos : ℕ) : target c pos = pos + 2 := by
  rw [target, if_neg fun hc => h (Or.inl hc), if_neg fun hc => h (Or.inr hc)]

theorem target_even (c : UInt8) {pos : ℕ} (h : pos % 2 = 0) : target c pos % 2 = 0 := by
  rw [target]
  split_ifs <;> omega

end Target

section Pass
variable {off a : ℕ} {attr dl c : UInt8} {prev : Option UInt8} {text : List UInt8} {s : State}

theorem kloaderScrollLine_low (ha : a < textScreenStart) (mem : ByteMem) :
    kloaderScrollLine off mem a = mem a := by
  rw [textScreenStart] at ha
  simp only [kloaderScrollLine, storeWord, textScreenStart, textNumRows, textNumColumns]
  rw [blit_outside (by omega), blit_outside (by omega), copyUp_outside _ (by decide) (by omega)]

theorem checkBounds_low (ha : a < textScreenStart) (s : State) : (s.checkBounds off).mem a = s.mem a := by
  rw [State.checkBounds]
  split_ifs
  · exact kloaderScrollLine_low ha s.mem
  · rfl

theorem characterLoop_low (ha : a < textScreenStart) (s : State) :
    (characterLoop off dl s).mem a = s.mem a := by
  refine (checkBounds_low ha _).trans ?_
  split_ifs
  · rfl
  · rfl
  · exact blit_outside (Or.inl (Nat.lt_of_lt_of_le ha (Nat.le_add_right _ _)))

theorem characterLoop_cx (s : State) : (characterLoop off dl s).cx = dec16 s.cx := by
  simp only [characterLoop, State.checkBounds]
  split_ifs <;> rfl

theorem characterLoop_passes (s : State) : (characterLoop off dl s).passes = s.passes + 1 := by
  simp only [characterLoop, State.checkBounds]
  split_ifs <;> rfl

theorem characterLoop_si (s : State) : (characterLoop off dl s).si = (s.si + 1) % 2 ^ 16 := by
  simp only [characterLoop, State.checkBounds]
  split_ifs <;> rfl

theorem lodsb_ax_eq {n : ℕ} (hn : n < 256) (hc : segmentAt 0 s.mem s.si = c) :
    s.lodsb.ax = n ↔ s.ax / 256 = 0 ∧ c.toNat = n := by
  have hlow := c.toNat_lt
  change 256 * (s.ax / 256) + (segmentAt 0 s.mem s.si).toNat = n ↔ _
  rw [hc]
  omega

theorem lodsb_low (hc : segmentAt 0 s.mem s.si = c) : s.lodsb.ax % 256 = c.toNat := by
  have hlow := c.toNat_lt
  change (256 * (s.ax / 256) + (segmentAt 0 s.mem s.si).toNat) % 256 = c.toNat
  rw [hc]
  omega

theorem lodsb_doLf_di (h : s.di < 4000) : s.lodsb.doLf.di = target 10 s.di :=
  Nat.mod_eq_of_lt (show s.di + 160 < 2 ^ 16 by omega)

theorem lodsb_putCharacter_di (dl : UInt8) (h : s.di < 4000) : (s.lodsb.putCharacter dl).di = s.di + 2 :=
  Nat.mod_eq_of_lt (show s.di + 2 < 2 ^ 16 by omega)

theorem characterLoop_cases (off : ℕ) (dl : UInt8) (hc : segmentAt 0 s.mem s.si = c) :
    (s.ax / 256 = 0 ∧ c = 13 ∧ characterLoop off dl s = (s.lodsb.doCr.checkBounds off).checkStringLen) ∨
    (s.ax / 256 = 0 ∧ c = 10 ∧ characterLoop off dl s = (s.lodsb.doLf.checkBounds off).checkStringLen) ∨
    ((IsControl c → s.ax / 256 ≠ 0) ∧
      characterLoop off dl s = ((s.lodsb.putCharacter dl).checkBounds off).checkStringLen) := by
  have hcr : s.lodsb.ax = msgCr ↔ s.ax / 256 = 0 ∧ c.toNat = 13 := lodsb_ax_eq (by decide) hc
  have hlf : s.lodsb.ax = msgLf ↔ s.ax / 256 = 0 ∧ c.toNat = 10 := lodsb_ax_eq (by decide) hc
  by_cases h13 : s.lodsb.ax = msgCr
  · obtain ⟨hupper, hchar⟩ := hcr.mp h13
    exact Or.inl ⟨hupper, UInt8.toNat_inj.mp hchar, by rw [characterLoop, if_pos h13]⟩
  · by_cases h10 : s.lodsb.ax = msgLf
    · obtain ⟨hupper, hchar⟩ := hlf.mp h10
      exact Or.inr (Or.inl ⟨hupper, UInt8.toNat_inj.mp hchar, by rw [characterLoop, if_neg h13, if_pos h10]⟩)
    · refine Or.inr (Or.inr ⟨fun hcontrol hupper => ?_, by rw [characterLoop, if_neg h13, if_neg h10]⟩)
      rcases hcontrol with rfl | rfl
      · exact h13 (hcr.mpr ⟨hupper, rfl⟩)
      · exact h10 (hlf.mpr ⟨hupper, rfl⟩)

theorem checkBounds_inside (h : s.di < 4000) : s.checkBounds off = s :=
  if_neg fun hout => Nat.not_le_of_lt h hout.1

/-- The store into `textCursorPointer` goes to the segment of the screen. -/
theorem checkBounds_stray (h : 4000 ≤ s.di) (hdi : s.di < 2 ^ 15) :
    (s.checkBounds off).mem (textScreenStart + off) = 0 := by
  rw [State.checkBounds, if_pos ⟨h, hdi⟩]
  exact storeWord_low _ _ _

/-- Before a pass: the rest of the string, and whether a control character would be seen. -/
structure Reads (attr : UInt8) (prev : Option UInt8) (text : List UInt8) (s : State) : Prop where
  text : TextAt s.mem s.si text
  upper : s.ax / 256 = 0 ↔ SeenAfter attr prev s.di
  even : s.di % 2 = 0
  inside : s.di < 4000

theorem shows_inside {t : State} (hdi : t.di = target c s.di) (hinside : target c s.di < 4000)
    (hmem : t.mem = written attr c s.di s.mem) (hpos : s.di < 4000) (heven : s.di % 2 = 0) :
    Shows attr c s t := by
  have hback : back (target c s.di) = 0 := if_pos hinside
  constructor
  · rw [hdi, hback, Nat.add_zero]
  · intro i _
    rw [hmem, hback, Nat.add_zero]
  · intro a ha
    rw [hmem, written]
    split_ifs
    · rfl
    · exact blit_outside (by rw [textScreenStart] at ha ⊢; omega)

theorem Reads.shown (h : Reads attr prev (c :: text) s) {t : State}
    (hpass : characterLoop off dl s = t.checkStringLen) (hdi : t.di = target c s.di)
    (hinside : target c s.di < 4000) (hmem : t.mem = written attr c s.di s.mem)
    (hseen : t.ax / 256 = 0 ↔ SeenAfter attr (some c) (target c s.di)) :
    Shows attr c s (characterLoop off dl s) ∧ Reads attr (some c) text (characterLoop off dl s) ∧
      (characterLoop off dl s).di = target c s.di := by
  have hend : (characterLoop off dl s).di = target c s.di := by rw [hpass]; exact hdi
  have hpage : (characterLoop off dl s).mem = written attr c s.di s.mem := by rw [hpass]; exact hmem
  refine ⟨shows_inside hend hinside hpage h.inside h.even, ⟨?_, ?_, ?_, hend ▸ hinside⟩, hend⟩
  · rw [characterLoop_si]
    exact h.text.tail.congr fun a ha => characterLoop_low ha s
  · rw [hend, hpass]
    exact hseen
  · rw [hend]
    exact target_even c h.even

/-- A control character that is seen, and any other character, is shown unless the page ends. -/
theorem Reads.step (off : ℕ) (h : Reads attr prev (c :: text) s)
    (hseen : IsControl c → SeenAfter attr prev s.di) (hinside : target c s.di < 4000) :
    Shows attr c s (characterLoop off attr s) ∧
      Reads attr (some c) text (characterLoop off attr s) ∧ (characterLoop off attr s).di = target c s.di := by
  have hpos := h.inside
  rcases characterLoop_cases off attr h.text.head with
    ⟨-, rfl, hpass⟩ | ⟨hupper, rfl, hpass⟩ | ⟨hunseen, hpass⟩
  · rw [checkBounds_inside hinside] at hpass
    refine h.shown hpass rfl hinside rfl ?_
    change (s.di - s.di % 160) / 256 = 0 ↔ _
    simp [SeenAfter, IsControl, target]
  · have hdi := lodsb_doLf_di hpos
    have hax : s.lodsb.doLf.ax = 10 := (lodsb_ax_eq (by decide) h.text.head).mpr ⟨hupper, rfl⟩
    rw [checkBounds_inside (hdi ▸ hinside)] at hpass
    refine h.shown hpass hdi hinside rfl ?_
    rw [hax]
    exact ⟨fun _ => Or.inl rfl, fun _ => rfl⟩
  · have hplain : ¬IsControl c := fun hc => hunseen hc (h.upper.mpr (hseen hc))
    have hdi : (s.lodsb.putCharacter attr).di = target c s.di := by
      rw [target_plain hplain]
      exact lodsb_putCharacter_di attr hpos
    have hax : (s.lodsb.putCharacter attr).ax = 256 * attr.toNat + c.toNat := by
      rw [State.putCharacter, lodsb_low h.text.head]
    rw [checkBounds_inside (hdi ▸ hinside)] at hpass
    refine h.shown hpass hdi hinside ?_ ?_
    · rw [written, if_neg hplain, ← hax]
      rfl
    · have hlow := c.toNat_lt
      have hnot10 : c ≠ 10 := fun hc => hplain (Or.inr hc)
      have hnot13 : c ≠ 13 := fun hc => hplain (Or.inl hc)
      have hattr : attr.toNat = 0 ↔ attr = 0 := UInt8.toNat_inj (b := 0)
      have hupper : (256 * attr.toNat + c.toNat) / 256 = attr.toNat := by omega
      rw [hax, hupper, hattr]
      simp [SeenAfter, hnot10, hnot13, hplain]

/-- A pass that shows its character has seen it and has not scrolled, as the stray store would show. -/
theorem Reads.forced (h : Reads attr prev (c :: text) s) (hoff : 4000 ≤ off)
    (hstray : s.mem (textScreenStart + off) = 0xFF) (hshows : Shows attr c s (characterLoop off attr s)) :
    (IsControl c → SeenAfter attr prev s.di) ∧ target c s.di < 4000 := by
  have hpos := h.inside
  have heven := h.even
  -- where the bounds are checked, the position is still on the page
  have hbound : ∀ t : State, characterLoop off attr s = (t.checkBounds off).checkStringLen → t.di < 2 ^ 15 →
      t.di < 4000 := by
    intro t hpass ht
    by_contra hge
    have hkept := hshows.outside (textScreenStart + off) (Or.inr (Nat.add_le_add_left hoff _))
    rw [hpass, hstray] at hkept
    exact absurd ((checkBounds_stray (Nat.not_lt.mp hge) ht).symm.trans hkept) (by decide)
  rcases characterLoop_cases off attr h.text.head with
    ⟨hupper, rfl, hpass⟩ | ⟨hupper, rfl, hpass⟩ | ⟨hunseen, hpass⟩
  · exact ⟨fun _ => h.upper.mp hupper, Nat.lt_of_le_of_lt (Nat.sub_le _ _) hpos⟩
  · have hdi := lodsb_doLf_di hpos
    have hinside := hbound _ hpass (by rw [hdi, target_lf]; omega)
    rw [hdi] at hinside
    exact ⟨fun _ => h.upper.mp hupper, hinside⟩
  · have hdi := lodsb_putCharacter_di attr hpos
    have hinside := hbound _ hpass (by omega)
    have hposition := hshows.position
    rw [hpass, checkBounds_inside hinside] at hposition
    change (s.lodsb.putCharacter attr).di + _ = _ at hposition
    rw [hdi] at hposition hinside
    have hplain : ¬IsControl c := by
      rintro (rfl | rfl)
      · rw [target_cr] at hposition
        omega
      · rw [target_lf, back] at hposition
        split_ifs at hposition <;> omega
    refine ⟨fun hc => absurd hc hplain, ?_⟩
    rwa [target_plain hplain]

end Pass

section Run
variable {off pointer : ℕ} {attr : UInt8} {prev : Option UInt8} {text : List UInt8} {s t : State}

theorem Reads.each (off : ℕ) (h : Reads attr prev text s) (hplain : Plain attr prev s.di text) :
    (∀ i (hi : i < text.length),
      Shows attr text[i] ((characterLoop off attr)^[i] s) ((characterLoop off attr)^[i + 1] s)) ∧
    ∃ last, Reads attr last [] ((characterLoop off attr)^[text.length] s) := by
  induction text generalizing prev s with
  | nil => exact ⟨fun i hi => absurd hi (Nat.not_lt_zero i), prev, h⟩
  | cons c text ih =>
    obtain ⟨hseen, hinside, hrest⟩ := hplain
    obtain ⟨hshows, hnext, hdi⟩ := h.step off hseen hinside
    rw [← hdi] at hrest
    obtain ⟨heach, hlast⟩ := ih hnext hrest
    refine ⟨fun i hi => ?_, hlast⟩
    cases i with
    | zero => exact hshows
    | succ i => exact heach i (Nat.lt_of_succ_lt_succ hi)

theorem Reads.plain (h : Reads attr prev text s) (hoff : 4000 ≤ off)
    (hstray : s.mem (textScreenStart + off) = 0xFF)
    (heach : ∀ i (hi : i < text.length),
      Shows attr text[i] ((characterLoop off attr)^[i] s) ((characterLoop off attr)^[i + 1] s)) :
    Plain attr prev s.di text := by
  induction text generalizing prev s with
  | nil => trivial
  | cons c text ih =>
    have hfirst : Shows attr c s (characterLoop off attr s) := heach 0 (Nat.succ_pos _)
    obtain ⟨hseen, hinside⟩ := h.forced hoff hstray hfirst
    obtain ⟨-, hnext, hdi⟩ := h.step off hseen hinside
    have hkept := hfirst.outside (textScreenStart + off) (Or.inr (Nat.add_le_add_left hoff _))
    have hrest := ih hnext (hkept.trans hstray) fun i hi => heach (i + 1) (Nat.succ_lt_succ hi)
    rw [hdi] at hrest
    exact ⟨hseen, hinside, hrest⟩

theorem iterate_count {k : ℕ} (hk : k ≤ s.cx) : ((characterLoop off attr)^[k] s).cx + k = s.cx ∧
    ((characterLoop off attr)^[k] s).passes = s.passes + k := by
  induction k with
  | zero => exact ⟨rfl, rfl⟩
  | succ k ih =>
    obtain ⟨hcx, hpasses⟩ := ih (by omega)
    rw [Function.iterate_succ_apply', characterLoop_cx, characterLoop_passes, dec16_of_pos (by omega)]
    omega

theorem getStringLen_run (h : TextAt s.mem s.si text) (hnul : 0 ∉ text) (hcx : s.cx + text.length < 2 ^ 16) :
    ∃ ax si, whileLoop State.notNul (fun s => some s.incCx.lodsb) (text.length + 1) s.lodsb =
      some { s with ax := ax, si := si, cx := s.cx + text.length } := by
  induction text generalizing s with
  | nil =>
    have hstop : s.lodsb.notNul = false := decide_eq_false (not_not.mpr (lodsb_low h.1))
    exact ⟨s.lodsb.ax, s.lodsb.si, whileLoop_stop hstop 0⟩
  | cons c text ih =>
    rw [List.length_cons] at hcx
    have hgo : s.lodsb.notNul = true := by
      refine decide_eq_true fun hzero => hnul ?_
      rw [lodsb_low h.head] at hzero
      exact List.mem_cons.mpr (Or.inl (UInt8.toNat_inj.mp hzero).symm)
    have hcount : s.lodsb.incCx.cx = s.cx + 1 := Nat.mod_eq_of_lt (show s.cx + 1 < 2 ^ 16 by omega)
    obtain ⟨ax, si, hrun⟩ := @ih s.lodsb.incCx h.tail (fun hc => hnul (List.mem_cons_of_mem _ hc))
      (by rw [hcount]; omega)
    refine ⟨ax, si, (whileLoop_next hgo rfl _).trans (hrun.trans ?_)⟩
    rw [hcount, List.length_cons, Nat.add_assoc, Nat.add_comm 1]
    rfl

theorem kloaderPrintString_run (h : TextAt s.mem s.si text) (hnul : 0 ∉ text) (hlen : text.length < 2 ^ 16)
    (hne : text ≠ []) : ∃ fuel, kloaderPrintString off attr fuel s =
      some ((characterLoop off attr)^[text.length] (first text s)).stopPrint := by
  obtain ⟨k, hk⟩ := Nat.exists_eq_succ_of_ne_zero (mt List.length_eq_zero_iff.mp hne)
  obtain ⟨ax, si, hlength⟩ := @getStringLen_run text { s with cx := 0 } h hnul (by rwa [Nat.zero_add])
  have hcx : (first text s).cx = text.length := rfl
  have hloop := doLoop_iterate (c := State.more) (b := fun s => some (characterLoop off attr s))
    (characterLoop off attr) (fun _ => rfl) k (first text s) (fun j hj => ?_) ?_
  · refine ⟨text.length + 1, ?_⟩
    have hstart :
        ({ s with ax := ax, si := si, cx := 0 + text.length } : State).gotLength s.si = first text s := by
      rw [Nat.zero_add]
      rfl
    rw [kloaderPrintString, getStringLen, hlength, Option.bind_some]
    dsimp only at hstart ⊢
    rw [hstart, doLoop_mono (by omega) hloop, hk]
    rfl
  · have hcount := (@iterate_count off attr (first text s) (j + 1) (by omega)).1
    exact decide_eq_true (by omega)
  · have hcount := (@iterate_count off attr (first text s) (k + 1) (by omega)).1
    exact decide_eq_false (by omega)

/-- The count is tested behind the first pass. -/
theorem kloaderPrintString_passes {fuel : ℕ} (h : kloaderPrintString off attr fuel s = some t) :
    0 < t.passes := by
  obtain ⟨u, -, hu⟩ := Option.bind_eq_some_iff.mp h
  obtain ⟨v, hloop, rfl⟩ := Option.map_eq_some_iff.mp hu
  refine (whileLoop_invariant (fun s : State => 0 < s.passes) (fun s u _ _ hpass => ?_) ?_ hloop).1
  · rw [← Option.some.inj hpass, characterLoop_passes]
    exact Nat.succ_pos _
  · rw [characterLoop_passes]
    exact Nat.succ_pos _

theorem first_reads (h : TextAt s.mem s.si text) (heven : s.textCursorPointer % 2 = 0)
    (hinside : s.textCursorPointer < 4000) : Reads attr none text (first text s) :=
  have hupper : ¬(textScreenStart / 16 / 256 = 0) := by decide
  ⟨h, ⟨fun hzero => absurd hzero hupper, fun hseen => hseen.elim⟩, heven, hinside⟩

/-- The string at the start of memory, and what the stray store would change. -/
def alone (text : List UInt8) (pointer : ℕ) : State where
  mem a := if a < textScreenStart then text.getD a 0 else 0xFF
  ax := 0
  cx := 0
  si := 0
  di := 0
  textCursorPointer := pointer
  passes := 0

theorem alone_text (hlen : text.length < 2 ^ 16) :
    TextAt (alone text pointer).mem (alone text pointer).si text := by
  refine ListAt.of_getElem fun i hi => ?_
  rw [List.length_append, List.length_singleton] at hi
  have hsegment : (0 + i) % 2 ^ 16 = i := by omega
  change (if 0 + (0 + i) % 2 ^ 16 < textScreenStart then text.getD (0 + (0 + i) % 2 ^ 16) 0 else 0xFF) = _
  rw [hsegment, Nat.zero_add, if_pos (by rw [textScreenStart]; omega)]
  rw [getElem_concat_zero]

theorem Prints.plain (h : Prints off attr pointer text) (hoff : 4000 ≤ off) (heven : pointer % 2 = 0)
    (hinside : pointer < 4000) (hlen : text.length < 2 ^ 16) : text ≠ [] ∧ Plain attr none pointer text := by
  have htext := @alone_text pointer text hlen
  obtain ⟨fuel, t, hrun, hprinted⟩ := h (alone text pointer) htext rfl
  refine ⟨fun hempty => ?_, ?_⟩
  · have hpasses := kloaderPrintString_passes hrun
    rw [hprinted.passes, hempty] at hpasses
    exact Nat.lt_irrefl 0 hpasses
  · exact (first_reads htext heven hinside).plain hoff (if_neg (Nat.not_lt.mpr (Nat.le_add_right _ _)))
      hprinted.each

theorem Plain.prints (h : Plain attr none pointer text) (hne : text ≠ []) (heven : pointer % 2 = 0)
    (hinside : pointer < 4000) (hnul : 0 ∉ text) (hlen : text.length < 2 ^ 16) :
    Prints off attr pointer text := by
  rintro s htext rfl
  obtain ⟨fuel, hrun⟩ := @kloaderPrintString_run off attr text s htext hnul hlen hne
  obtain ⟨heach, last, hlast⟩ := (first_reads htext heven hinside).each off h
  have hpasses := (@iterate_count off attr (first text s) text.length le_rfl).2
  exact ⟨fuel, _, hrun, hpasses.trans (Nat.zero_add _), rfl, heach, hlast.even, hlast.inside⟩

end Run

theorem kloaderPrintString_prints_iff {off pointer : ℕ} {attr : UInt8} {text : List UInt8} (hoff : 4000 ≤ off)
    (heven : pointer % 2 = 0) (hinside : pointer < 4000) (hnul : 0 ∉ text) (hlen : text.length < 2 ^ 16) :
    Prints off attr pointer text ↔ text ≠ [] ∧ Plain attr none pointer text :=
  ⟨fun h => h.plain hoff heven hinside hlen, fun h => h.2.prints h.1 heven hinside hnul hlen⟩

theorem kloaderPrintString_prints_register : Prints 0x8000 7 0 [69, 65, 88, 32] := by
  refine (kloaderPrintString_prints_iff (by decide) (by decide) (by decide) (by decide) (by decide)).mpr
    ⟨by decide, ?_⟩
  simp [Plain, IsControl, target]

/-- The carriage return of `msgMemChkError` is stored. -/
theorem kloaderPrintString_stores_control : ¬Prints 0x8000 7 0
    [33, 13, 10, 69, 114, 114, 111, 114, 32, 99, 104, 101, 99, 107, 105, 110, 103, 32, 109, 101, 109, 111, 114,
      121, 33] := by
  intro h
  obtain ⟨-, -, -, hseen, -⟩ := h.plain (by decide) (by decide) (by decide) (by decide)
  have hcr := hseen (Or.inl rfl)
  simp [SeenAfter, IsControl] at hcr

end Ktux.BootConsole
