import Ktux.ConsoleBounds
import Ktux.Terminals
import Mathlib.Tactic.IntervalCases

set_option autoImplicit false

/-!
# The consoles are terminals

Each virtual console is a text terminal of its own. What it shows depends on the characters written to it and
not on what is written to the others in between.
-/
namespace Ktux.ConsoleTerminals
open Words Runs ByteMemory CString KernelString Printf FormatReference PrintfEmit PrintfScan Sprintf
  Video VirtualConsole ConsoleText ConsoleBounds Terminals

section Attributes

/-- The numbers of the adapter have red in the highest bit. -/
def colourCode (c : Colour) : ℕ := 4 * c.red.toNat + 2 * c.green.toNat + c.blue.toNat

def attributeCode (a : Rendition) : ℕ :=
  colourCode a.foreground + 8 * a.bold.toNat + 16 * colourCode a.background + 128 * a.blink.toNat

def attributeOf (n : ℕ) : Rendition :=
  ⟨⟨n.testBit 2, n.testBit 1, n.testBit 0⟩, n.testBit 3, ⟨n.testBit 6, n.testBit 5, n.testBit 4⟩, n.testBit 7⟩

theorem attributeCode_of : ∀ n < 256, attributeCode (attributeOf n) = n := by decide +kernel

theorem newAtt_bold : ∀ r g b bold r' g' b' blink : Bool,
    attributeCode ⟨⟨r, g, b⟩, bold, ⟨r', g', b'⟩, blink⟩ &&& 0xFFFFFFF7 =
      attributeCode ⟨⟨r, g, b⟩, false, ⟨r', g', b'⟩, blink⟩ ∧
    attributeCode ⟨⟨r, g, b⟩, bold, ⟨r', g', b'⟩, blink⟩ ||| 0x08 =
      attributeCode ⟨⟨r, g, b⟩, true, ⟨r', g', b'⟩, blink⟩ := by decide +kernel

theorem newAtt_colours : ∀ k < 8, ∀ r g b bold r' g' b' blink : Bool,
    (attributeCode ⟨⟨r, g, b⟩, bold, ⟨r', g', b'⟩, blink⟩ &&& 0xFFFFFFF8) ||| ansiToVga.getD k 0 =
      attributeCode ⟨.ofNumber k, bold, ⟨r', g', b'⟩, blink⟩ ∧
    (attributeCode ⟨⟨r, g, b⟩, bold, ⟨r', g', b'⟩, blink⟩ &&& 0xFFFFFF8F) ||| (ansiToVga.getD k 0 <<< 4) =
      attributeCode ⟨⟨r, g, b⟩, bold, .ofNumber k, blink⟩ := by decide +kernel

/-- `set_attrib` selects what the parameter says. -/
theorem newAtt_code (p : ℕ) (a : Rendition) : newAtt p (attributeCode a) = attributeCode (a.select p) := by
  obtain ⟨⟨r, g, b⟩, bold, ⟨r', g', b'⟩, blink⟩ := a
  unfold newAtt Rendition.select
  split_ifs with hoff hon hforeground hbackground
  · exact (newAtt_bold r g b bold r' g' b' blink).1
  · exact (newAtt_bold r g b bold r' g' b' blink).2
  · exact (newAtt_colours (p - 30) (by omega) r g b bold r' g' b' blink).1
  · exact (newAtt_colours (p - 40) (by omega) r g b bold r' g' b' blink).2
  · rfl

theorem newAtts_code (ps : List ℕ) (a : Rendition) :
    ps.foldl (fun n p => newAtt p n) (attributeCode a) = attributeCode (ps.foldl Rendition.select a) := by
  induction ps generalizing a with
  | nil => rfl
  | cons p ps ih => rw [List.foldl_cons, List.foldl_cons, newAtt_code, ih]

end Attributes

section Pictures
variable {w h : ℕ} {t : Terminal w h} {s u : Screen} {fuel : ℕ}

def cellBytes (cell : Cell) : UInt8 × UInt8 := (cell.char, UInt8.ofNat (attributeCode cell.rendition))

/-- The cells, the cursor and the attribute of the console are the terminal's. -/
structure Looks (t : Terminal w h) (s : Screen) : Prop where
  width : s.width = w
  height : s.height = h
  csrX : s.con.csrX = t.column
  csrY : s.con.csrY = t.row
  attrib : s.con.attrib = attributeCode t.rendition
  cells : ∀ r x, cell s.mem s.con.fbAdr (w * r.val + x.val) = cellBytes (t.grid r x)

def Reading : Sequence → Console → Prop
  | .outside, con => con.esc = 0
  | .opened, con => con.esc = 1
  | .parameters before last _, con => con.esc = before.length + 2 ∧
      [con.esc1, con.esc2, con.esc3].take (before.length + 1) = before ++ [last]

structure Shows (t : Terminal w h) (s : Screen) : Prop where
  looks : Looks t s
  reading : Reading t.sequence s.con

theorem Looks.bounded (hl : Looks t s) : Bounded s := by
  constructor
  · rw [hl.csrX, hl.width]
    exact t.column.isLt
  · rw [hl.csrY, hl.height]
    exact t.row.isLt

/-- The state of an escape sequence is not seen. -/
theorem Looks.setCon (hl : Looks t s) {f : Console → Console} (hx : (f s.con).csrX = s.con.csrX)
    (hy : (f s.con).csrY = s.con.csrY) (ha : (f s.con).attrib = s.con.attrib)
    (hfb : (f s.con).fbAdr = s.con.fbAdr) : Looks t (s.setCon f) where
  width := hl.width
  height := hl.height
  csrX := hx.trans hl.csrX
  csrY := hy.trans hl.csrY
  attrib := ha.trans hl.attrib
  cells := by
    intro r x
    change cell s.mem (f s.con).fbAdr _ = _
    rw [hfb]
    exact hl.cells r x

theorem Looks.withSequence (hl : Looks t s) (q : Sequence) : Looks { t with sequence := q } s :=
  ⟨hl.width, hl.height, hl.csrX, hl.csrY, hl.attrib, hl.cells⟩

theorem Looks.settled (hl : Looks t s) : scroll s.wrap = s := by
  have hbounded := hl.bounded
  have hwrap : s.wrap = s := if_neg (Nat.not_le.mpr hbounded.csrX)
  rw [hwrap]
  exact if_neg (Nat.not_le.mpr hbounded.csrY)

theorem scroll_esc (s : Screen) : (scroll s.wrap).con.esc = s.con.esc := by
  rw [scroll_con]
  unfold Screen.wrap
  split_ifs <;> rfl

theorem blank_bytes (hl : Looks t s) : cellBytes t.blank = (0x20, UInt8.ofNat s.con.attrib) := by
  rw [hl.attrib]
  rfl

/-- The cell of the cursor is the only one that is written. -/
theorem looks_put (hs : Sized s) (hl : Looks t s) (c : UInt8) :
    Looks (t.fill t.column (t.column + 1) ⟨c, t.rendition⟩) (s.put c.toNat) where
  width := hl.width
  height := hl.height
  csrX := hl.csrX
  csrY := hl.csrY
  attrib := hl.attrib
  cells := by
    intro r x
    have hput := @put_cells s hs.placed c.toNat c.toNat_lt hl.bounded.csrX hl.bounded.csrY (w * r + x)
    have hsame : w * r + x = w * t.row + t.column ↔ r = t.row ∧ t.column ≤ x.val ∧ x.val < t.column + 1 := by
      rw [index_inj x.isLt t.column.isLt, ← Fin.ext_iff]
      refine and_congr_right fun _ => ?_
      omega
    change cell (s.put c.toNat).mem s.con.fbAdr (w * r + x) = _
    rw [hput, hl.width, hl.csrX, hl.csrY, hl.attrib, if_congr hsame rfl rfl, UInt8.ofNat_toNat, hl.cells]
    unfold Terminal.fill
    dsimp only
    split_ifs <;> rfl

/-- Cells that follow each other in one row. -/
theorem index_between {r y : Fin h} {x : Fin w} {first n : ℕ} (hn : first + n ≤ w) :
    w * y + first ≤ w * r + x ∧ w * r + x < w * y + first + n ↔ r = y ∧ first ≤ x.val ∧ x.val < first + n := by
  constructor
  · rintro ⟨hfrom, hto⟩
    have heq : r = y := by
      by_contra hne
      rcases Nat.lt_or_gt_of_ne (fun heq => hne (Fin.ext heq)) with hlt | hgt
      · have hbefore : w * r + w ≤ w * y := Nat.mul_le_mul_left w hlt
        omega
      · have hbehind : w * y + w ≤ w * r := Nat.mul_le_mul_left w hgt
        omega
    subst heq
    exact ⟨rfl, by omega, by omega⟩
  · rintro ⟨rfl, hfrom, hto⟩
    omega

/-- The cells from the cursor on are blanked, up to the end of the row at most. -/
theorem looks_blanks (hs : Sized s) (hl : Looks t s) {n : ℕ} (hn : t.column + n ≤ w) :
    Looks (t.fill t.column (t.column + n) t.blank)
      (s.setMem (memsetw n (s.con.fbAdr + 2 * (s.width * s.con.csrY + s.con.csrX)) (0x20 ||| s.att))) where
  width := hl.width
  height := hl.height
  csrX := hl.csrX
  csrY := hl.csrY
  attrib := hl.attrib
  cells := by
    intro r x
    have hfits := hs.placed.fits
    have hrow : w * t.row + w ≤ w * h := Nat.mul_le_mul_left w t.row.isLt
    rw [hl.width, hl.height] at hfits
    obtain ⟨hchar, hatt⟩ : UInt8.ofNat (0x20 ||| s.att) = 0x20 ∧
        UInt8.ofNat ((0x20 ||| s.att) / 256) = UInt8.ofNat s.con.attrib := att_bytes s.con.attrib (by decide)
    have hfill : memsetw n (s.con.fbAdr + 2 * (w * t.row + t.column)) (0x20 ||| s.att) s.mem = _ :=
      memsetw_eq _ (by omega)
    change cell (memsetw n (s.con.fbAdr + 2 * (s.width * s.con.csrY + s.con.csrX)) (0x20 ||| s.att) s.mem)
      s.con.fbAdr (w * r + x) = _
    rw [hl.width, hl.csrY, hl.csrX, hfill, cell_fill, hchar, hatt, hl.cells,
      if_congr (index_between hn) rfl rfl, ← blank_bytes hl]
    unfold Terminal.fill
    dsimp only
    split_ifs <;> rfl

/-- To the next row, below which the console is scrolled. -/
theorem looks_lineFeed (hs : Sized s) (hl : Looks t s) : Looks t.lineFeed (scroll s.nextRow) := by
  have hflat := hs.flat
  have hbounded := hl.bounded
  have hnext : s.nextRow.con.csrY = s.con.csrY + 1 :=
    wadd_of_lt (by rw [wordSize_eq]; have := hbounded.csrY; omega)
  unfold Terminal.lineFeed
  split_ifs with hroom
  · have hstay : scroll s.nextRow = s.nextRow := by
      refine if_neg (Nat.not_le.mpr ?_)
      rw [hnext, hl.csrY]
      exact hroom.trans_eq hl.height.symm
    rw [hstay]
    exact ⟨hl.width, hl.height, rfl, hnext.trans (congrArg (· + 1) hl.csrY), hl.attrib, hl.cells⟩
  · have hlast := t.row.isLt
    have hfull : s.nextRow.con.csrY = s.nextRow.height := by
      have hheight : s.nextRow.height = h := hl.height
      rw [hnext, hl.csrY, hheight]
      omega
    have hplaced : Placed s.nextRow := ⟨hs.width_pos, hs.height_pos, hs.placed.fits⟩
    obtain ⟨hcon, hw, hh, hcells⟩ := scroll_cells hplaced hfull
    have hwidth : s.nextRow.width = w := hl.width
    have hheight : s.nextRow.height = h := hl.height
    rw [hwidth] at hw hcells
    rw [hheight] at hcon hh hcells
    refine ⟨hw, hh, ?_, ?_, ?_, fun r x => ?_⟩
    · rw [hcon]
      rfl
    · rw [hcon]
      change h - 1 = t.row.val
      omega
    · rw [hcon]
      exact hl.attrib
    · have hmoved := hcells (w * r + x) (index_lt r.isLt x.isLt)
      rw [hcon]
      change cell (scroll s.nextRow).mem s.con.fbAdr (w * r + x) = _
      refine hmoved.trans ?_
      dsimp only
      split_ifs with hbefore hinside hinside
      · have hshift : w * r + x + w = w * (r.val + 1) + x := by
          rw [Nat.mul_succ]
          omega
        rw [hshift]
        exact hl.cells ⟨r + 1, hinside⟩ x
      · have hbottom : h - 1 = r := by omega
        rw [hbottom] at hbefore
        omega
      · have habove : w * r + x < w * (h - 1) := index_lt (by omega) x.isLt
        omega
      · exact (blank_bytes hl).symm

theorem looks_advance (hs : Sized s) (hl : Looks t s) (n : ℕ) :
    Looks (t.advance n) (scroll (s.setX n).wrap) := by
  unfold Terminal.advance
  split_ifs with hn
  · have hmoved : Looks { t with column := ⟨n, hn⟩ } (s.setX n) :=
      ⟨hl.width, hl.height, rfl, hl.csrY, hl.attrib, hl.cells⟩
    rw [hmoved.settled]
    exact hmoved
  · have hwrap : (s.setX n).wrap = s.nextRow := if_pos (hl.width.le.trans (Nat.not_lt.mp hn))
    rw [hwrap]
    exact looks_lineFeed hs hl

theorem tab_eq (hs : Sized s) (hb : Bounded s) (hfuel : 9 ≤ fuel) : tab fuel s = some ((s.setMem
    (memsetw (tabStop s.con.csrX - s.con.csrX) (s.con.fbAdr + 2 * (s.width * s.con.csrY + s.con.csrX))
      (0x20 ||| s.att))).setX (tabStop s.con.csrX)) := by
  have hx := hb.csrX
  obtain ⟨hbehind, hnear⟩ := nextStop_bounds s.con.csrX
  obtain ⟨n, hn⟩ := Nat.exists_eq_add_of_le hbehind.le
  obtain ⟨rest, rfl⟩ := Nat.exists_eq_add_of_le (show n + 1 ≤ fuel by omega)
  have hcount : tabStop s.con.csrX - s.con.csrX = n := Nat.sub_eq_of_eq_add' hn
  unfold tab
  simp only [eot_eq hs hx]
  rw [hcount]
  exact tab_passes hs hb.csrY hn (by omega) rest

theorem tabStop_le {x : ℕ} (hstops : 8 ∣ w) (hx : x < w) : tabStop x ≤ w := by
  obtain ⟨k, rfl⟩ := hstops
  rw [tabStop]
  omega

theorem looks_backspace (hs : Sized s) (hl : Looks t s) (hpos : t.column.val ≠ 0) :
    Looks t.backspace ((s.setX (t.column - 1)).put 0x20) := by
  have hlt : t.column - 1 < w := Nat.lt_of_le_of_lt (Nat.sub_le _ 1) t.column.isLt
  have hmoved : Looks { t with column := ⟨t.column - 1, hlt⟩ } (s.setX (t.column - 1)) :=
    ⟨hl.width, hl.height, rfl, hl.csrY, hl.attrib, hl.cells⟩
  have hput := looks_put ((setX_place _ s).sized hs) hmoved 0x20
  have hnext : t.column - 1 + 1 = t.column.val := Nat.succ_pred_eq_of_pos (Nat.pos_of_ne_zero hpos)
  unfold Terminal.backspace
  rw [if_neg hpos]
  dsimp only at hput
  rw [hnext] at hput
  exact hput

theorem looks_print (hs : Sized s) (hl : Looks t s) (c : UInt8) :
    Looks (t.print c) (scroll ((s.put c.toNat).setX (wadd s.con.csrX 1)).wrap) := by
  have hnarrow := hs.narrow
  have hx := hl.bounded.csrX
  have hnext : wadd s.con.csrX 1 = t.column + 1 := by
    rw [hl.csrX] at hx ⊢
    exact wadd_of_lt (by rw [wordSize_eq]; omega)
  rw [hnext]
  exact looks_advance ((put_place _ s).sized hs) (looks_put hs hl c) _

theorem looks_tab (hs : Sized s) (hstops : 8 ∣ w) (hl : Looks t s) (hfuel : 9 ≤ fuel) :
    ∃ u, tab fuel s = some u ∧ Looks t.tab (scroll u.wrap) ∧ u.con.esc = s.con.esc := by
  refine ⟨_, tab_eq hs hl.bounded hfuel, ?_, rfl⟩
  have hle := tabStop_le hstops t.column.isLt
  have hbehind := (nextStop_bounds t.column).1
  have hcount : t.column + (tabStop t.column - t.column) = tabStop t.column := Nat.add_sub_of_le hbehind.le
  have hblanks := looks_blanks hs hl (hcount.trans_le hle)
  rw [hcount, hl.csrX] at hblanks
  rw [hl.csrX]
  exact looks_advance (SamePlace.sized ⟨setMem_size _ s, rfl⟩ hs) hblanks _

/-- One character outside the escape sequences. -/
theorem looks_draw (hs : Sized s) (hstops : 8 ∣ w) (hl : Looks t s) (hfuel : 9 ≤ fuel) (c : UInt8) :
    ∃ u, draw fuel c.toNat s = some u ∧ Looks (t.draw c) (scroll u.wrap) ∧ u.con.esc = s.con.esc := by
  have hback : c.toNat = 0x08 ↔ c = 0x08 := UInt8.toNat_inj (b := 0x08)
  have htab : c.toNat = 0x09 ↔ c = 0x09 := UInt8.toNat_inj (b := 0x09)
  have hreturn : c.toNat = 0x0D ↔ c = 0x0D := UInt8.toNat_inj (b := 0x0D)
  have hline : c.toNat = 0x0A ↔ c = 0x0A := UInt8.toNat_inj (b := 0x0A)
  have hspace : 0x20 ≤ c.toNat ↔ 0x20 ≤ c := (UInt8.le_iff_toNat_le (a := 0x20)).symm
  unfold draw Terminal.draw
  simp only [hback, htab, hreturn, hline, hspace]
  split_ifs with hb hmoved ht hr hl' hp
  · have hpos : t.column.val ≠ 0 := hl.csrX ▸ hmoved
    have hleft : wsub s.con.csrX 1 = t.column - 1 := by
      have hnarrow := hs.narrow
      have hx := hl.bounded.csrX
      rw [← hl.csrX]
      exact wsub_of_le (by omega) (by rw [wordSize_eq]; omega)
    have hlooks := looks_backspace hs hl hpos
    rw [hleft]
    refine ⟨_, rfl, ?_, rfl⟩
    rw [hlooks.settled]
    exact hlooks
  · have hzero : t.column.val = 0 := by
      rw [← hl.csrX]
      exact not_not.mp hmoved
    refine ⟨s, rfl, ?_, rfl⟩
    rw [hl.settled, Terminal.backspace, if_pos hzero]
    exact hl
  · exact looks_tab hs hstops hl hfuel
  · have hlooks : Looks t.carriageReturn (s.setX 0) :=
      ⟨hl.width, hl.height, rfl, hl.csrY, hl.attrib, hl.cells⟩
    refine ⟨_, rfl, ?_, rfl⟩
    rw [hlooks.settled]
    exact hlooks
  · have hwrap : s.nextRow.wrap = s.nextRow := if_neg (Nat.not_le.mpr hs.width_pos)
    refine ⟨_, rfl, ?_, rfl⟩
    rw [hwrap]
    exact looks_lineFeed hs hl
  · exact ⟨_, rfl, looks_print hs hl c, rfl⟩
  · refine ⟨s, rfl, ?_, rfl⟩
    rw [hl.settled]
    exact hl

theorem shows_character (hs : Sized s) (hstops : 8 ∣ w) (hl : Looks t s) (hfuel : 9 ≤ fuel) {c : UInt8}
    (hescape : escape c.toNat s = none) :
    ∃ u, putchScreen fuel c.toNat s = some u ∧ Shows (t.character c) u := by
  have hended : Looks t (s.setCon Console.endEsc) := hl.setCon rfl rfl rfl rfl
  have hstart : c.toNat = 0x1B ↔ c = 0x1B := UInt8.toNat_inj (b := 0x1B)
  unfold putchScreen Terminal.character
  rw [hescape]
  simp only [hstart]
  split_ifs with hesc
  · exact ⟨_, rfl, (hended.setCon rfl rfl rfl rfl).withSequence .opened, rfl⟩
  · have hsized : Sized (s.setCon Console.endEsc) := SamePlace.sized ⟨setCon_size _ _, rfl⟩ hs
    obtain ⟨u, hu, hlooks, hout⟩ := looks_draw hsized hstops hended hfuel c
    rw [hu]
    exact ⟨_, rfl, hlooks.withSequence .outside, (scroll_esc u).trans hout⟩

theorem addDigit_next (n : ℕ) {c : UInt8} (hc : 0x30 ≤ c) : addDigit n c.toNat = nextParameter n c := by
  have hge : 0x30 ≤ c.toNat := UInt8.le_iff_toNat_le.mp hc
  have hlt := c.toNat_lt
  rw [addDigit, wsub, wadd, wmul, nextParameter, wordSize_eq]
  omega

theorem isDigit_iff (c : UInt8) : isDigit c.toNat = true ↔ 0x30 ≤ c ∧ c ≤ 0x39 := by
  simp [isDigit, UInt8.le_iff_toNat_le]

theorem looks_clear (hs : Sized s) (hl : Looks t s) : Looks t.clear s.clear where
  width := hl.width
  height := hl.height
  csrX := rfl
  csrY := rfl
  attrib := hl.attrib
  cells := by
    intro r x
    have hfits := hs.placed.fits
    have harea : wmul s.height s.width = s.width * s.height := by
      rw [Nat.mul_comm s.width] at hfits ⊢
      exact wmul_of_lt (by omega)
    obtain ⟨hchar, hatt⟩ : UInt8.ofNat (0x20 ||| s.att) = 0x20 ∧
        UInt8.ofNat ((0x20 ||| s.att) / 256) = UInt8.ofNat s.con.attrib := att_bytes s.con.attrib (by decide)
    have hindex : w * r + x < w * h := index_lt r.isLt x.isLt
    have hfill := @cell_fill s.con.fbAdr (w * r + x) (w * h) 0 (0x20 ||| s.att) s.mem
    rw [Nat.mul_zero, Nat.add_zero, Nat.zero_add, if_pos ⟨Nat.zero_le _, hindex⟩, hchar, hatt] at hfill
    change cell (memsetw (wmul s.height s.width) s.con.fbAdr (0x20 ||| s.att) s.mem) s.con.fbAdr (w * r + x) = _
    rw [harea, hl.width, hl.height] at *
    rw [memsetw_eq _ hfits, hfill, ← blank_bytes hl]
    rfl

theorem looks_moveTo (hl : Looks t s) (row column : ℕ) : Looks (t.moveTo row column) (s.moveTo column row) where
  width := hl.width
  height := hl.height
  csrX := by
    change (if column < s.width then column else s.con.csrX) = _
    rw [hl.width, hl.csrX, Terminal.moveTo]
    dsimp only
    split_ifs <;> rfl
  csrY := by
    change (if row < s.height then row else s.con.csrY) = _
    rw [hl.height, hl.csrY, Terminal.moveTo]
    dsimp only
    split_ifs <;> rfl
  attrib := hl.attrib
  cells := hl.cells

theorem Looks.within (hl : Looks t s) {q : Sequence} {f : Console → Console} (hread : Reading q (f s.con))
    (hx : (f s.con).csrX = s.con.csrX) (hy : (f s.con).csrY = s.con.csrY) (ha : (f s.con).attrib = s.con.attrib)
    (hfb : (f s.con).fbAdr = s.con.fbAdr) : Shows { t with sequence := q } (s.setCon f) :=
  ⟨(hl.setCon hx hy ha hfb).withSequence q, hread⟩

/-- The end of a sequence: its effect, and the console is outside the escape sequences. -/
theorem Looks.ended {t' : Terminal w h} (hl : Looks t' u) :
    Shows { t' with sequence := .outside } (u.setCon Console.endEsc) :=
  ⟨(hl.setCon rfl rfl rfl rfl).withSequence .outside, rfl⟩

theorem Reading.parameters_cases {before : List ℕ} {last : ℕ} {room : before.length < 3} {con : Console}
    (hread : Reading (.parameters before last room) con) :
    before = [] ∧ con.esc = 2 ∧ con.esc1 = last ∨
    (∃ p, before = [p] ∧ con.esc = 3 ∧ con.esc1 = p ∧ con.esc2 = last) ∨
    ∃ p q, before = [p, q] ∧ con.esc = 4 ∧ con.esc1 = p ∧ con.esc2 = q ∧ con.esc3 = last := by
  obtain ⟨hesc, hparams⟩ := hread
  cases before with
  | nil => exact Or.inl ⟨rfl, hesc, by simpa using hparams⟩
  | cons p before =>
    cases before with
    | nil => exact Or.inr (Or.inl ⟨p, rfl, hesc, by simpa using hparams⟩)
    | cons q before =>
      cases before with
      | nil => exact Or.inr (Or.inr ⟨p, q, rfl, hesc, by simpa using hparams⟩)
      | cons r before =>
        simp only [List.length_cons] at room
        omega

theorem Looks.selected (hl : Looks t s) (ps : List ℕ) {f : Console → Console}
    (hx : (f s.con).csrX = s.con.csrX) (hy : (f s.con).csrY = s.con.csrY) (hfb : (f s.con).fbAdr = s.con.fbAdr)
    (ha : (f s.con).attrib = ps.foldl (fun n p => newAtt p n) s.con.attrib) (hesc : (f s.con).esc = 0) :
    Shows { t with rendition := ps.foldl Rendition.select t.rendition, sequence := .outside } (s.setCon f) where
  reading := hesc
  looks :=
    { width := hl.width
      height := hl.height
      csrX := hx.trans hl.csrX
      csrY := hy.trans hl.csrY
      attrib := by rw [setCon_con, ha, hl.attrib, newAtts_code]
      cells := fun r x => by
        change cell s.mem (f s.con).fbAdr _ = _
        rw [hfb]
        exact hl.cells r x }

/-- After ESC[ and digits. -/
theorem shows_one (hs : Sized s) (hl : Looks t s) {room : ([] : List ℕ).length < 3}
    (hseq : t.sequence = .parameters [] s.con.esc1 room) (hesc : s.con.esc = 2) (c : UInt8) :
    Shows (t.receive c) (escapeOne c.toNat s) := by
  have hseparator : c.toNat = 0x3B ↔ c = 0x3B := UInt8.toNat_inj (b := 0x3B)
  have hclear : c.toNat = 0x4A ↔ c = 0x4A := UInt8.toNat_inj (b := 0x4A)
  have hselect : c.toNat = 0x6D ↔ c = 0x6D := UInt8.toNat_inj (b := 0x6D)
  unfold escapeOne
  simp only [isDigit_iff, hseparator, hclear, hselect]
  split_ifs with hdigit hsep hJ htwo hm
  · rw [receive_digit hseq hdigit]
    refine hl.within ?_ rfl rfl rfl rfl
    simp [Reading, hesc, addDigit_next _ hdigit.1]
  · subst hsep
    rw [receive_separator hseq (by decide)]
    refine hl.within ?_ rfl rfl rfl rfl
    simp [Reading, hesc, wadd, wordSize]
  all_goals rw [receive_final hseq hdigit fun hmore => hsep hmore.1, List.nil_append]
  · subst hJ
    simp only [Terminal.finish, htwo, and_self, if_true]
    exact (looks_clear hs hl).ended
  · subst hJ
    rw [finish_other (by decide) (fun _ => by simpa using htwo) (by simp)]
    exact hl.ended
  · subst hm
    exact hl.selected [s.con.esc1] rfl rfl rfl rfl rfl
  · rw [finish_other hm (fun hJ' => absurd hJ' hJ) (by simp)]
    exact hl.ended

/-- After a first parameter. -/
theorem shows_two (hl : Looks t s) {room : [s.con.esc1].length < 3}
    (hseq : t.sequence = .parameters [s.con.esc1] s.con.esc2 room) (hesc : s.con.esc = 3) (c : UInt8) :
    Shows (t.receive c) (escapeTwo c.toNat s) := by
  have hseparator : c.toNat = 0x3B ↔ c = 0x3B := UInt8.toNat_inj (b := 0x3B)
  have hmove : c.toNat = 0x48 ↔ c = 0x48 := UInt8.toNat_inj (b := 0x48)
  have hselect : c.toNat = 0x6D ↔ c = 0x6D := UInt8.toNat_inj (b := 0x6D)
  unfold escapeTwo
  simp only [isDigit_iff, hseparator, hmove, hselect]
  split_ifs with hdigit hsep hH hm
  · rw [receive_digit hseq hdigit]
    refine hl.within ?_ rfl rfl rfl rfl
    simp [Reading, hesc, addDigit_next _ hdigit.1]
  · subst hsep
    rw [receive_separator hseq (by simp)]
    refine hl.within ?_ rfl rfl rfl rfl
    simp [Reading, hesc, wadd, wordSize]
  all_goals rw [receive_final hseq hdigit fun hmore => hsep hmore.1, List.singleton_append]
  · subst hH
    exact (looks_moveTo hl s.con.esc1 s.con.esc2).ended
  · subst hm
    exact hl.selected [s.con.esc1, s.con.esc2] rfl rfl rfl rfl rfl
  · rw [finish_other hm (by simp) fun hH' => absurd hH' hH]
    exact hl.ended

/-- After two parameters. -/
theorem shows_three (hl : Looks t s) {room : [s.con.esc1, s.con.esc2].length < 3}
    (hseq : t.sequence = .parameters [s.con.esc1, s.con.esc2] s.con.esc3 room) (hesc : s.con.esc = 4)
    (c : UInt8) : Shows (t.receive c) (escapeThree c.toNat s) := by
  have hselect : c.toNat = 0x6D ↔ c = 0x6D := UInt8.toNat_inj (b := 0x6D)
  unfold escapeThree
  simp only [isDigit_iff, hselect]
  split_ifs with hdigit hm
  · rw [receive_digit hseq hdigit]
    refine hl.within ?_ rfl rfl rfl rfl
    simp [Reading, hesc, addDigit_next _ hdigit.1]
  all_goals rw [receive_final hseq hdigit fun hmore => absurd hmore.2 (by simp)]
  · subst hm
    exact hl.selected [s.con.esc1, s.con.esc2, s.con.esc3] rfl rfl rfl rfl rfl
  · rw [finish_other hm (by simp) (by simp)]
    exact hl.ended

/-- One character, whatever the state of the console. -/
theorem shows_receive (hs : Sized s) (hstops : 8 ∣ w) (ht : Shows t s) (hfuel : 9 ≤ fuel) (c : UInt8) :
    ∃ u, putchScreen fuel c.toNat s = some u ∧ Shows (t.receive c) u := by
  obtain ⟨hl, hread⟩ := ht
  cases hseq : t.sequence with
  | outside =>
    rw [hseq] at hread
    rw [Terminal.receive, hseq]
    exact shows_character hs hstops hl hfuel (escape_none hread _)
  | opened =>
    rw [hseq] at hread
    have hesc : s.con.esc = 1 := hread
    have hopen : c.toNat = 0x5B ↔ c = 0x5B := UInt8.toNat_inj (b := 0x5B)
    rw [Terminal.receive, hseq]
    by_cases hc : c = 0x5B
    · subst hc
      refine ⟨_, putchScreen_escape fuel (if_pos hesc), hl.within ?_ rfl rfl rfl rfl⟩
      simp [Reading, hesc, wadd, wordSize]
    · have hescape : escape c.toNat s = none := by
        rw [escape, if_pos hesc, if_neg (hopen.not.mpr hc)]
      simp only [if_neg hc]
      exact shows_character hs hstops hl hfuel hescape
  | parameters before last room =>
    rw [hseq] at hread
    rcases hread.parameters_cases with
      ⟨rfl, hesc, rfl⟩ | ⟨_, rfl, hesc, rfl, rfl⟩ | ⟨_, _, rfl, hesc, rfl, rfl, rfl⟩
    · exact ⟨_, putchScreen_escape fuel (by simp [escape, hesc]), shows_one hs hl hseq hesc c⟩
    · exact ⟨_, putchScreen_escape fuel (by simp [escape, hesc]), shows_two hl hseq hesc c⟩
    · exact ⟨_, putchScreen_escape fuel (by simp [escape, hesc]), shows_three hl hseq hesc c⟩

/-- What changes neither the console nor its cells. -/
theorem Shows.frame (ht : Shows t s) (hcon : u.con = s.con) (hsize : SameSize s u)
    (hmem : ∀ a, s.con.fbAdr ≤ a → a < s.con.fbAdr + 2 * (w * h) → u.mem a = s.mem a) : Shows t u := by
  obtain ⟨hl, hread⟩ := ht
  refine ⟨⟨hsize.1.trans hl.width, hsize.2.trans hl.height, ?_, ?_, ?_, fun r x => ?_⟩, ?_⟩
  · rw [hcon, hl.csrX]
  · rw [hcon, hl.csrY]
  · rw [hcon, hl.attrib]
  · have hindex : w * r + x < w * h := index_lt r.isLt x.isLt
    rw [hcon, ← hl.cells, cell, cell, hmem _ (by omega) (by omega), hmem _ (by omega) (by omega)]
  · rw [hcon]
    exact hread

end Pictures

section Displays
variable {w h n con i : ℕ} {ts : ℕ → Terminal w h} {v v' : Display}

/-- Each of the first `n` consoles shows a terminal, in cells of its own. -/
structure AllShow (n : ℕ) (ts : ℕ → Terminal w h) (v : Display) : Prop where
  sound : Sound n v
  shows : ∀ i < n, Shows (ts i) (v.screen i)
  apart : ∀ i < n, ∀ j < n, i ≠ j →
    (v.vc i).fbAdr + 2 * (w * h) ≤ (v.vc j).fbAdr ∨ (v.vc j).fbAdr + 2 * (w * h) ≤ (v.vc i).fbAdr

theorem stopFits (hstops : 8 ∣ w) {t : Terminal w h} {s : Screen} (hl : Looks t s) : StopFits s := by
  have hstop : nextStop t.column ≤ w := tabStop_le hstops t.column.isLt
  have hrow : w * t.row + w ≤ w * h := Nat.mul_le_mul_left w t.row.isLt
  rw [StopFits, hl.width, hl.height, hl.csrX, hl.csrY]
  omega

/-- A character changes the terminal of its console and no other. -/
theorem AllShow.putch (hv : AllShow n ts v) (hstops : 8 ∣ w) (hcon : con < n) (c : UInt8) :
    ∃ v', (∀ fuel, 9 ≤ fuel → putchHelp fuel con c.toNat v = some v') ∧
      AllShow n (Function.update ts con ((ts con).receive c)) v' ∧ SamePlaces v v' ∧ v'.currVc = v.currVc ∧
      (∀ i, i ≠ con → v'.vc i = v.vc i) ∧ Within (v.screen con) (v'.screen con) := by
  obtain ⟨v', hput, hsound, hplaces, hcurr, hothers, heffect⟩ := putchHelp_effect hv.sound hcon c.toNat
  have hwithin := heffect.within fun _ _ => stopFits hstops (hv.shows con hcon).looks
  obtain ⟨u, hu, hshows⟩ := shows_receive (hv.sound.sized con hcon) hstops (hv.shows con hcon) le_rfl c
  have hscreen : v'.screen con = u := by
    rw [← putchHelp_screen, hput 9 le_rfl] at hu
    exact Option.some.inj hu
  refine ⟨v', hput, ⟨hsound, fun i hi => ?_, fun i hi j hj hij => ?_⟩, hplaces, hcurr, hothers, hwithin⟩
  · by_cases hic : i = con
    · subst hic
      rw [Function.update_self, hscreen]
      exact hshows
    · rw [Function.update_of_ne hic]
      refine (hv.shows i hi).frame (hothers i hic) (hplaces.place i).size fun a hfrom hto => ?_
      have hl := (hv.shows con hcon).looks
      have hout : Outside (v.screen con) a := by
        have hapart := hv.apart i hi con hcon hic
        rw [Outside, hl.width, hl.height]
        change a < (v.vc con).fbAdr ∨ (v.vc con).fbAdr + 2 * (w * h) ≤ a
        change (v.vc i).fbAdr ≤ a at hfrom
        change a < (v.vc i).fbAdr + 2 * (w * h) at hto
        omega
      exact hwithin a hout
  · have hfb (k : ℕ) : (v'.vc k).fbAdr = (v.vc k).fbAdr := (hplaces.place k).fbAdr
    rw [hfb, hfb]
    exact hv.apart i hi j hj hij

/-- A text that `kprintf` prints. -/
theorem AllShow.prints (hv : AllShow n ts v) (hstops : 8 ∣ w) (hcur : v.currVc < n) (fmt : List UInt8)
    {text : List UInt8} (htext : ∀ c ∈ text, c < 0x80) :
    ∃ v', (∀ tabs, 9 ≤ tabs → passAll (kprintfSink tabs fmt) text (some v) = some v') ∧
      AllShow n (Function.update ts v.currVc ((ts v.currVc).receives text)) v' ∧ SamePlaces v v' ∧
      Within (v.screen v.currVc) (v'.screen v.currVc) := by
  induction text generalizing v ts with
  | nil =>
    refine ⟨v, fun _ _ => rfl, ?_, ⟨rfl, fun _ => SamePlace.refl _⟩, fun _ _ => rfl⟩
    rw [Terminal.receives, List.foldl_nil, Function.update_eq_self]
    exact hv
  | cons c text ih =>
    obtain ⟨hc, htext⟩ := List.forall_mem_cons.mp htext
    have hchar : signedChar c = c.toNat := if_pos hc
    obtain ⟨u, hput, hu, hplaces, hcurr, -, hwithin⟩ := hv.putch hstops hcur c
    obtain ⟨v', hall, hv', hplaces', hwithin'⟩ := ih hu (hcurr ▸ hcur) htext
    rw [hcurr] at hv' hwithin'
    refine ⟨v', fun tabs htabs => ?_, ?_, ⟨hplaces'.vgaFbAdr.trans hplaces.vgaFbAdr,
      fun i => (hplaces.place i).trans (hplaces'.place i)⟩, hwithin.trans (hplaces.place _) hwithin'⟩
    · have hfn : (kprintfSink tabs fmt).fn c (some v) = some u := by
        rw [← hput tabs htabs, ← hchar]
        rfl
      rw [passAll, List.foldl_cons, hfn]
      exact hall tabs htabs
    · rw [Function.update_idem, Function.update_self] at hv'
      exact hv'

end Displays

section Calls
variable {w h : ℕ} {ts : ℕ → Terminal w h} {home v v' : Consoles} {call : Call}

/-- The characters that go to the console `i`. -/
def textFor (i : ℕ) (calls : List Call) : List UInt8 :=
  calls.filterMap fun
    | .putch con c => if con = i then some (UInt8.ofNat c) else none
    | .select _ => none

/-- The character code of a call is a byte. -/
def OneByte : Call → Prop
  | .putch _ c => c < 256
  | .select _ => True

theorem step_allShow (hstops : 8 ∣ w) (hbyte : OneByte call) (hv : AllShow v.numVcs ts v.display)
    (hstep : Step v call v') :
    v'.numVcs = v.numVcs ∧ AllShow v.numVcs (fun i => (ts i).receives (textFor i [call])) v'.display := by
  obtain ⟨hvalid, fuel, happly⟩ := hstep
  cases call with
  | select whichVc =>
    obtain ⟨currVc, crtc, hselect⟩ := selectVc_eq whichVc v
    rw [Call.apply, hselect] at happly
    rw [← Option.some.inj happly]
    refine ⟨rfl, ⟨⟨fun i hi => ?_, fun i hi => ?_⟩, fun i hi => ?_, hv.apart⟩⟩
    · exact hv.sound.sized i hi
    · exact hv.sound.bounded i hi
    · exact hv.shows i hi
  | putch con c =>
    have hc : (UInt8.ofNat c).toNat = c := UInt8.toNat_ofNat_of_lt' hbyte
    obtain ⟨d, hput, hd, -⟩ := hv.putch hstops hvalid.1 (UInt8.ofNat c)
    rw [hc] at hput
    have hmax := apply_mono (Nat.le_max_left fuel 9) happly
    rw [Call.apply, hput _ (Nat.le_max_right fuel 9), Option.map_some] at hmax
    rw [← Option.some.inj hmax]
    refine ⟨rfl, ?_⟩
    have hts : (fun i => (ts i).receives (textFor i [.putch con c])) =
        Function.update ts con ((ts con).receive (UInt8.ofNat c)) := by
      funext i
      by_cases hi : i = con
      · subst hi
        simp [textFor, Terminal.receives]
      · simp [textFor, Terminal.receives, hi, Ne.symm hi]
    rw [hts]
    exact hd

theorem run_allShow (hstops : 8 ∣ w) {calls : List Call} (hbytes : ∀ call ∈ calls, OneByte call)
    (hv : AllShow v.numVcs ts v.display) (hrun : Run Step v calls v') :
    v'.numVcs = v.numVcs ∧ AllShow v.numVcs (fun i => (ts i).receives (textFor i calls)) v'.display := by
  induction hrun generalizing ts with
  | refl v => exact ⟨rfl, hv⟩
  | @next v u v' call calls hstep tail ih =>
    obtain ⟨hbyte, hbytes⟩ := List.forall_mem_cons.mp hbytes
    obtain ⟨hnum, hu⟩ := step_allShow hstops hbyte hv hstep
    rw [← hnum] at hu
    obtain ⟨hnum', hv'⟩ := ih hbytes hu
    refine ⟨hnum'.trans hnum, ?_⟩
    have htext : ∀ i, textFor i (call :: calls) = textFor i [call] ++ textFor i calls :=
      fun i => List.filterMap_append (l := [call])
    simp only [htext, Terminal.receives_append]
    rw [← hnum]
    exact hv'

end Calls

section Start
variable {w h k : ℕ} {ts : ℕ → Terminal w h} {start v v' : Display}

/-- A terminal that shows what memory holds, before anything is written to it. -/
def poweredOn (hw : 0 < w) (hh : 0 < h) (mem : ByteMem) (fb i : ℕ) : Terminal w h where
  grid := fun r x =>
    ⟨mem (fb + 2 * (w * r.val + x.val)), attributeOf (mem (fb + 2 * (w * r.val + x.val) + 1)).toNat⟩
  column := ⟨0, hw⟩
  row := ⟨0, hh⟩
  rendition := attributeOf (i + 1)
  sequence := .outside

/-- What `init_console` prints on the console `i`. -/
def bannerText (i : ℕ) : List UInt8 :=
  if i = 0 then [] else "\x1B[2Jktux console ".toList.map ascii ++ digits false 10 i ++ [0x0A, 0x0A]

theorem render_literals (cs : List Char) (items : List Item) (as : List Arg) :
    render ((cs.map fun c => .literal (ascii c)) ++ items) as = cs.map ascii ++ render items as := by
  induction cs with
  | nil => rfl
  | cons c cs ih => exact congrArg (ascii c :: ·) ih

theorem render_banner {i : ℕ} (hpos : i ≠ 0) (hi : i < wordSize) :
    render bannerItems [⟨i, []⟩] = bannerText i := by
  have hvalue : (⟨false, false, [], [], .unsigned⟩ : Directive).value ⟨i, []⟩ = i := by
    have hmod : i % 2 ^ 32 = i := Nat.mod_eq_of_lt hi
    simp only [Directive.value, Directive.bits, Conversion.signed, List.not_mem_nil, false_and, if_false, hmod,
      Bool.false_eq_true]
  have hdirective : (⟨false, false, [], [], .unsigned⟩ : Directive).render ⟨i, []⟩ = digits false 10 i := by
    simp only [Directive.render, hvalue, layout]
    simp [widthValue, Conversion.caps, Conversion.radix]
  unfold bannerItems bannerText
  rw [if_neg hpos]
  generalize "\x1B[2Jktux console ".toList = cs
  rw [render_literals, List.append_assoc]
  simp only [render, hdirective]
  rfl

theorem digit_ascii (d : ℕ) : digit false d < 0x80 := by
  by_cases hd : d < 16
  · interval_cases d <;> decide
  · rw [digit, List.getD_eq_default _ _ (Nat.not_lt.mp hd)]
    decide

theorem bannerText_ascii (i : ℕ) : ∀ c ∈ bannerText i, c < 0x80 := by
  have hall : (("\x1B[2Jktux console ".toList.map ascii ++ [0x0A, 0x0A]).all fun c => c < 0x80) = true := by decide
  have hplain : ∀ c ∈ "\x1B[2Jktux console ".toList.map ascii ++ [0x0A, 0x0A], c < 0x80 := by
    simpa only [List.all_eq_true, decide_eq_true_eq] using hall
  have hdigits : ∀ c ∈ digits false 10 i, c < 0x80 := by
    unfold digits
    split_ifs
    · exact List.forall_mem_singleton.mpr (show ascii '0' < 0x80 by decide)
    · intro c hc
      obtain ⟨d, -, rfl⟩ := List.mem_map.mp (List.mem_reverse.mp hc)
      exact digit_ascii d
  unfold bannerText
  split_ifs
  · exact fun c hc => absurd hc List.not_mem_nil
  · simp only [List.mem_append] at hplain ⊢
    rintro c ((hc | hc) | hc)
    · exact hplain c (Or.inl hc)
    · exact hdigits c hc
    · exact hplain c (Or.inr hc)

theorem kprintf_text {i : ℕ} (hpos : i ≠ 0) (hi : i < wordSize) (j tabs : ℕ) (v : Display) :
    ∃ m, ∀ fuel, m ≤ fuel → kprintf fuel tabs banner [i, j] v =
      passAll (kprintfSink tabs banner) (bannerText i) (some v) := by
  have hstring : StringAt (fun a => banner.getD a 0) 0 banner :=
    literal_string (nonzero_of_not_mem (by decide)) (by decide)
  obtain ⟨m, hm⟩ := @doPrintf_prints _ (kprintfSink tabs banner) (fun k => [i, j].getD k 0) bannerItems
    [⟨i, []⟩] 0 (some v) bannerItems_wellFormed (fun _ _ => banner_items ▸ hstring) (banner_supplied rfl hi)
  refine ⟨m, fun fuel hfuel => ?_⟩
  rw [kprintf, hm fuel hfuel, Option.bind_some, render_banner hpos hi]

/-- The terminal of the console `i`, with what `init_console` prints. -/
def started (hstart : Probed start) (i : ℕ) : Terminal start.vcWidth start.vcHeight :=
  (poweredOn hstart.width_pos hstart.height_pos start.mem
    (start.vgaFbAdr + 2 * (start.vcWidth * start.vcHeight * i)) i).receives (bannerText i)

/-- The first `k` consoles are set up, and the text buffer behind them is as it was. -/
structure Begun (hstart : Probed start) (k : ℕ) (v : Display) : Prop where
  filled : Filled start k v
  shows : AllShow k (started hstart) v
  behind : ∀ a, start.vgaFbAdr + 2 * (start.vcWidth * start.vcHeight * k) ≤ a → v.mem a = start.mem a

/-- The console that `placeVc` sets up shows the cells as they are. -/
theorem placeVc_shows {hstart : Probed start} (hb : Begun hstart k v) (hk : k < maxVc)
    (hroom : 2 * (start.vcWidth * start.vcHeight) * (k + 1) ≤ 32768) :
    AllShow (k + 1) (Function.update (started hstart) k (poweredOn hstart.width_pos hstart.height_pos start.mem
      (start.vgaFbAdr + 2 * (start.vcWidth * start.vcHeight * k)) k)) (placeVc k v) := by
  have hfilled := placeVc_filled hstart hb.filled hroom
  have hcon := placeVc_console hstart hb.filled hroom
  refine ⟨hfilled.sound, fun i hi => ?_, fun i hi j hj hij => ?_⟩
  · by_cases hik : i = k
    · subst hik
      rw [Function.update_self]
      have hscreen : (placeVc i v).screen i = ⟨v.mem, ⟨0, i + 1, 0, 0, 0, 0, 0,
          start.vgaFbAdr + 2 * (start.vcWidth * start.vcHeight * i)⟩, v.vcWidth, v.vcHeight⟩ :=
        congrArg (fun con => Screen.mk v.mem con v.vcWidth v.vcHeight) hcon
      have hcode : attributeCode (attributeOf (i + 1)) = i + 1 :=
        attributeCode_of _ (by rw [maxVc] at hk; omega)
      rw [hscreen]
      refine ⟨⟨hb.filled.width, hb.filled.height, rfl, rfl, hcode.symm, fun r x => ?_⟩, rfl⟩
      have hattribute := fun b : UInt8 => attributeCode_of b.toNat b.toNat_lt
      simp only [cell, cellBytes, poweredOn, hattribute, UInt8.ofNat_toNat]
      rw [hb.behind _ (by omega), hb.behind _ (by omega)]
    · rw [Function.update_of_ne hik]
      have hsame : (placeVc k v).screen i = v.screen i :=
        congrArg (fun con => Screen.mk v.mem con v.vcWidth v.vcHeight) (placeVc_other hik)
      rw [hsame]
      exact hb.shows.shows i (by omega)
  · have hfollow {i j : ℕ} (hlt : i < j) : start.vcWidth * start.vcHeight * i + start.vcWidth * start.vcHeight ≤
        start.vcWidth * start.vcHeight * j := by
      rw [← Nat.mul_succ]
      exact Nat.mul_le_mul_left _ hlt
    rw [hfilled.fbAdr i hi, hfilled.fbAdr j hj]
    rcases Nat.lt_or_gt_of_ne hij with hlt | hgt
    · have hbefore := hfollow hlt
      omega
    · have hbefore := hfollow hgt
      omega

theorem AllShow.congr {n : ℕ} {ts' : ℕ → Terminal w h} (hv : AllShow n ts v) (hts : ∀ i < n, ts i = ts' i) :
    AllShow n ts' v :=
  ⟨hv.sound, fun i hi => hts i hi ▸ hv.shows i hi, hv.apart⟩

theorem initVc_begun {hstart : Probed start} (hb : Begun hstart k v) (hstops : 8 ∣ start.vcWidth)
    (hk : k < maxVc) (hroom : 2 * (start.vcWidth * start.vcHeight) * (k + 1) ≤ 32768) (numVcs : ℕ) :
    ∃ v', (∀ tabs, 9 ≤ tabs → ∃ m, ∀ fuel, m ≤ fuel → initVc fuel tabs numVcs k v = some v') ∧
      Begun hstart (k + 1) v' := by
  have hshows := placeVc_shows hb hk hroom
  obtain ⟨u, hu, hfilled⟩ := initVc_filled hstart hb.filled hroom numVcs
  have hregion : start.vcWidth * start.vcHeight * (k + 1) =
      start.vcWidth * start.vcHeight * k + start.vcWidth * start.vcHeight := Nat.mul_succ _ _
  rcases Nat.eq_zero_or_pos k with rfl | hpos
  · obtain ⟨m, hm⟩ := hu 9 le_rfl
    have hplaced : placeVc 0 v = u := Option.some.inj ((if_neg (Nat.lt_irrefl 0)).symm.trans (hm m le_rfl))
    refine ⟨u, hu, hfilled, ?_, fun a ha => ?_⟩
    · rw [← hplaced]
      refine hshows.congr fun i hi => ?_
      rw [Nat.lt_one_iff.mp hi, Function.update_self]
      rfl
    · rw [← hplaced]
      exact hb.behind a (by omega)
  · obtain ⟨v', hall, hv', hplaces, hwithin⟩ :=
      hshows.prints hstops (Nat.lt_succ_self k) banner (bannerText_ascii k)
    have hcur : (placeVc k v).currVc = k := rfl
    rw [hcur, Function.update_idem, Function.update_self] at hv'
    have hprint : ∀ tabs, 9 ≤ tabs → ∃ m, ∀ fuel, m ≤ fuel → initVc fuel tabs numVcs k v = some v' := by
      intro tabs htabs
      have hsmall : k < wordSize := hk.trans (by decide)
      obtain ⟨m, hm⟩ := kprintf_text hpos.ne' hsmall (wsub numVcs 1) tabs (placeVc k v)
      refine ⟨m, fun fuel hfuel => ?_⟩
      rw [initVc, if_pos hpos, hm fuel hfuel]
      exact hall tabs htabs
    have hsame : u = v' := by
      obtain ⟨m, hm⟩ := hu 9 le_rfl
      obtain ⟨m', hm'⟩ := hprint 9 le_rfl
      exact Option.some.inj ((hm _ (Nat.le_max_left m m')).symm.trans (hm' _ (Nat.le_max_right m m')))
    subst hsame
    refine ⟨u, hprint, hfilled, hv'.congr fun i hi => ?_, fun a ha => ?_⟩
    · by_cases hik : i = k
      · subst hik
        exact Function.update_self ..
      · exact Function.update_of_ne hik ..
    · have hout : Outside ((placeVc k v).screen k) a := by
        refine Or.inr ?_
        have hfb : ((placeVc k v).screen k).con.fbAdr =
            start.vgaFbAdr + 2 * (start.vcWidth * start.vcHeight * k) :=
          congrArg Console.fbAdr (placeVc_console hstart hb.filled hroom)
        have hwidth : ((placeVc k v).screen k).width = start.vcWidth := hb.filled.width
        have hheight : ((placeVc k v).screen k).height = start.vcHeight := hb.filled.height
        rw [hfb, hwidth, hheight]
        omega
      exact (hwithin a hout).trans (hb.behind a (by omega))

theorem initVcs_begun (hstart : Probed start) (hstops : 8 ∣ start.vcWidth) (hfilled : Filled start 0 start)
    (numVcs : ℕ) {k : ℕ} (hk : k ≤ maxVc) (hroom : 2 * (start.vcWidth * start.vcHeight) * k ≤ 32768) :
    ∃ v', (∀ tabs, 9 ≤ tabs → ∃ m, ∀ fuel, m ≤ fuel →
      (List.range k).foldlM (fun v i => initVc fuel tabs numVcs i v) start = some v') ∧ Begun hstart k v' := by
  induction k with
  | zero =>
    refine ⟨start, fun _ _ => ⟨0, fun _ _ => rfl⟩, hfilled, ⟨hfilled.sound, ?_, ?_⟩, fun _ _ => rfl⟩
    · exact fun i hi => absurd hi (Nat.not_lt_zero i)
    · exact fun i hi => absurd hi (Nat.not_lt_zero i)
  | succ k ih =>
    obtain ⟨v, hrange, hv⟩ := ih (by omega) (Nat.le_trans (Nat.mul_le_mul_left _ (Nat.le_succ k)) hroom)
    obtain ⟨v', hinit, hv'⟩ := initVc_begun hv hstops hk hroom numVcs
    refine ⟨v', fun tabs htabs => ?_, hv'⟩
    obtain ⟨m₁, hm₁⟩ := hrange tabs htabs
    obtain ⟨m₂, hm₂⟩ := hinit tabs htabs
    refine ⟨max m₁ m₂, fun fuel hfuel => ?_⟩
    rw [List.range_succ, List.foldlM_append, hm₁ fuel (by omega)]
    change ([k].foldlM (fun v i => initVc fuel tabs numVcs i v) v) = some v'
    rw [List.foldlM_cons, hm₂ fuel (by omega)]
    rfl

theorem countVcs_le {width height n : ℕ} (hcount : countVcs width height = some n) : n ≤ maxVc := by
  unfold countVcs at hcount
  dsimp only at hcount
  split_ifs at hcount
  rw [← Option.some.inj hcount]
  exact Nat.min_le_right _ _

theorem initConsole_begun {misc : ℕ} {mem : ByteMem} (crtc : Crtc) (hstart : Probed (probe misc mem crtc))
    (hstops : 8 ∣ readWord mem 0x44A) : ∃ v₀, Started misc mem crtc v₀ ∧
      AllShow v₀.numVcs (started hstart) v₀.display := by
  obtain ⟨n, hcount, -, hroom⟩ := countVcs_fits hstart
  obtain ⟨d, hinit, hbegun⟩ :=
    initVcs_begun hstart hstops (probe_filled misc mem crtc) n (countVcs_le hcount) hroom
  obtain ⟨currVc, crtc', hselect⟩ := selectVc_eq 0 ⟨d, n⟩
  refine ⟨selectVc 0 ⟨d, n⟩, fun tabs htabs => ?_, ?_⟩
  · obtain ⟨m, hm⟩ := hinit tabs htabs
    refine ⟨m, fun fuel hfuel => ?_⟩
    unfold initConsole
    simp only [hcount, Option.bind_eq_bind, Option.bind_some]
    rw [hm fuel hfuel]
    rfl
  · obtain ⟨hsound, hshows, hapart⟩ := hbegun.shows
    rw [hselect]
    exact ⟨⟨hsound.sized, hsound.bounded⟩, hshows, hapart⟩

/-- From `init_console` on, in any order of the calls, each console shows what a terminal of its own shows after
its banner and the characters written to it. -/
theorem consoles_show_terminals (misc : ℕ) (mem : ByteMem) (crtc : Crtc) (hwidth : 0 < readWord mem 0x44A)
    (hfits : 2 * (readWord mem 0x44A * ((mem 0x484).toNat + 1)) ≤ 32768) (hstops : 8 ∣ readWord mem 0x44A) :
    ∃ v₀, Started misc mem crtc v₀ ∧ ∀ calls v, (∀ call ∈ calls, OneByte call) → Run Step v₀ calls v →
      ∀ i < v₀.numVcs, Shows ((poweredOn hwidth (Nat.succ_pos (mem 0x484).toNat) mem
        ((probe misc mem crtc).vgaFbAdr + 2 * (readWord mem 0x44A * ((mem 0x484).toNat + 1) * i)) i).receives
          (bannerText i ++ textFor i calls)) (v.display.screen i) := by
  have hbase : (probe misc mem crtc).vgaFbAdr ≤ 0xB8000 := by
    change (if misc &&& 1 ≠ 0 then 0xB8000 else 0xB0000) ≤ 0xB8000
    split_ifs <;> decide
  obtain ⟨v₀, hinit, hshows⟩ := initConsole_begun crtc ⟨hwidth, Nat.succ_pos _, hfits, hbase⟩ hstops
  refine ⟨v₀, hinit, fun calls v hbytes hrun i hi => ?_⟩
  obtain ⟨-, hv⟩ := run_allShow hstops hbytes hshows hrun
  rw [Terminal.receives_append]
  exact hv.shows i hi

def textMode : ByteMem := fun a => if a = 0x44A then 80 else if a = 0x484 then 24 else 0

/-- Two consoles in turn, the first in the middle of an escape sequence. -/
def inTurn : List Call :=
  [.putch 1 0x1B, .putch 0 0x61, .putch 1 0x5B, .select 1, .putch 1 0x33, .putch 0 0x09, .putch 1 0x31,
    .putch 1 0x6D, .putch 1 0x62]

example : textFor 0 inTurn = [0x61, 0x09] ∧ textFor 1 inTurn = [0x1B, 0x5B, 0x33, 0x31, 0x6D, 0x62] := by decide

theorem consoles_show_terminals_textMode : ∃ v₀, Started 1 textMode ⟨0, fun _ => 0⟩ v₀ ∧
    ∀ v, Run Step v₀ inTurn v → ∀ i < v₀.numVcs,
      Shows ((poweredOn (w := 80) (h := 25) (by decide) (by decide) textMode (0xB8000 + 2 * (80 * 25 * i))
        i).receives (bannerText i ++ textFor i inTurn)) (v.display.screen i) := by
  obtain ⟨v₀, hinit, hshows⟩ :=
    consoles_show_terminals 1 textMode ⟨0, fun _ => 0⟩ (by decide) (by decide) (by decide)
  refine ⟨v₀, hinit, fun v hrun i hi => hshows inTurn v ?_ hrun i hi⟩
  simp [inTurn, OneByte]

end Start

end Ktux.ConsoleTerminals
