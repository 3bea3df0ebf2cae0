import Ktux.TextRows
import Ktux.Video

set_option autoImplicit false

/-!
# The text on a console

A console that was cleared shows the last rows of the text written since.
-/
namespace Ktux.ConsoleText
open Words ByteMemory KernelString Video TextRows

section Cells
variable {fb i j n d val : ℕ} {m : ByteMem}

def cell (m : ByteMem) (fb i : ℕ) : UInt8 × UInt8 := (m (fb + 2 * i), m (fb + 2 * i + 1))

theorem cell_storeWord : cell (storeWord (fb + 2 * j) val m) fb i =
    if i = j then (UInt8.ofNat val, UInt8.ofNat (val / 256)) else cell m fb i := by
  unfold cell
  split_ifs with hij
  · rw [hij, storeWord_low, storeWord_high]
  · unfold storeWord
    rw [blit_outside (by omega), blit_outside (by omega)]

theorem cell_copy : cell (blit fb (n * 2) (fun k => m (fb + 2 * d + k)) m) fb i =
    if i < n then cell m fb (i + d) else cell m fb i := by
  unfold cell
  split_ifs with hi
  · have hsrc : fb + 2 * (i + d) = fb + 2 * d + 2 * i := by omega
    have hhigh : fb + 2 * i + 1 = fb + (2 * i + 1) := Nat.add_assoc _ _ _
    rw [hsrc, hhigh, blit_inside (by omega), blit_inside (by omega)]
    rfl
  · rw [blit_outside (by omega), blit_outside (by omega)]

theorem cell_fill : cell (blit (fb + 2 * d) (2 * n) (fun k => wordByte val (k % 2)) m) fb i =
    if d ≤ i ∧ i < d + n then (UInt8.ofNat val, UInt8.ofNat (val / 256)) else cell m fb i := by
  unfold cell
  split_ifs with hi
  · obtain ⟨k, rfl⟩ := Nat.exists_eq_add_of_le hi.1
    have hlow : fb + 2 * (d + k) = fb + 2 * d + 2 * k := by omega
    rw [hlow, blit_inside (by omega), Nat.add_assoc (fb + 2 * d), blit_inside (by omega), Nat.mul_mod_right,
      Nat.mul_add_mod, wordByte, wordByte, pow_zero, Nat.div_one, Nat.mod_eq_of_lt Nat.one_lt_two, pow_one]
  · rw [blit_outside (by omega), blit_outside (by omega)]

theorem att_bytes (a : ℕ) {c : ℕ} (hc : c < 256) : UInt8.ofNat (c ||| wmul a 256) = UInt8.ofNat c ∧
    UInt8.ofNat ((c ||| wmul a 256) / 256) = UInt8.ofNat a := by
  have hatt : wmul a 256 = a % 2 ^ 24 * 2 ^ 8 := by
    rw [wmul, wordSize_eq]
    omega
  rw [Nat.or_comm, hatt, or_low 8 _ c hc]
  constructor <;> apply UInt8.toNat_inj.mp <;> simp only [UInt8.toNat_ofNat'] <;> omega

theorem index_lt {w h r x : ℕ} (hr : r < h) (hx : x < w) : w * r + x < w * h :=
  calc w * r + x < w * r + w := Nat.add_lt_add_left hx _
    _ = w * (r + 1) := (Nat.mul_succ w r).symm
    _ ≤ w * h := Nat.mul_le_mul_left w hr

theorem index_inj {w r x r' x' : ℕ} (hx : x < w) (hx' : x' < w) :
    w * r + x = w * r' + x' ↔ r = r' ∧ x = x' := by
  constructor
  · intro heq
    have hdiv := congrArg (· / w) heq
    have hmod := congrArg (· % w) heq
    simp only [Nat.mul_add_div (Nat.zero_lt_of_lt hx), Nat.div_eq_of_lt hx, Nat.div_eq_of_lt hx',
      Nat.add_zero, Nat.mul_add_mod, Nat.mod_eq_of_lt hx, Nat.mod_eq_of_lt hx'] at hdiv hmod
    exact ⟨hdiv, hmod⟩
  · rintro ⟨rfl, rfl⟩
    rfl

theorem rows_above {w h : ℕ} (hh : 0 < h) : w * (h - 1) + w = w * h := by
  rw [← Nat.mul_succ, Nat.succ_eq_add_one, Nat.sub_add_cancel hh]

end Cells

section Screens
variable {s : Screen} {a : ℕ} {ls : List (List UInt8)}

/-- The cells of the console are memory below the end of the address space. -/
structure Placed (s : Screen) : Prop where
  width_pos : 0 < s.width
  height_pos : 0 < s.height
  fits : s.con.fbAdr + 2 * (s.width * s.height) < wordSize

def CellsShow (s : Screen) (ls : List (List UInt8)) : Prop :=
  ∀ r < s.height, ∀ x < s.width, cell s.mem s.con.fbAdr (s.width * r + x) =
    (charAt 0x20 s.height ls r x, UInt8.ofNat s.con.attrib)

/-- The console shows the rows before the last and the part `cur` of the last. -/
structure Typing (s : Screen) (before : List (List UInt8)) (cur : List UInt8) : Prop where
  placed : Placed s
  esc : s.con.esc = 0
  cells : CellsShow s (before ++ [cur])
  csrX : s.con.csrX = cur.length
  csrY : s.con.csrY = min before.length (s.height - 1)
  room : cur.length < s.width

theorem Placed.cellAdr (h : Placed s) {i : ℕ} (hi : i ≤ s.width * s.height) :
    s.cellAdr i = s.con.fbAdr + 2 * i := by
  have hfits := h.fits
  rw [Screen.cellAdr, wmul_of_lt (by omega), wadd_of_lt (by omega)]

theorem put_cells (h : Placed s) {c : ℕ} (hc : c < 256) (hx : s.con.csrX < s.width)
    (hy : s.con.csrY < s.height) {i : ℕ} : cell (s.put c).mem s.con.fbAdr i =
      if i = s.width * s.con.csrY + s.con.csrX then (UInt8.ofNat c, UInt8.ofNat s.con.attrib)
      else cell s.mem s.con.fbAdr i := by
  have hfits := h.fits
  have hindex := index_lt hy hx
  have hwhere : wadd (wmul s.con.csrY s.width) s.con.csrX = s.width * s.con.csrY + s.con.csrX := by
    rw [Nat.mul_comm s.width] at hindex ⊢
    rw [wmul_of_lt (by omega), wadd_of_lt (by omega)]
  obtain ⟨hlow, hhigh⟩ := att_bytes s.con.attrib hc
  have hput : (s.put c).mem = storeWord (s.con.fbAdr + 2 * (s.width * s.con.csrY + s.con.csrX))
      (c ||| wmul s.con.attrib 256) s.mem := by
    rw [← h.cellAdr hindex.le, ← hwhere]
    rfl
  rw [hput, cell_storeWord, hlow, hhigh]

/-- `temp` of `scroll`, the rows that the cursor is below the last. -/
def scrollRows (s : Screen) : ℕ := s.con.csrY - s.height + 1

theorem Placed.scrollRows_area (h : Placed s) (hlow : s.height ≤ s.con.csrY)
    (hhigh : s.con.csrY < 2 * s.height) : scrollRows s ≤ s.height ∧
      s.width * (s.height - scrollRows s) + s.width * scrollRows s = s.width * s.height ∧
      s.width ≤ s.width * scrollRows s := by
  have hheight := h.height_pos
  have hle : scrollRows s ≤ s.height := by
    unfold scrollRows
    omega
  refine ⟨hle, ?_, Nat.le_mul_of_pos_right _ (Nat.succ_pos _)⟩
  rw [← Nat.mul_add, Nat.sub_add_cancel hle]

/-- From below the last row, the rows move up, and the row behind them is blanked. -/
theorem scroll_by (h : Placed s) (hlow : s.height ≤ s.con.csrY) (hhigh : s.con.csrY < 2 * s.height) : scroll s =
    ((s.setMem (memcpy (s.width * (s.height - scrollRows s) * 2) s.con.fbAdr
        (s.con.fbAdr + 2 * (s.width * scrollRows s)))).setMem
      (memsetw s.width (s.con.fbAdr + 2 * (s.width * (s.height - scrollRows s))) (0x20 ||| s.att))).setCon
        fun con => { con with csrY := s.height - 1 } := by
  have hheight := h.height_pos
  have hfits := h.fits
  obtain ⟨hle, harea, -⟩ := h.scrollRows_area hlow hhigh
  have hrows : s.height ≤ s.width * s.height := Nat.le_mul_of_pos_left _ h.width_pos
  have htemp : wadd (wsub s.con.csrY s.height) 1 = scrollRows s := by
    rw [wsub_of_le hlow (by omega), wadd_of_lt (by omega)]
    rfl
  have hkept : wsub s.height (scrollRows s) = s.height - scrollRows s := wsub_of_le hle (by omega)
  have hlast : wsub s.height 1 = s.height - 1 := wsub_of_le hheight (by omega)
  have hrest : wmul (s.height - scrollRows s) s.width = s.width * (s.height - scrollRows s) := by
    rw [Nat.mul_comm s.width] at harea ⊢
    exact wmul_of_lt (by omega)
  have hmoved : wmul (scrollRows s) s.width = s.width * scrollRows s := by
    rw [wmul_of_lt (by rw [Nat.mul_comm]; omega), Nat.mul_comm]
  have hcount : wmul (s.width * (s.height - scrollRows s)) 2 = s.width * (s.height - scrollRows s) * 2 :=
    wmul_of_lt (by omega)
  unfold scroll
  rw [if_pos hlow]
  simp only [htemp, hkept, hlast, hrest, hmoved, hcount, h.cellAdr (i := s.width * scrollRows s) (by omega),
    h.cellAdr (i := s.width * (s.height - scrollRows s)) (by omega)]

theorem scroll_by_cells (h : Placed s) (hlow : s.height ≤ s.con.csrY) (hhigh : s.con.csrY < 2 * s.height)
    (i : ℕ) : cell (scroll s).mem s.con.fbAdr i =
      if i < s.width * (s.height - scrollRows s) then cell s.mem s.con.fbAdr (i + s.width * scrollRows s)
      else if i < s.width * (s.height - scrollRows s) + s.width then (0x20, UInt8.ofNat s.con.attrib)
      else cell s.mem s.con.fbAdr i := by
  have hfits := h.fits
  obtain ⟨hle, harea, hrow⟩ := h.scrollRows_area hlow hhigh
  obtain ⟨hblank, hatt⟩ := att_bytes s.con.attrib (c := 0x20) (by decide)
  rw [scroll_by h hlow hhigh]
  change cell (memsetw s.width (s.con.fbAdr + 2 * (s.width * (s.height - scrollRows s)))
    (0x20 ||| wmul s.con.attrib 256) (memcpy (s.width * (s.height - scrollRows s) * 2) s.con.fbAdr
      (s.con.fbAdr + 2 * (s.width * scrollRows s)) s.mem)) s.con.fbAdr i = _
  rw [memsetw_eq _ (by omega), memcpy_eq _ (by omega) (by omega), cell_fill, cell_copy, hblank, hatt]
  split_ifs <;> first | rfl | omega

theorem scroll_by_outside (h : Placed s) (hlow : s.height ≤ s.con.csrY) (hhigh : s.con.csrY < 2 * s.height)
    {a : ℕ} (ha : a < s.con.fbAdr ∨ s.con.fbAdr + 2 * (s.width * s.height) ≤ a) :
    (scroll s).mem a = s.mem a := by
  have hfits := h.fits
  obtain ⟨hle, harea, hrow⟩ := h.scrollRows_area hlow hhigh
  rw [scroll_by h hlow hhigh]
  change memsetw s.width (s.con.fbAdr + 2 * (s.width * (s.height - scrollRows s))) (0x20 ||| s.att)
    (memcpy (s.width * (s.height - scrollRows s) * 2) s.con.fbAdr
      (s.con.fbAdr + 2 * (s.width * scrollRows s)) s.mem) a = _
  rw [memsetw_eq _ (by omega), memcpy_eq _ (by omega) (by omega), blit_outside (by omega),
    blit_outside (by omega)]

theorem scrollRows_full (hy : s.con.csrY = s.height) : scrollRows s = 1 := by
  rw [scrollRows, hy, Nat.sub_self]

theorem scroll_full (h : Placed s) (hy : s.con.csrY = s.height) : scroll s =
    ((s.setMem (memcpy (s.width * (s.height - 1) * 2) s.con.fbAdr (s.con.fbAdr + 2 * s.width))).setMem
      (memsetw s.width (s.con.fbAdr + 2 * (s.width * (s.height - 1))) (0x20 ||| s.att))).setCon
        fun con => { con with csrY := s.height - 1 } := by
  have hheight := h.height_pos
  rw [scroll_by h (by omega) (by omega), scrollRows_full hy, Nat.mul_one]

theorem scroll_cells (h : Placed s) (hy : s.con.csrY = s.height) :
    (scroll s).con = { s.con with csrY := s.height - 1 } ∧ (scroll s).width = s.width ∧
      (scroll s).height = s.height ∧ ∀ i < s.width * s.height, cell (scroll s).mem s.con.fbAdr i =
        if i < s.width * (s.height - 1) then cell s.mem s.con.fbAdr (i + s.width)
        else (0x20, UInt8.ofNat s.con.attrib) := by
  have hheight := h.height_pos
  have harea := @rows_above s.width _ hheight
  refine ⟨by rw [scroll_full h hy]; rfl, by rw [scroll_full h hy]; rfl, by rw [scroll_full h hy]; rfl,
    fun i hi => ?_⟩
  rw [scroll_by_cells h (by omega) (by omega), scrollRows_full hy, Nat.mul_one]
  split_ifs <;> first | rfl | omega

/-- A screen that is scrolled shows its rows from the second on, and an empty one. -/
theorem scroll_shows (h : Placed s) {before : List (List UInt8)} {row : List UInt8}
    (hcells : CellsShow s (before ++ [row])) (hfull : s.nextRow.con.csrY = s.nextRow.height)
    (hmany : s.height ≤ (before ++ [row]).length) : CellsShow (scroll s.nextRow) (before ++ [row] ++ [[]]) := by
  have hheight := h.height_pos
  have hplaced : Placed s.nextRow := ⟨h.width_pos, hheight, h.fits⟩
  obtain ⟨hcon, hw, hh, hscrolled⟩ := scroll_cells hplaced hfull
  intro r hr x hx
  rw [hw] at hx ⊢
  rw [hh] at hr ⊢
  rw [hcon]
  change cell (scroll s.nextRow).mem s.con.fbAdr (s.width * r + x) =
    (charAt 0x20 s.height (before ++ [row] ++ [[]]) r x, UInt8.ofNat s.con.attrib)
  have hmoved : cell (scroll s.nextRow).mem s.con.fbAdr (s.width * r + x) =
      if s.width * r + x < s.width * (s.height - 1) then cell s.mem s.con.fbAdr (s.width * r + x + s.width)
      else (0x20, UInt8.ofNat s.con.attrib) := hscrolled _ (index_lt hr hx)
  rw [hmoved, charAt_newRow, if_neg (Nat.not_lt.mpr hmany)]
  have hrs : r < s.height := hr
  have hxs : x < s.width := hx
  by_cases hlast : r < s.height - 1
  · have hshift : s.width * r + x + s.width = s.width * (r + 1) + x := by
      rw [Nat.mul_succ, Nat.add_right_comm]
    rw [if_pos (index_lt hlast hxs), hshift]
    exact hcells (r + 1) (by omega) x hxs
  · have hbottom : r = s.height - 1 := by omega
    rw [if_neg (by rw [hbottom]; omega), charAt_below _ _ (by omega)]

theorem newRow (h : Placed s) {before : List (List UInt8)} {row : List UInt8} (hesc : s.con.esc = 0)
    (hcells : CellsShow s (before ++ [row])) (hy : s.con.csrY = min before.length (s.height - 1)) :
    Typing (scroll s.nextRow) (before ++ [row]) [] := by
  have hwidth := h.width_pos
  have hheight := h.height_pos
  have hfits := h.fits
  have hrows : s.height ≤ s.width * s.height := Nat.le_mul_of_pos_left _ hwidth
  have hnext : s.nextRow.con.csrY = min before.length (s.height - 1) + 1 := by
    rw [← hy]
    exact @wadd_of_lt s.con.csrY 1 (by omega)
  by_cases hroom : before.length + 1 < s.height
  · have hinside : s.nextRow.con.csrY < s.nextRow.height := by
      rw [hnext]
      change _ < s.height
      omega
    have hstay : scroll s.nextRow = s.nextRow := if_neg (Nat.not_le.mpr hinside)
    rw [hstay]
    refine ⟨⟨hwidth, hheight, hfits⟩, hesc, fun r hr x hx => ?_, rfl, ?_, hwidth⟩
    · rw [charAt_newRow, if_pos]
      · exact hcells r hr x hx
      · rw [List.length_append]
        exact hroom
    · rw [hnext, List.length_append, List.length_singleton]
      change _ = min _ (s.height - 1)
      omega
  · have hfull : s.nextRow.con.csrY = s.nextRow.height := by
      rw [hnext]
      change _ = s.height
      omega
    have hmany : s.height ≤ (before ++ [row]).length := by
      rw [List.length_append]
      exact Nat.le_of_not_lt hroom
    have hplaced : Placed s.nextRow := ⟨hwidth, hheight, hfits⟩
    obtain ⟨hcon, hw, hh, -⟩ := scroll_cells hplaced hfull
    refine ⟨⟨?_, ?_, ?_⟩, ?_, scroll_shows h hcells hfull hmany, ?_, ?_, ?_⟩
    · rw [hw]
      exact hwidth
    · rw [hh]
      exact hheight
    · rw [hcon, hw, hh]
      exact hfits
    · rw [hcon]
      exact hesc
    · rw [hcon]
      rfl
    · rw [hcon, hh, List.length_append, List.length_singleton]
      change s.height - 1 = min _ (s.height - 1)
      omega
    · rw [hw]
      exact hwidth

/-- The character is in the cell of the cursor, and no other cell has changed. -/
theorem Typing.put_shows {before : List (List UInt8)} {cur : List UInt8} (h : Typing s before cur) (c : UInt8) :
    CellsShow (s.put c.toNat) (before ++ [cur ++ [c]]) := by
  have hheight := h.placed.height_pos
  have hx : s.con.csrX < s.width := by
    rw [h.csrX]
    exact h.room
  have hy : s.con.csrY < s.height := by
    rw [h.csrY]
    omega
  intro r hr x hxr
  have hcell := @put_cells s h.placed c.toNat c.toNat_lt hx hy (s.width * r + x)
  have hsame : s.width * r + x = s.width * s.con.csrY + s.con.csrX ↔
      r = min before.length (s.height - 1) ∧ x = cur.length := by
    rw [← h.csrX, ← h.csrY]
    exact index_inj hxr hx
  have htype := @charAt_type _ s.height 0x20 before cur c r x hheight hr
  change cell (s.put c.toNat).mem s.con.fbAdr (s.width * r + x) =
    (charAt 0x20 s.height (before ++ [cur ++ [c]]) r x, UInt8.ofNat s.con.attrib)
  rw [hcell, htype, if_congr hsame rfl rfl, UInt8.ofNat_toNat, h.cells r hr x hxr]
  split_ifs <;> rfl

/-- A printable character at the cursor, which ends a full row. -/
theorem Typing.printable {before : List (List UInt8)} {cur : List UInt8} (h : Typing s before cur) (c : UInt8) :
    if (cur ++ [c]).length = s.width then
      Typing (scroll ((s.put c.toNat).setX (wadd s.con.csrX 1)).wrap) (before ++ [cur ++ [c]]) []
    else Typing (scroll ((s.put c.toNat).setX (wadd s.con.csrX 1)).wrap) before (cur ++ [c]) := by
  obtain ⟨u, hu⟩ : ∃ u, u = (s.put c.toNat).setX (wadd s.con.csrX 1) := ⟨_, rfl⟩
  have hfits := h.placed.fits
  have hheight := h.placed.height_pos
  have hcols : s.width ≤ s.width * s.height := Nat.le_mul_of_pos_right _ hheight
  have hplaced : Placed u := by
    rw [hu]
    exact ⟨h.placed.width_pos, hheight, hfits⟩
  have hroom := h.room
  have hcsrX : u.con.csrX = (cur ++ [c]).length := by
    rw [List.length_append, ← h.csrX, hu]
    rw [← h.csrX] at hroom
    exact wadd_of_lt (by omega)
  have hwidth : u.width = s.width := by
    rw [hu]
    rfl
  have hcells : CellsShow u (before ++ [cur ++ [c]]) := by
    rw [hu]
    exact h.put_shows c
  have hesc : u.con.esc = 0 := by
    rw [hu]
    exact h.esc
  have hcsrY : u.con.csrY = min before.length (u.height - 1) := by
    rw [hu]
    exact h.csrY
  rw [← hu]
  split_ifs with hfull
  · have hwrap : u.wrap = u.nextRow := if_pos (by rw [hcsrX, hfull, hwidth])
    rw [hwrap]
    exact newRow hplaced hesc hcells hcsrY
  · have hshort : u.con.csrX < u.width := by
      rw [hcsrX, hwidth]
      rw [List.length_append, List.length_singleton] at hfull ⊢
      omega
    have hinside : u.con.csrY < u.height := by
      have hpos := hplaced.height_pos
      rw [hcsrY]
      omega
    have hstay : scroll u.wrap = u := by
      rw [Screen.wrap, if_neg (Nat.not_le.mpr hshort)]
      exact if_neg (Nat.not_le.mpr hinside)
    rw [hstay]
    exact ⟨hplaced, hesc, hcells, hcsrX, hcsrY, hcsrX ▸ hshort⟩

theorem Typing.newline {before : List (List UInt8)} {cur : List UInt8} (h : Typing s before cur) :
    Typing (scroll s.nextRow.wrap) (before ++ [cur]) [] := by
  have hwrap : s.nextRow.wrap = s.nextRow := if_neg (Nat.not_le.mpr h.placed.width_pos)
  rw [hwrap]
  exact newRow h.placed h.esc h.cells h.csrY

theorem clear_typing (h : Placed s) : Typing (s.clear.setCon Console.endEsc) [] [] := by
  have hfits := h.fits
  have hwidth := h.width_pos
  refine ⟨⟨hwidth, h.height_pos, hfits⟩, rfl, fun r hr x hx => ?_, rfl, (Nat.zero_min _).symm, hwidth⟩
  have harea : wmul s.height s.width = s.width * s.height := by
    rw [Nat.mul_comm s.width] at hfits ⊢
    exact wmul_of_lt (by omega)
  obtain ⟨hlow, hhigh⟩ := att_bytes s.con.attrib (c := 0x20) (by decide)
  have hindex : s.width * r + x < s.width * s.height := index_lt hr hx
  have hblank : charAt 0x20 s.height ([] ++ [([] : List UInt8)]) r x = 0x20 := charAt_nil _ _ _
  have hfill := @cell_fill s.con.fbAdr (s.width * r + x) (s.width * s.height) 0
    (0x20 ||| wmul s.con.attrib 256) s.mem
  rw [Nat.mul_zero, Nat.add_zero, Nat.zero_add, if_pos ⟨Nat.zero_le _, hindex⟩, hlow, hhigh] at hfill
  change cell (memsetw (wmul s.height s.width) s.con.fbAdr (0x20 ||| wmul s.con.attrib 256) s.mem) s.con.fbAdr
    (s.width * r + x) = (charAt 0x20 s.height ([] ++ [[]]) r x, UInt8.ofNat s.con.attrib)
  rw [harea, memsetw_eq _ hfits, hfill, hblank]
  rfl

end Screens

section Text
variable {s u w : Screen} {v : Display} {fuel con c : ℕ}

structure Kept (s u : Screen) : Prop where
  size : SameSize s u
  fbAdr : u.con.fbAdr = s.con.fbAdr
  attrib : u.con.attrib = s.con.attrib

theorem Kept.trans (h : Kept s u) (h' : Kept u w) : Kept s w :=
  ⟨h.size.trans h'.size, h'.fbAdr.trans h.fbAdr, h'.attrib.trans h.attrib⟩

theorem scroll_kept (s : Screen) : Kept s (scroll s) := by
  refine ⟨scroll_size s, ?_, ?_⟩ <;> rw [scroll_con]

theorem wrap_kept (s : Screen) : Kept s s.wrap := by
  refine ⟨wrap_size s, ?_, ?_⟩ <;> unfold Screen.wrap <;> split_ifs <;> rfl

def putAll (fuel con : ℕ) : List UInt8 → Display → Option Display
  | [], v => some v
  | c :: text, v => (putchHelp fuel con c.toNat v).bind (putAll fuel con text)

theorem putAll_cons {v' : Display} {c : UInt8} {text : List UInt8}
    (h : putchHelp fuel con c.toNat v = some v') : putAll fuel con (c :: text) v = putAll fuel con text v' := by
  rw [putAll, h]
  rfl

theorem putAll_append (xs ys : List UInt8) (v : Display) :
    putAll fuel con (xs ++ ys) v = (putAll fuel con xs v).bind (putAll fuel con ys) := by
  induction xs generalizing v with
  | nil => rfl
  | cons c xs ih =>
    rw [List.cons_append, putAll, putAll, Option.bind_assoc]
    exact congrArg _ (funext ih)

theorem putchHelp_of_screen (h : putchScreen fuel c (v.screen con) = some u) :
    ∃ v', putchHelp fuel con c v = some v' ∧ v'.screen con = u := by
  rw [← putchHelp_screen] at h
  exact Option.map_eq_some_iff.mp h

theorem escape_none (hesc : s.con.esc = 0) (c : ℕ) : escape c s = none := by
  unfold escape
  rw [hesc]
  rfl

theorem endEsc_self (hesc : s.con.esc = 0) : s.setCon Console.endEsc = s := by
  obtain ⟨mem, ⟨esc, attrib, csrX, csrY, esc1, esc2, esc3, fbAdr⟩, width, height⟩ := s
  cases hesc
  rfl

theorem putchScreen_newline (hesc : s.con.esc = 0) :
    putchScreen fuel 0x0A s = some (scroll s.nextRow.wrap) := by
  rw [putchScreen, escape_none hesc, endEsc_self hesc]
  rfl

theorem putchScreen_printable (fuel : ℕ) (hesc : s.con.esc = 0) (hc : 0x20 ≤ c) :
    putchScreen fuel c s = some (scroll ((s.put c).setX (wadd s.con.csrX 1)).wrap) := by
  have hdraw : draw fuel c s = some ((s.put c).setX (wadd s.con.csrX 1)) := by
    unfold draw
    rw [if_neg (by omega), if_neg (by omega), if_neg (by omega), if_neg (by omega), if_pos hc]
  rw [putchScreen, escape_none hesc, endEsc_self hesc]
  change (if c = 0x1B then _ else (draw fuel c s).map fun s => scroll s.wrap) = _
  rw [if_neg (by omega), hdraw]
  rfl

def IsText (c : UInt8) : Prop := c = 0x0A ∨ 0x20 ≤ c ∧ c ≤ 0x7E

theorem text_shown (fuel : ℕ) {text : List UInt8} (htext : ∀ c ∈ text, IsText c) {before : List (List UInt8)}
    {cur : List UInt8} (h : Typing (v.screen con) before cur) :
    ∃ v' before' cur', putAll fuel con text v = some v' ∧ Typing (v'.screen con) before' cur' ∧
      before' ++ [cur'] = before ++ rowsFrom v.vcWidth 0x0A cur text ∧ Kept (v.screen con) (v'.screen con) := by
  induction text generalizing v before cur with
  | nil => exact ⟨v, before, cur, rfl, h, rfl, ⟨rfl, rfl⟩, rfl, rfl⟩
  | cons c text ih =>
    obtain ⟨hc, htext⟩ := List.forall_mem_cons.mp htext
    -- one character, then the rest
    have hrest : ∀ {u before₁ cur₁}, putchScreen fuel c.toNat (v.screen con) = some u →
        Kept (v.screen con) u → Typing u before₁ cur₁ →
        before₁ ++ rowsFrom v.vcWidth 0x0A cur₁ text = before ++ rowsFrom v.vcWidth 0x0A cur (c :: text) →
        ∃ v' before' cur', putAll fuel con (c :: text) v = some v' ∧ Typing (v'.screen con) before' cur' ∧
          before' ++ [cur'] = before ++ rowsFrom v.vcWidth 0x0A cur (c :: text) ∧
            Kept (v.screen con) (v'.screen con) := by
      intro u before₁ cur₁ hput hkept htyping hrows
      obtain ⟨v₁, hv₁, rfl⟩ := putchHelp_of_screen hput
      have hwidth : v₁.vcWidth = v.vcWidth := hkept.size.1
      obtain ⟨v', before', cur', hall, htyping', hrows', hkept'⟩ := ih htext htyping
      refine ⟨v', before', cur', ?_, htyping', ?_, hkept.trans hkept'⟩
      · rw [putAll_cons hv₁, hall]
      · rw [hrows', hwidth, hrows]
    by_cases hnl : c = 0x0A
    · rw [hnl] at hrest ⊢
      refine hrest (putchScreen_newline h.esc) ?_ h.newline ?_
      · have hnext : Kept (v.screen con) (v.screen con).nextRow := ⟨setCon_size _ _, rfl, rfl⟩
        exact (hnext.trans (wrap_kept _)).trans (scroll_kept _)
      · rw [rowsFrom, if_pos rfl, List.append_assoc]
        rfl
    · have hprintable : 0x20 ≤ c.toNat := UInt8.le_iff_toNat_le.mp (hc.resolve_left hnl).1
      have hput := putchScreen_printable fuel h.esc hprintable
      have hkept : Kept (v.screen con) (scroll (((v.screen con).put c.toNat).setX
          (wadd (v.screen con).con.csrX 1)).wrap) := by
        have hput : Kept (v.screen con) (((v.screen con).put c.toNat).setX (wadd (v.screen con).con.csrX 1)) :=
          ⟨(put_size _ _).trans (setX_size _ _), rfl, rfl⟩
        exact (hput.trans (wrap_kept _)).trans (scroll_kept _)
      have htyped := h.printable c
      split_ifs at htyped with hfull
      · have hwhole : (cur ++ [c]).length = v.vcWidth := hfull
        refine hrest hput hkept htyped ?_
        rw [rowsFrom, if_neg hnl, if_pos hwhole, List.append_assoc]
        rfl
      · have hpart : ¬ (cur ++ [c]).length = v.vcWidth := hfull
        refine hrest hput hkept htyped ?_
        rw [rowsFrom, if_neg hnl, if_neg hpart]

def clearSequence : List UInt8 := [0x1B, 0x5B, 0x32, 0x4A]

theorem putchScreen_escape (fuel : ℕ) (h : escape c s = some u) : putchScreen fuel c s = some u := by
  rw [putchScreen, h]

theorem clearSequence_shown (fuel : ℕ) (hplaced : Placed (v.screen con)) (hesc : (v.vc con).esc = 0) :
    ∃ v', putAll fuel con clearSequence v = some v' ∧ Typing (v'.screen con) [] [] ∧
      Kept (v.screen con) (v'.screen con) := by
  obtain ⟨v₁, hput₁, hs₁⟩ := @putchHelp_of_screen
    ((v.screen con).setCon fun con => { con with esc := 1 }) v fuel
    con 0x1B (by rw [putchScreen, escape_none hesc, endEsc_self hesc]; rfl)
  obtain ⟨v₂, hput₂, hs₂⟩ := @putchHelp_of_screen
    ((v.screen con).setCon fun con => { con with esc := 2, esc1 := 0 }) v₁ fuel con 0x5B
    (putchScreen_escape fuel (by rw [hs₁]; rfl))
  have hopen : (v₂.screen con).con.esc = 2 := by rw [hs₂]; rfl
  obtain ⟨v₃, hput₃, hs₃⟩ := @putchHelp_of_screen _ v₂ fuel con 0x32
    (putchScreen_escape fuel (escape_digit hopen rfl))
  obtain ⟨s, hs⟩ : ∃ s, s = v₃.screen con := ⟨_, rfl⟩
  have hdigit : addDigit 0 0x32 = 2 := by decide
  have hcleared : escape 0x4A (v₃.screen con) = some (s.clear.setCon Console.endEsc) := by
    rw [← hs]
    refine escape_clear ?_ ?_ <;> rw [hs, hs₃, setCon_con, hs₂]
    · rfl
    · exact hdigit
  obtain ⟨v₄, hput₄, hs₄⟩ := putchHelp_of_screen (putchScreen_escape fuel hcleared)
  have hall : putAll fuel con clearSequence v = some v₄ :=
    (putAll_cons hput₁).trans ((putAll_cons hput₂).trans ((putAll_cons hput₃).trans (putAll_cons hput₄)))
  have hkept : Kept (v.screen con) s := by
    rw [hs, hs₃, hs₂]
    exact ⟨(setCon_size _ _).trans (setCon_size _ _), rfl, rfl⟩
  refine ⟨v₄, hall, ?_, ?_⟩
  · rw [hs₄]
    refine clear_typing ?_
    rw [hs, hs₃, hs₂]
    exact ⟨hplaced.width_pos, hplaced.height_pos, hplaced.fits⟩
  · rw [hs₄]
    exact hkept.trans ⟨(clear_size _).trans (setCon_size _ _), rfl, rfl⟩

/-- The last rows of `ls`, and the cursor behind the last character. -/
structure Shows (s : Screen) (ls : List (List UInt8)) : Prop where
  cells : CellsShow s ls
  csrX : s.con.csrX = (ls.getLastD []).length
  csrY : s.con.csrY = min ls.length s.height - 1

theorem Typing.shows {before : List (List UInt8)} {cur : List UInt8} (h : Typing s before cur) :
    Shows s (before ++ [cur]) := by
  have hheight := h.placed.height_pos
  refine ⟨h.cells, ?_, ?_⟩
  · rw [List.getLastD_concat]
    exact h.csrX
  · rw [h.csrY, List.length_append, List.length_singleton]
    omega

/-- A console cleared by ESC[2J shows the last rows of what is written to it. -/
theorem clearedConsole_shows (fuel : ℕ) (hplaced : Placed (v.screen con)) (hesc : (v.vc con).esc = 0)
    {text : List UInt8} (htext : ∀ c ∈ text, IsText c) :
    ∃ v', putAll fuel con (clearSequence ++ text) v = some v' ∧
      Shows (v'.screen con) (rows v.vcWidth 0x0A text) ∧ Kept (v.screen con) (v'.screen con) := by
  obtain ⟨v₁, hclear, htyping, hkept⟩ := clearSequence_shown fuel hplaced hesc
  obtain ⟨v₂, before, cur, hall, hlast, hrows, hkept'⟩ := text_shown fuel htext htyping
  have hwidth : v₁.vcWidth = v.vcWidth := hkept.size.1
  rw [List.nil_append, hwidth] at hrows
  refine ⟨v₂, ?_, ?_, hkept.trans hkept'⟩
  · rw [putAll_append, hclear, Option.bind_some, hall]
  · rw [rows, ← hrows]
    exact hlast.shows

def sampleDisplay : Display where
  mem := fun _ => 0
  vc := fun _ => ⟨0, 7, 2, 1, 0, 0, 0, 0xB8000⟩
  currVc := 0
  vgaFbAdr := 0xB8000
  crtcIoAdr := 0x3D4
  vcWidth := 3
  vcHeight := 2
  crtc := ⟨0, fun _ => 0⟩

theorem clearedConsole_shows_sample : ∃ v', putAll 0 0 (clearSequence ++ [0x61, 0x62, 0x63, 0x64, 0x0A, 0x78])
    sampleDisplay = some v' ∧ Shows (v'.screen 0) [[0x61, 0x62, 0x63], [0x64], [0x78]] ∧
      Kept (sampleDisplay.screen 0) (v'.screen 0) := by
  have hplaced : Placed (sampleDisplay.screen 0) := ⟨by decide, by decide, by decide⟩
  have htext : ∀ c ∈ [0x61, 0x62, 0x63, 0x64, 0x0A, 0x78], IsText c := by
    simp only [List.forall_mem_cons, List.not_mem_nil, false_implies, implies_true, and_true, IsText]
    decide
  exact clearedConsole_shows 0 hplaced rfl htext

end Text

end Ktux.ConsoleText
