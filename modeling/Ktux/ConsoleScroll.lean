import Ktux.ConsoleText

set_option autoImplicit false

/-!
# Scrolling by several rows

`move_cursor` takes any row, so `scroll` may find the cursor well below the console.
-/
namespace Ktux.ConsoleScroll
open Words Video ConsoleText

/-- `scroll` moves the rows up by the rows that the cursor is below the last, blanks what is left at the
bottom and touches nothing else. -/
structure ScrollsExactly (s : Screen) : Prop where
  still : s.con.csrY < s.height → scroll s = s
  moved : s.height ≤ s.con.csrY → ∀ r < s.height - scrollRows s, ∀ x < s.width,
    cell (scroll s).mem s.con.fbAdr (s.width * r + x) =
      cell s.mem s.con.fbAdr (s.width * (r + scrollRows s) + x)
  blank : s.height ≤ s.con.csrY → ∀ r < s.height, s.height - scrollRows s ≤ r → ∀ x < s.width,
    cell (scroll s).mem s.con.fbAdr (s.width * r + x) = (0x20, UInt8.ofNat s.con.attrib)
  cursor : s.height ≤ s.con.csrY → (scroll s).con = { s.con with csrY := s.height - 1 }
  outside : ∀ a, a < s.con.fbAdr ∨ s.con.fbAdr + 2 * (s.width * s.height) ≤ a → (scroll s).mem a = s.mem a

/-- The rows below the one that is blanked are blank already, if there are any. -/
def BlankBelow (s : Screen) : Prop :=
  s.con.csrY < s.height ∨ ∀ r < s.height, s.height - scrollRows s < r → ∀ x < s.width,
    cell s.mem s.con.fbAdr (s.width * r + x) = (0x20, UInt8.ofNat s.con.attrib)

section Rows
variable {s : Screen} {r x : ℕ}

theorem row_moved (h : Placed s) (hlow : s.height ≤ s.con.csrY) (hhigh : s.con.csrY < 2 * s.height)
    (hr : r < s.height - scrollRows s) (hx : x < s.width) :
    cell (scroll s).mem s.con.fbAdr (s.width * r + x) =
      cell s.mem s.con.fbAdr (s.width * (r + scrollRows s) + x) := by
  have hshift : s.width * r + x + s.width * scrollRows s = s.width * (r + scrollRows s) + x := by
    rw [Nat.mul_add, Nat.add_right_comm]
  rw [scroll_by_cells h hlow hhigh, if_pos (index_lt hr hx), hshift]

theorem row_blanked (h : Placed s) (hlow : s.height ≤ s.con.csrY) (hhigh : s.con.csrY < 2 * s.height)
    (hr : r = s.height - scrollRows s) (hx : x < s.width) :
    cell (scroll s).mem s.con.fbAdr (s.width * r + x) = (0x20, UInt8.ofNat s.con.attrib) := by
  subst hr
  rw [scroll_by_cells h hlow hhigh, if_neg (by omega), if_pos (by omega)]

theorem row_kept (h : Placed s) (hlow : s.height ≤ s.con.csrY) (hhigh : s.con.csrY < 2 * s.height)
    (hr : s.height - scrollRows s < r) : cell (scroll s).mem s.con.fbAdr (s.width * r + x) =
      cell s.mem s.con.fbAdr (s.width * r + x) := by
  have hbelow : s.width * (s.height - scrollRows s) + s.width ≤ s.width * r := by
    rw [← Nat.mul_succ]
    exact Nat.mul_le_mul_left s.width hr
  rw [scroll_by_cells h hlow hhigh, if_neg (by omega), if_neg (by omega)]

theorem scrollsExactly_of_blank (h : Placed s) (hhigh : s.con.csrY < 2 * s.height) (hblank : BlankBelow s) :
    ScrollsExactly s := by
  have hstill : s.con.csrY < s.height → scroll s = s := fun hlt => if_neg (Nat.not_le.mpr hlt)
  refine ⟨hstill, fun hlow r hr x hx => row_moved h hlow hhigh hr hx, fun hlow r hr hge x hx => ?_,
    fun hlow => by rw [scroll_by h hlow hhigh]; rfl, fun a ha => ?_⟩
  · rcases Nat.eq_or_lt_of_le hge with heq | hlt
    · exact row_blanked h hlow hhigh heq.symm hx
    · rw [row_kept h hlow hhigh hlt]
      exact hblank.resolve_left (Nat.not_lt.mpr hlow) r hr hlt x hx
  · rcases Nat.lt_or_ge s.con.csrY s.height with hlt | hlow
    · rw [hstill hlt]
    · exact scroll_by_outside h hlow hhigh ha

end Rows

theorem scroll_exact_iff {s : Screen} (h : Placed s) (hhigh : s.con.csrY < 2 * s.height) :
    ScrollsExactly s ↔ BlankBelow s := by
  constructor
  · intro hexact
    rcases Nat.lt_or_ge s.con.csrY s.height with hlt | hlow
    · exact Or.inl hlt
    · refine Or.inr fun r hr hlt x hx => ?_
      rw [← row_kept h hlow hhigh hlt]
      exact hexact.blank hlow r hr hlt.le x hx
  · exact scrollsExactly_of_blank h hhigh

/-- One column and three rows, with a letter in the last, and the cursor two rows below. -/
def lettered : Screen where
  mem := fun a => if a = 4 then 67 else 0
  con := { esc := 0, attrib := 7, csrX := 0, csrY := 4, esc1 := 0, esc2 := 0, esc3 := 0, fbAdr := 0 }
  width := 1
  height := 3

/-- With the cursor only one row below, the letter moves up and the last row is blanked. -/
theorem scroll_exact_lettered : ¬ScrollsExactly lettered ∧
    ScrollsExactly { lettered with con := { lettered.con with csrY := 3 } } := by
  refine ⟨fun hexact => ?_,
    (scroll_exact_iff ⟨by decide, by decide, by decide⟩ (by decide)).mpr (Or.inr (by decide))⟩
  have hblank := (scroll_exact_iff ⟨by decide, by decide, by decide⟩ (by decide)).mp hexact
  exact absurd (hblank.resolve_left (by decide) 2 (by decide) (by decide) 0 (by decide)) (by decide)

theorem scroll_leaves_letter : ¬∀ s : Screen, Placed s → s.con.csrY < 2 * s.height → ScrollsExactly s := by
  intro hall
  have hblank := (hall lettered ⟨by decide, by decide, by decide⟩ (by decide)).blank (by decide) 2
    (by decide) (by decide) 0 (by decide)
  have hletter : cell (scroll lettered).mem lettered.con.fbAdr (lettered.width * 2 + 0) = (67, 0) := by decide
  exact absurd (hblank.symm.trans hletter) (by decide)

end Ktux.ConsoleScroll
