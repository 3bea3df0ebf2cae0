import Mathlib.Data.List.GetD
import Mathlib.Algebra.Order.Group.Nat
import Mathlib.Tactic.Common

set_option autoImplicit false

/-!
# A text broken into rows, and the last of them
-/
namespace Ktux.TextRows

variable {α : Type*} {h : ℕ} {blank : α}

/-- The rows of a text that goes on after `cur`. A row ends at a newline, and as soon as it has `w`
characters. -/
def rowsFrom [DecidableEq α] (w : ℕ) (nl : α) : List α → List α → List (List α)
  | cur, [] => [cur]
  | cur, c :: text =>
    if c = nl then cur :: rowsFrom w nl [] text
    else if (cur ++ [c]).length = w then (cur ++ [c]) :: rowsFrom w nl [] text
    else rowsFrom w nl (cur ++ [c]) text

def rows [DecidableEq α] (w : ℕ) (nl : α) (text : List α) : List (List α) := rowsFrom w nl [] text

def lastRows (h : ℕ) (ls : List (List α)) : List (List α) := ls.drop (ls.length - h)

/-- Short and missing rows are blank. -/
def charAt (blank : α) (h : ℕ) (ls : List (List α)) (r x : ℕ) : α :=
  ((lastRows h ls).getD r []).getD x blank

theorem charAt_eq (blank : α) (h : ℕ) (ls : List (List α)) (r x : ℕ) :
    charAt blank h ls r x = (ls.getD (ls.length - h + r) []).getD x blank := by
  rw [charAt, lastRows]
  simp only [List.getD_eq_getElem?_getD, List.getElem?_drop]

theorem charAt_nil (h r x : ℕ) : charAt blank h [[]] r x = blank := by
  rw [charAt_eq]
  cases [[]].length - h + r <;> rfl

theorem charAt_below (ls : List (List α)) {r : ℕ} (x : ℕ) (hr : h ≤ r) : charAt blank h ls r x = blank := by
  rw [charAt_eq, List.getD_eq_default ls [] (by omega)]
  rfl

/-- A new row is blank: it moves the window, or fits into it. -/
theorem charAt_newRow (ls : List (List α)) (r x : ℕ) : charAt blank h (ls ++ [[]]) r x =
    if ls.length < h then charAt blank h ls r x else charAt blank h ls (r + 1) x := by
  have happend : ∀ i, (ls ++ [[]]).getD i [] = ls.getD i [] := by
    intro i
    rcases Nat.lt_or_ge i ls.length with hi | hi
    · exact List.getD_append _ _ _ _ hi
    · rw [List.getD_append_right _ _ _ _ hi, List.getD_eq_default _ _ hi]
      cases i - ls.length <;> rfl
  simp only [charAt_eq, happend, List.length_append, List.length_singleton]
  split_ifs with hroom
  · rw [Nat.sub_eq_zero_of_le (by omega : ls.length + 1 ≤ h), Nat.sub_eq_zero_of_le (Nat.le_of_lt hroom)]
  · rw [show ls.length + 1 - h + r = ls.length - h + (r + 1) by omega]

theorem charAt_type (before : List (List α)) (cur : List α) (c : α) {r x : ℕ} (hh : 0 < h) (hr : r < h) :
    charAt blank h (before ++ [cur ++ [c]]) r x =
      if r = min before.length (h - 1) ∧ x = cur.length then c
      else charAt blank h (before ++ [cur]) r x := by
  simp only [charAt_eq, List.length_append, List.length_singleton]
  rcases Nat.lt_trichotomy (before.length + 1 - h + r) before.length with hi | hi | hi
  · rw [if_neg (by omega), List.getD_append _ _ _ _ hi, List.getD_append _ _ _ _ hi]
  · rw [hi, List.getD_append_right _ _ _ _ (Nat.le_refl _), List.getD_append_right _ _ _ _ (Nat.le_refl _),
      Nat.sub_self]
    have hrow : r = min before.length (h - 1) := by omega
    change (cur ++ [c]).getD x blank = if _ then c else cur.getD x blank
    rcases Nat.lt_trichotomy x cur.length with hx | hx | hx
    · rw [if_neg (by omega), List.getD_append _ _ _ _ hx]
    · rw [if_pos ⟨hrow, hx⟩, List.getD_append_right _ _ _ _ hx.ge, hx, Nat.sub_self]
      rfl
    · rw [if_neg (by omega), List.getD_eq_default _ _ hx.le, List.getD_eq_default]
      rw [List.length_append, List.length_singleton]
      omega
  · rw [if_neg (by omega), List.getD_eq_default (before ++ [cur ++ [c]]),
      List.getD_eq_default (before ++ [cur])]
    all_goals rw [List.length_append, List.length_singleton]; omega

end Ktux.TextRows
