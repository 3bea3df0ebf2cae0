import Ktux.ByteMemory

set_option autoImplicit false

/-!
# Lists and C strings in memory
-/
namespace Ktux.CString
open Words ByteMemory

variable {α : Type*}

/-- The values of `f` from `p` on. -/
def ListAt (f : ℕ → α) : ℕ → List α → Prop
  | _, [] => True
  | p, x :: xs => f p = x ∧ ListAt f (p + 1) xs

/-- A string and its NUL, below the wrap of the address space. -/
structure StringAt (m : ByteMem) (p : ℕ) (xs : List UInt8) : Prop where
  bytes : ListAt m p (xs ++ [0])
  nonzero : ∀ c ∈ xs, c ≠ 0
  fits : p + xs.length < wordSize

theorem nonzero_of_not_mem {xs : List UInt8} (h : 0 ∉ xs) : ∀ c ∈ xs, c ≠ 0 := fun _ hc hzero => h (hzero ▸ hc)

theorem ListAt.append {f : ℕ → α} {p : ℕ} {xs ys : List α} :
    ListAt f p (xs ++ ys) ↔ ListAt f p xs ∧ ListAt f (p + xs.length) ys := by
  induction xs generalizing p with
  | nil => simp [ListAt]
  | cons x xs ih =>
    rw [List.cons_append, ListAt, ListAt, ih, List.length_cons, and_assoc, Nat.add_right_comm, Nat.add_assoc]

theorem ListAt.getElem {f : ℕ → α} {p : ℕ} {xs : List α} (h : ListAt f p xs) {i : ℕ}
    (hi : i < xs.length) : f (p + i) = xs[i] := by
  induction xs generalizing p i with
  | nil => exact absurd hi (Nat.not_lt_zero i)
  | cons x xs ih =>
    cases i with
    | zero => exact h.1
    | succ i =>
      have hshift : p + (i + 1) = p + 1 + i := by omega
      rw [hshift, ih h.2 (Nat.lt_of_succ_lt_succ hi)]
      rfl

theorem ListAt.of_getElem {f : ℕ → α} {p : ℕ} {xs : List α}
    (h : ∀ i (hi : i < xs.length), f (p + i) = xs[i]) : ListAt f p xs := by
  induction xs generalizing p with
  | nil => trivial
  | cons x xs ih =>
    refine ⟨h 0 (Nat.succ_pos _), ih fun i hi => ?_⟩
    rw [Nat.add_right_comm]
    exact h (i + 1) (Nat.succ_lt_succ hi)

theorem getElem_concat_zero {xs : List UInt8} {i : ℕ} (hi : i < (xs ++ [0]).length) :
    (xs ++ [0])[i] = xs.getD i 0 := by
  rw [List.length_append, List.length_singleton] at hi
  rcases Nat.lt_or_eq_of_le (Nat.le_of_lt_succ hi) with hlt | rfl
  · rw [List.getElem_append_left hlt, List.getD_eq_getElem _ _ hlt]
  · rw [List.getElem_concat_length rfl, List.getD_eq_default _ _ le_rfl]

theorem StringAt.byte {m : ByteMem} {p : ℕ} {xs : List UInt8} (h : StringAt m p xs) {i : ℕ}
    (hi : i ≤ xs.length) : m (p + i) = xs.getD i 0 := by
  have hlt : i < (xs ++ [0]).length := by
    rw [List.length_append, List.length_singleton]
    omega
  rw [h.bytes.getElem hlt, getElem_concat_zero]

theorem StringAt.drop {m : ByteMem} {p : ℕ} {xs ys : List UInt8} (h : StringAt m p (xs ++ ys)) :
    StringAt m (p + xs.length) ys := by
  have hbytes := h.bytes
  rw [List.append_assoc, ListAt.append] at hbytes
  have hfits := h.fits
  rw [List.length_append] at hfits
  exact ⟨hbytes.2, fun c hc => h.nonzero c (List.mem_append_right _ hc), by omega⟩

theorem StringAt.congr {m m' : ByteMem} {p : ℕ} {xs : List UInt8} (h : StringAt m p xs)
    (hsame : ∀ a, p ≤ a → a ≤ p + xs.length → m' a = m a) : StringAt m' p xs := by
  refine ⟨ListAt.of_getElem fun i hi => ?_, h.nonzero, h.fits⟩
  rw [← h.bytes.getElem hi]
  rw [List.length_append, List.length_singleton] at hi
  exact hsame _ (Nat.le_add_right p i) (by omega)

end Ktux.CString
