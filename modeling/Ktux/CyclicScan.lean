import Mathlib.Data.List.Induction
import Mathlib.Data.List.Count
import Mathlib.Data.Nat.Find
import Mathlib.Data.Nat.ModEq
import Mathlib.Tactic.Common

set_option autoImplicit false

/-!
# Cyclic scans

A scan of the indices below `n` that starts behind an index, goes round, and stops at the first one that
satisfies `P`. Scan after scan visits each index that satisfies `P` once before it comes back.
-/
namespace Ktux.CyclicScan

variable {n : ℕ} {P : ℕ → Prop}

/-- `i` is the first index after `c` with `P`, the index `c` itself being the last to be tried. -/
def FirstAfter (n : ℕ) (P : ℕ → Prop) (c i : ℕ) : Prop :=
  ∃ d, 0 < d ∧ d ≤ n ∧ i = (c + d) % n ∧ P i ∧ ∀ e, 0 < e → e < d → ¬ P ((c + e) % n)

/-- Each visit is a scan from the one before it. -/
def Visits (n : ℕ) (P : ℕ → Prop) : ℕ → List ℕ → Prop
  | _, [] => True
  | c, i :: is => FirstAfter n P c i ∧ Visits n P i is

theorem FirstAfter.lt {c i : ℕ} (h : FirstAfter n P c i) : i < n := by
  obtain ⟨d, hd, hdn, rfl, -, -⟩ := h
  exact Nat.mod_lt _ (by omega)

theorem FirstAfter.congr {Q : ℕ → Prop} {c i : ℕ} (h : FirstAfter n P c i) (hiff : ∀ j < n, P j ↔ Q j) :
    FirstAfter n Q c i := by
  have hi := h.lt
  obtain ⟨d, hd, hdn, heq, hP, hnone⟩ := h
  refine ⟨d, hd, hdn, heq, (hiff i hi).mp hP, fun e he hed hQ => hnone e he hed ?_⟩
  exact (hiff _ (Nat.mod_lt _ (by omega))).mpr hQ

/-- From `c` an index is `d` ahead, with `0 < d ≤ n`. -/
theorem exists_ahead {c i : ℕ} (hc : c < n) (hi : i < n) : ∃ d, 0 < d ∧ d ≤ n ∧ i = (c + d) % n := by
  by_cases h : c < i
  · refine ⟨i - c, by omega, by omega, ?_⟩
    rw [Nat.add_sub_cancel' h.le, Nat.mod_eq_of_lt hi]
  · refine ⟨n - c + i, by omega, by omega, ?_⟩
    have hround : c + (n - c + i) = i + n := by omega
    rw [hround, Nat.add_mod_right, Nat.mod_eq_of_lt hi]

theorem exists_firstAfter {c i : ℕ} (hc : c < n) (hi : i < n) (hP : P i) : ∃ j, FirstAfter n P c j := by
  classical
  obtain ⟨d, hd, hdn, rfl⟩ := exists_ahead hc hi
  have hex : ∃ e, 0 < e ∧ P ((c + e) % n) := ⟨d, hd, hP⟩
  obtain ⟨hpos, hfound⟩ := Nat.find_spec hex
  refine ⟨_, Nat.find hex, hpos, (Nat.find_min' hex ⟨hd, hP⟩).trans hdn, rfl, hfound, fun e he hlt hPe => ?_⟩
  exact Nat.find_min hex hlt ⟨he, hPe⟩

theorem ahead_unique {c d e : ℕ} (hd : 0 < d) (hdn : d ≤ n) (he : 0 < e) (hen : e ≤ n)
    (h : (c + d) % n = (c + e) % n) : d = e := by
  have hmod := Nat.ModEq.add_left_cancel' c h
  have hle : ∀ {x y : ℕ}, 0 < x → y ≤ n → x < y → ¬ x ≡ y [MOD n] := by
    intro x y hx hy hxy hmod
    have hdvd := (Nat.modEq_iff_dvd' hxy.le).mp hmod
    have := Nat.le_of_dvd (by omega) hdvd
    omega
  rcases Nat.lt_trichotomy d e with hlt | heq | hgt
  · exact absurd hmod (hle hd hen hlt)
  · exact heq
  · exact absurd hmod.symm (hle he hdn hgt)

/-- How far `i` is ahead of `c`, from 1 to `n`. -/
def ahead (n c i : ℕ) : ℕ := if c < i then i - c else n - c + i

theorem ahead_spec {c i : ℕ} (hc : c < n) (hi : i < n) :
    0 < ahead n c i ∧ ahead n c i ≤ n ∧ (c + ahead n c i) % n = i := by
  unfold ahead
  split_ifs with h
  · refine ⟨by omega, by omega, ?_⟩
    rw [Nat.add_sub_cancel' h.le, Nat.mod_eq_of_lt hi]
  · refine ⟨by omega, by omega, ?_⟩
    have hround : c + (n - c + i) = i + n := by omega
    rw [hround, Nat.add_mod_right, Nat.mod_eq_of_lt hi]

/-- A scan either stops at `i`, which satisfies `P`, or comes closer to it. -/
theorem FirstAfter.closer {c i j : ℕ} (h : FirstAfter n P c j) (hc : c < n) (hi : i < n) (hP : P i) :
    j = i ∨ ahead n j i < ahead n c i := by
  obtain ⟨d, hd, hdn, rfl, -, hnone⟩ := h
  obtain ⟨hpos, hle, hround⟩ := ahead_spec hc hi
  have hfar : d ≤ ahead n c i := by
    by_contra hlt
    exact hnone _ hpos (not_le.mp hlt) (hround.symm ▸ hP)
  rcases Nat.eq_or_lt_of_le hfar with heq | hlt
  · exact Or.inl (heq ▸ hround)
  · right
    obtain ⟨hpos', hle', hround'⟩ := ahead_spec (Nat.mod_lt (c + d) (Nat.zero_lt_of_lt hc)) hi
    rw [Nat.mod_add_mod, Nat.add_assoc] at hround'
    by_contra hge
    by_cases hfit : d + ahead n ((c + d) % n) i ≤ n
    · have := ahead_unique (by omega) hfit hpos hle (hround'.trans hround.symm)
      omega
    · have hback : (c + (d + ahead n ((c + d) % n) i - n)) % n = i := by
        rw [← Nat.add_mod_right, Nat.add_assoc, Nat.sub_add_cancel (by omega)]
        exact hround'
      have := ahead_unique (by omega) (by omega) hpos hle (hback.trans hround.symm)
      omega

theorem Visits.forall {c : ℕ} {is : List ℕ} (h : Visits n P c is) : ∀ i ∈ is, P i := by
  induction is generalizing c with
  | nil => exact fun i hi => absurd hi List.not_mem_nil
  | cons j is ih =>
    obtain ⟨-, -, -, -, hj, -⟩ := h.1
    exact List.forall_mem_cons.mpr ⟨hj, ih h.2⟩

theorem visits_snoc {c i : ℕ} {is : List ℕ} :
    Visits n P c (is ++ [i]) ↔ Visits n P c is ∧ FirstAfter n P (is.getLastD c) i := by
  induction is generalizing c with
  | nil => simp [Visits]
  | cons j is ih => rw [List.cons_append, Visits, Visits, ih, List.getLastD_cons, and_assoc]

/-- Before the scans come back to `k`, those indices with `P` have been visited that are no further from `k`
than the last visit. -/
theorem Visits.lap {k : ℕ} {is : List ℕ} (hk : k < n) (hP : P k) (h : Visits n P k is) (hnot : k ∉ is) :
    ∃ r < n, is.getLastD k = (k + r) % n ∧
      ∀ x, 0 < x → x < n → P ((k + x) % n) → is.count ((k + x) % n) = if x ≤ r then 1 else 0 := by
  induction is using List.reverseRecOn with
  | nil =>
    refine ⟨0, by omega, ?_, fun x hx _ _ => ?_⟩
    · rw [Nat.add_zero, Nat.mod_eq_of_lt hk]
      rfl
    · rw [List.count_nil, if_neg (by omega)]
  | append_singleton is i ih =>
    rw [visits_snoc] at h
    rw [List.mem_append, List.mem_singleton, not_or] at hnot
    obtain ⟨r, hr, hlast, hcount⟩ := ih h.1 hnot.1
    obtain ⟨d, hd, hdn, hi, -, hnone⟩ := h.2
    rw [hlast, Nat.mod_add_mod, Nat.add_assoc] at hi
    -- the scan stops before it reaches `k`
    have hshort : r + d < n := by
      by_contra hge
      by_cases heq : r + d = n
      · rw [heq, Nat.add_mod_right, Nat.mod_eq_of_lt hk] at hi
        exact hnot.2 hi.symm
      · refine hnone (n - r) (by omega) (by omega) ?_
        rw [hlast, Nat.mod_add_mod, Nat.add_assoc, Nat.add_sub_cancel' hr.le, Nat.add_mod_right,
          Nat.mod_eq_of_lt hk]
        exact hP
    refine ⟨r + d, hshort, ?_, fun x hx hxn hPx => ?_⟩
    · rw [List.getLastD_concat, hi]
    · rw [List.count_append, hcount x hx hxn hPx, List.count_singleton]
      by_cases hxi : x = r + d
      · rw [hxi, ← hi, if_neg (by omega), beq_self_eq_true, if_pos rfl, if_pos le_rfl]
      · have hother : (i == (k + x) % n) = false := by
          refine beq_eq_false_iff_ne.mpr fun heq => hxi ?_
          exact (ahead_unique (by omega) (by omega) hx hxn.le (hi ▸ heq)).symm
        have hbetween : ¬ (r < x ∧ x < r + d) := by
          rintro ⟨hlow, hhigh⟩
          refine hnone (x - r) (by omega) (by omega) ?_
          rw [hlast, Nat.mod_add_mod, Nat.add_assoc, Nat.add_sub_cancel' hlow.le]
          exact hPx
        rw [hother]
        simp only [Bool.false_eq_true, if_false, Nat.add_zero]
        split_ifs <;> omega

/-- Between two visits of `k` every other index with `P` is visited exactly once. -/
theorem Visits.count_eq_one {k i : ℕ} {is : List ℕ} (hk : k < n) (hP : P k) (h : Visits n P k (is ++ [k]))
    (hnot : k ∉ is) (hi : i < n) (hPi : P i) (hne : i ≠ k) : is.count i = 1 := by
  rw [visits_snoc] at h
  obtain ⟨r, hr, hlast, hcount⟩ := h.1.lap hk hP hnot
  obtain ⟨x, hx, hxn, rfl⟩ := exists_ahead hk hi
  have hxlt : x < n := by
    refine Nat.lt_of_le_of_ne hxn fun heq => hne ?_
    rw [heq, Nat.add_mod_right, Nat.mod_eq_of_lt hk]
  obtain ⟨d, hd, hdn, heq, -, hnone⟩ := h.2
  rw [hlast, Nat.mod_add_mod, Nat.add_assoc] at heq
  rw [hcount x hx hxlt hPi, if_pos]
  by_contra hfar
  have hself : (k + n) % n = k := by rw [Nat.add_mod_right, Nat.mod_eq_of_lt hk]
  have hround : r + d = n := by
    rcases Nat.lt_trichotomy (r + d) n with hlt | heq' | hgt
    · exact ahead_unique (by omega) hlt.le (by omega) le_rfl (heq.symm.trans hself.symm)
    · exact heq'
    · have hback : (k + (r + d - n)) % n = k := by
        rw [← Nat.add_mod_right, Nat.add_assoc, Nat.sub_add_cancel hgt.le]
        exact heq.symm
      have hfull := ahead_unique (by omega) (by omega) (by omega) le_rfl (hback.trans hself.symm)
      omega
  refine hnone (x - r) (by omega) (by omega) ?_
  rw [hlast, Nat.mod_add_mod, Nat.add_assoc, Nat.add_sub_cancel' (by omega)]
  exact hPi

end Ktux.CyclicScan
