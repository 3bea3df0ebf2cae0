import Ktux.CString
import Ktux.Loops
import Mathlib.Data.Int.Order.Basic

set_option autoImplicit false

/-!
# `strcmp` and `strncmp`

Neither function writes, so each pointer is taken as the characters from it on.
-/
namespace Ktux.StringCompare
open Loops CString

abbrev Chars := ℕ → UInt8

def Chars.next (s : Chars) : Chars := fun i => s (i + 1)

/-- `*s1 != '\0' && *s1 == *s2` -/
def same (p : Chars × Chars) : Bool := p.1 0 != 0 && p.1 0 == p.2 0

def advance (p : Chars × Chars) : Chars × Chars := (p.1.next, p.2.next)

/-- The characters are taken as `unsigned char`. -/
def charDiff (a b : UInt8) : ℤ := (a.toNat : ℤ) - b.toNat

def difference (p : Chars × Chars) : ℤ := charDiff (p.1 0) (p.2 0)

def strcmp (fuel : ℕ) (s1 s2 : Chars) : Option ℤ :=
  (whileLoop same (fun p => some (advance p)) fuel (s1, s2)).map difference

def strncmp (fuel : ℕ) (s1 s2 : Chars) (len : ℕ) : Option ℤ :=
  (whileLoop (fun p => same p.1 && decide (p.2 < len)) (fun p => some (advance p.1, p.2 + 1)) fuel
    ((s1, s2), 0)).map fun p => difference p.1

structure Holds (s : Chars) (xs : List UInt8) : Prop where
  chars : ∀ i ≤ xs.length, s i = xs.getD i 0
  nonzero : ∀ c ∈ xs, c ≠ 0

/-- The strings agree before index `i` and differ there; the NUL of a string counts as its last character. -/
structure FirstDifference (xs ys : List UInt8) (i : ℕ) : Prop where
  before : ∀ j < i, xs.getD j 0 = ys.getD j 0
  differ : xs.getD i 0 ≠ ys.getD i 0

/-- The sign of `r` is the order of the characters at `i`. -/
def Orders (xs ys : List UInt8) (i : ℕ) (r : ℤ) : Prop :=
  (r < 0 ↔ xs.getD i 0 < ys.getD i 0) ∧ (0 < r ↔ ys.getD i 0 < xs.getD i 0)

/-- `r` is 0 for equal strings only and else orders the first characters that differ. -/
structure Compares (xs ys : List UInt8) (r : ℤ) : Prop where
  equal : r = 0 ↔ xs = ys
  order : ∀ i, FirstDifference xs ys i → Orders xs ys i r

/-- `Compares` on the first `len` characters. -/
structure ComparesFirst (len : ℕ) (xs ys : List UInt8) (r : ℤ) : Prop where
  equal : r = 0 ↔ xs.take len = ys.take len
  order : ∀ i < len, FirstDifference xs ys i → Orders xs ys i r

/-- `strncmp` compares the first `len` characters of these strings, and what follows them does not matter. -/
def ComparesWithin (len : ℕ) (xs ys : List UInt8) : Prop :=
  ∀ s1 s2, Holds s1 xs → Holds s2 ys → ∃ fuel r, strncmp fuel s1 s2 len = some r ∧ ComparesFirst len xs ys r ∧
    ∀ xs' ys' s1' s2', Holds s1' xs' → Holds s2' ys' → xs'.take len = xs.take len → ys'.take len = ys.take len →
      ∃ fuel', strncmp fuel' s1' s2' len = some r

/-- The comparison is decided before index `len`: by a difference or by the NUL of both strings. -/
def DecidedWithin (len : ℕ) (xs ys : List UInt8) : Prop := xs.take len ≠ ys.take len ∨ xs.length < len

section Walk
variable {s1 s2 : Chars} {k len : ℕ}

theorem advance_iterate (k : ℕ) (s1 s2 : Chars) :
    advance^[k] (s1, s2) = (fun i => s1 (i + k), fun i => s2 (i + k)) := by
  induction k with
  | zero => rfl
  | succ k ih =>
    rw [Function.iterate_succ_apply', ih]
    refine Prod.ext (funext fun i => congrArg s1 ?_) (funext fun i => congrArg s2 ?_) <;> omega

theorem counted_iterate (k i : ℕ) (p : Chars × Chars) :
    (fun q : (Chars × Chars) × ℕ => (advance q.1, q.2 + 1))^[k] (p, i) = (advance^[k] p, i + k) := by
  induction k generalizing p i with
  | zero => rfl
  | succ k ih =>
    rw [Function.iterate_succ_apply, ih, Nat.add_right_comm]
    rfl

theorem same_iterate (k : ℕ) (s1 s2 : Chars) :
    same (advance^[k] (s1, s2)) = true ↔ s1 k ≠ 0 ∧ s1 k = s2 k := by
  simp [advance_iterate, same]

theorem difference_iterate (k : ℕ) (s1 s2 : Chars) :
    difference (advance^[k] (s1, s2)) = charDiff (s1 k) (s2 k) := by
  simp [advance_iterate, difference]

theorem strcmp_eq (hgo : ∀ j < k, s1 j ≠ 0 ∧ s1 j = s2 j) (hstop : ¬(s1 k ≠ 0 ∧ s1 k = s2 k)) :
    strcmp (k + 1) s1 s2 = some (charDiff (s1 k) (s2 k)) := by
  have hloop := whileLoop_iterate advance (fun _ => rfl) k (s1, s2)
    (fun j hj => (same_iterate j s1 s2).mpr (hgo j hj))
    (Bool.eq_false_iff.mpr fun h => hstop ((same_iterate k s1 s2).mp h))
  rw [strcmp, hloop, Option.map_some, difference_iterate]

theorem strncmp_eq (hgo : ∀ j < k, (s1 j ≠ 0 ∧ s1 j = s2 j) ∧ j < len)
    (hstop : ¬((s1 k ≠ 0 ∧ s1 k = s2 k) ∧ k < len)) :
    strncmp (k + 1) s1 s2 len = some (charDiff (s1 k) (s2 k)) := by
  have hcond : ∀ j, (same (advance^[j] (s1, s2)) && decide (0 + j < len)) = true ↔
      (s1 j ≠ 0 ∧ s1 j = s2 j) ∧ j < len := by
    intro j
    rw [Bool.and_eq_true, same_iterate, decide_eq_true_eq, Nat.zero_add]
  have hloop := whileLoop_iterate (c := fun p => same p.1 && decide (p.2 < len))
    (fun p => (advance p.1, p.2 + 1)) (fun _ => rfl) k ((s1, s2), 0)
    (fun j hj => by rw [counted_iterate]; exact (hcond j).mpr (hgo j hj))
    (by rw [counted_iterate]; exact Bool.eq_false_iff.mpr fun h => hstop ((hcond k).mp h))
  rw [strncmp, hloop, Option.map_some, counted_iterate, difference_iterate]

end Walk

section Strings
variable {xs ys : List UInt8} {s1 s2 : Chars} {i k len : ℕ}

theorem charDiff_eq_zero {a b : UInt8} : charDiff a b = 0 ↔ a = b := by
  rw [charDiff, Int.sub_eq_zero, Int.ofNat_inj, UInt8.toNat_inj]

theorem charDiff_orders (xs ys : List UInt8) (i : ℕ) :
    Orders xs ys i (charDiff (xs.getD i 0) (ys.getD i 0)) := by
  rw [Orders, charDiff, UInt8.lt_iff_toNat_lt, UInt8.lt_iff_toNat_lt]
  omega

theorem FirstDifference.unique (h : FirstDifference xs ys i) (h' : FirstDifference xs ys k) : i = k := by
  rcases Nat.lt_trichotomy i k with hlt | heq | hlt
  · exact absurd (h'.before i hlt) h.differ
  · exact heq
  · exact absurd (h.before k hlt) h'.differ

theorem getD_eq_zero (hxs : ∀ c ∈ xs, c ≠ 0) : xs.getD i 0 = 0 ↔ xs.length ≤ i := by
  constructor
  · intro hzero
    by_contra hlt
    rw [Nat.not_le] at hlt
    rw [List.getD_eq_getElem _ _ hlt] at hzero
    exact hxs _ (List.getElem_mem hlt) hzero
  · exact List.getD_eq_default xs 0

theorem getD_of_take (htake : xs.take len = ys.take len) (hi : i < len) : xs.getD i 0 = ys.getD i 0 := by
  have hget := congrArg (·[i]?) htake
  simp only [List.getElem?_take_of_lt hi] at hget
  rw [List.getD_eq_getElem?_getD, List.getD_eq_getElem?_getD, hget]

theorem take_eq_iff (hxs : ∀ c ∈ xs, c ≠ 0) (hys : ∀ c ∈ ys, c ≠ 0) :
    xs.take len = ys.take len ↔ ∀ i < len, xs.getD i 0 = ys.getD i 0 := by
  refine ⟨fun htake i hi => getD_of_take htake hi, fun hsame => List.ext_getElem? fun i => ?_⟩
  by_cases hi : i < len
  · rw [List.getElem?_take_of_lt hi, List.getElem?_take_of_lt hi]
    have hends : xs.length ≤ i ↔ ys.length ≤ i := by
      rw [← getD_eq_zero hxs, ← getD_eq_zero hys, hsame i hi]
    by_cases hend : xs.length ≤ i
    · rw [List.getElem?_eq_none hend, List.getElem?_eq_none (hends.mp hend)]
    · have hxi : i < xs.length := Nat.not_le.mp hend
      have hyi : i < ys.length := Nat.not_le.mp fun h => hend (hends.mpr h)
      rw [List.getElem?_eq_getElem hxi, List.getElem?_eq_getElem hyi, ← List.getD_eq_getElem xs 0 hxi,
        ← List.getD_eq_getElem ys 0 hyi, hsame i hi]
  · rw [List.getElem?_eq_none (by rw [List.length_take]; omega),
      List.getElem?_eq_none (by rw [List.length_take]; omega)]

theorem eq_iff_chars (hxs : ∀ c ∈ xs, c ≠ 0) (hys : ∀ c ∈ ys, c ≠ 0) :
    xs = ys ↔ ∀ i, xs.getD i 0 = ys.getD i 0 := by
  constructor
  · rintro rfl i
    rfl
  · intro hsame
    have htake := (@take_eq_iff xs ys (max xs.length ys.length) hxs hys).mpr fun i _ => hsame i
    rwa [List.take_of_length_le (Nat.le_max_left _ _), List.take_of_length_le (Nat.le_max_right _ _)] at htake

def Alike (xs ys : List UInt8) (j : ℕ) : Prop := xs.getD j 0 ≠ 0 ∧ xs.getD j 0 = ys.getD j 0

theorem not_alike_length (xs ys : List UInt8) : ¬Alike xs ys xs.length :=
  fun h => h.1 (List.getD_eq_default xs 0 le_rfl)

theorem alike_length (hgo : ∀ j < k, Alike xs ys j) : k ≤ xs.length ∧ k ≤ ys.length := by
  constructor
  · by_contra hlt
    exact not_alike_length xs ys (hgo _ (Nat.not_le.mp hlt))
  · by_contra hlt
    have hend := hgo _ (Nat.not_le.mp hlt)
    exact hend.1 (hend.2.trans (List.getD_eq_default ys 0 le_rfl))

theorem Holds.alike (h1 : Holds s1 xs) (h2 : Holds s2 ys) (hxi : i ≤ xs.length) (hyi : i ≤ ys.length) :
    (s1 i ≠ 0 ∧ s1 i = s2 i) ↔ Alike xs ys i := by
  rw [Alike, h1.chars i hxi, h2.chars i hyi]

theorem strcmp_returns (h1 : Holds s1 xs) (h2 : Holds s2 ys) : ∃ k, (∀ j < k, Alike xs ys j) ∧
    ¬Alike xs ys k ∧ strcmp (k + 1) s1 s2 = some (charDiff (xs.getD k 0) (ys.getD k 0)) := by
  obtain ⟨k, _, hgo, hstop⟩ := exists_first_not (not_alike_length xs ys)
  obtain ⟨hxk, hyk⟩ := alike_length hgo
  refine ⟨k, hgo, hstop, ?_⟩
  rw [← h1.chars k hxk, ← h2.chars k hyk]
  exact strcmp_eq (fun j hj => (h1.alike h2 (by omega) (by omega)).mpr (hgo j hj))
    fun h => hstop ((h1.alike h2 hxk hyk).mp h)

theorem strncmp_returns (h1 : Holds s1 xs) (h2 : Holds s2 ys) (len : ℕ) :
    ∃ k, (∀ j < k, Alike xs ys j ∧ j < len) ∧ ¬(Alike xs ys k ∧ k < len) ∧
      strncmp (k + 1) s1 s2 len = some (charDiff (xs.getD k 0) (ys.getD k 0)) := by
  obtain ⟨k, _, hgo, hstop⟩ := exists_first_not (P := fun j => Alike xs ys j ∧ j < len) (n := xs.length)
    fun h => not_alike_length xs ys h.1
  obtain ⟨hxk, hyk⟩ := alike_length fun j hj => (hgo j hj).1
  refine ⟨k, hgo, hstop, ?_⟩
  rw [← h1.chars k hxk, ← h2.chars k hyk]
  exact strncmp_eq (fun j hj => ⟨(h1.alike h2 (by omega) (by omega)).mpr (hgo j hj).1, (hgo j hj).2⟩)
    fun h => hstop ⟨(h1.alike h2 hxk hyk).mp h.1, h.2⟩

theorem Alike.firstDifference (hgo : ∀ j < k, Alike xs ys j) (hne : xs.getD k 0 ≠ ys.getD k 0) :
    FirstDifference xs ys k := ⟨fun j hj => (hgo j hj).2, hne⟩

/-- A walk that stops on a common character has come to the end of both strings. -/
theorem eq_of_stop (hxs : ∀ c ∈ xs, c ≠ 0) (hys : ∀ c ∈ ys, c ≠ 0) (hgo : ∀ j < k, Alike xs ys j)
    (hstop : ¬Alike xs ys k) (hsame : xs.getD k 0 = ys.getD k 0) : xs = ys := by
  have hzero : xs.getD k 0 = 0 := by
    by_contra hne
    exact hstop ⟨hne, hsame⟩
  have hxk := (getD_eq_zero hxs).mp hzero
  have hyk := (getD_eq_zero hys).mp (hsame.symm.trans hzero)
  rw [eq_iff_chars hxs hys]
  intro i
  rcases Nat.lt_or_ge i k with hlt | hge
  · exact (hgo i hlt).2
  · rw [List.getD_eq_default _ _ (by omega), List.getD_eq_default _ _ (by omega)]

theorem strcmp_unique {fuel fuel' : ℕ} {r r' : ℤ} (h : strcmp fuel s1 s2 = some r)
    (h' : strcmp fuel' s1 s2 = some r') : r = r' := by
  obtain ⟨p, hp, rfl⟩ := Option.map_eq_some_iff.mp h
  obtain ⟨p', hp', rfl⟩ := Option.map_eq_some_iff.mp h'
  rw [whileLoop_unique hp hp']

theorem strncmp_unique {fuel fuel' : ℕ} {r r' : ℤ} (h : strncmp fuel s1 s2 len = some r)
    (h' : strncmp fuel' s1 s2 len = some r') : r = r' := by
  obtain ⟨p, hp, rfl⟩ := Option.map_eq_some_iff.mp h
  obtain ⟨p', hp', rfl⟩ := Option.map_eq_some_iff.mp h'
  rw [whileLoop_unique hp hp']

theorem exists_firstDifference (hxs : ∀ c ∈ xs, c ≠ 0) (hys : ∀ c ∈ ys, c ≠ 0) (hne : xs ≠ ys) :
    ∃ i, FirstDifference xs ys i := by
  obtain ⟨k, _, hgo, hstop⟩ := exists_first_not (not_alike_length xs ys)
  exact ⟨k, Alike.firstDifference hgo fun hsame => hne (eq_of_stop hxs hys hgo hstop hsame)⟩

theorem strcmp_firstDifference (h1 : Holds s1 xs) (h2 : Holds s2 ys) (hi : FirstDifference xs ys i) :
    ∃ fuel, strcmp fuel s1 s2 = some (charDiff (xs.getD i 0) (ys.getD i 0)) := by
  obtain ⟨k, hgo, hstop, hrun⟩ := strcmp_returns h1 h2
  have hne : xs.getD k 0 ≠ ys.getD k 0 := fun hsame =>
    hi.differ (eq_of_stop h1.nonzero h2.nonzero hgo hstop hsame ▸ rfl)
  rw [hi.unique (Alike.firstDifference hgo hne)]
  exact ⟨k + 1, hrun⟩

theorem strcmp_compares (h1 : Holds s1 xs) (h2 : Holds s2 ys) :
    ∃ fuel r, strcmp fuel s1 s2 = some r ∧ Compares xs ys r := by
  obtain ⟨k, hgo, hstop, hrun⟩ := strcmp_returns h1 h2
  refine ⟨k + 1, _, hrun, ⟨?_, fun i hi => ?_⟩⟩
  · rw [charDiff_eq_zero]
    exact ⟨eq_of_stop h1.nonzero h2.nonzero hgo hstop, fun h => h ▸ rfl⟩
  · obtain ⟨fuel, hfirst⟩ := strcmp_firstDifference h1 h2 hi
    rw [strcmp_unique hrun hfirst]
    exact charDiff_orders xs ys i

theorem holds_getD (hxs : ∀ c ∈ xs, c ≠ 0) : Holds (fun i => xs.getD i 0) xs := ⟨fun _ _ => rfl, hxs⟩

theorem not_decidedWithin (hxs : ∀ c ∈ xs, c ≠ 0) (hys : ∀ c ∈ ys, c ≠ 0) :
    ¬DecidedWithin len xs ys ↔ ∀ j < len, Alike xs ys j := by
  rw [DecidedWithin, not_or, not_not, Nat.not_lt, take_eq_iff hxs hys]
  constructor
  · rintro ⟨hsame, hlen⟩ j hj
    exact ⟨fun hzero => absurd ((getD_eq_zero hxs).mp hzero) (by omega), hsame j hj⟩
  · exact fun hall => ⟨fun j hj => (hall j hj).2, (alike_length hall).1⟩

theorem alike_of_take {xs' ys' : List UInt8} (hxs : xs'.take len = xs.take len)
    (hys : ys'.take len = ys.take len) (hi : i < len) : Alike xs' ys' i ↔ Alike xs ys i := by
  rw [Alike, Alike, getD_of_take hxs hi, getD_of_take hys hi]

theorem comparesFirst_of_stop (hxs : ∀ c ∈ xs, c ≠ 0) (hys : ∀ c ∈ ys, c ≠ 0) (hgo : ∀ j < k, Alike xs ys j)
    (hstop : ¬Alike xs ys k) (hk : k < len) :
    ComparesFirst len xs ys (charDiff (xs.getD k 0) (ys.getD k 0)) := by
  refine ⟨?_, fun i hi hfirst => ?_⟩
  · rw [charDiff_eq_zero]
    exact ⟨fun hsame => eq_of_stop hxs hys hgo hstop hsame ▸ rfl, fun htake => getD_of_take htake hk⟩
  · have hne : xs.getD k 0 ≠ ys.getD k 0 := fun hsame =>
      hfirst.differ (eq_of_stop hxs hys hgo hstop hsame ▸ rfl)
    rw [hfirst.unique (Alike.firstDifference hgo hne)]
    exact charDiff_orders xs ys k

/-- The first `len` characters are the same and no NUL: the walk goes on to index `len`. -/
theorem strncmp_undecided (h1 : Holds s1 xs) (h2 : Holds s2 ys) (hall : ∀ j < len, Alike xs ys j) :
    ∃ fuel, strncmp fuel s1 s2 len = some (charDiff (xs.getD len 0) (ys.getD len 0)) := by
  obtain ⟨k, hgo, hstop, hrun⟩ := strncmp_returns h1 h2 len
  have hk : k = len := by
    rcases Nat.lt_trichotomy k len with hlt | heq | hlt
    · exact absurd ⟨hall k hlt, hlt⟩ hstop
    · exact heq
    · exact absurd (hgo len hlt).2 (Nat.lt_irrefl len)
  exact ⟨k + 1, hk ▸ hrun⟩

theorem strncmp_decided (h1 : Holds s1 xs) (h2 : Holds s2 ys) (hgo : ∀ j < k, Alike xs ys j)
    (hstop : ¬Alike xs ys k) (hk : k < len) :
    ∃ fuel, strncmp fuel s1 s2 len = some (charDiff (xs.getD k 0) (ys.getD k 0)) := by
  obtain ⟨k', hgo', hstop', hrun⟩ := strncmp_returns h1 h2 len
  have hsame : k' = k := by
    rcases Nat.lt_trichotomy k' k with hlt | heq | hlt
    · exact absurd ⟨hgo k' hlt, by omega⟩ hstop'
    · exact heq
    · exact absurd (hgo' k hlt).1 hstop
  exact ⟨k' + 1, hsame ▸ hrun⟩

theorem comparesWithin_of_decided (hxs : ∀ c ∈ xs, c ≠ 0) (hys : ∀ c ∈ ys, c ≠ 0)
    (hdecided : DecidedWithin len xs ys) : ComparesWithin len xs ys := by
  obtain ⟨n, hn, hnot⟩ : ∃ n < len, ¬Alike xs ys n := by
    by_contra hnone
    exact (not_decidedWithin hxs hys).mpr (by simpa using hnone) hdecided
  obtain ⟨k, hkn, hgo, hstop⟩ := exists_first_not hnot
  have hk : k < len := Nat.lt_of_le_of_lt hkn hn
  intro s1 s2 h1 h2
  obtain ⟨fuel, hrun⟩ := strncmp_decided h1 h2 hgo hstop hk
  refine ⟨fuel, _, hrun, comparesFirst_of_stop hxs hys hgo hstop hk, ?_⟩
  intro xs' ys' s1' s2' h1' h2' hxs' hys'
  rw [← getD_of_take hxs' hk, ← getD_of_take hys' hk]
  refine strncmp_decided h1' h2' (fun j hj => ?_) (fun h => hstop ?_) hk
  · exact (alike_of_take hxs' hys' (by omega)).mpr (hgo j hj)
  · exact (alike_of_take hxs' hys' hk).mp h

/-- Cut to `len` characters, with one more character in the first string: the result is that character. -/
theorem strncmp_longer (hxs : ∀ c ∈ xs, c ≠ 0) (hys : ∀ c ∈ ys, c ≠ 0) (hall : ∀ j < len, Alike xs ys j) :
    ∃ xs' ys' : List UInt8, (∀ c ∈ xs', c ≠ 0) ∧ (∀ c ∈ ys', c ≠ 0) ∧ xs'.take len = xs.take len ∧
      ys'.take len = ys.take len ∧
      ∃ fuel, strncmp fuel (fun i => xs'.getD i 0) (fun i => ys'.getD i 0) len = some 1 := by
  obtain ⟨hxlen, hylen⟩ := alike_length hall
  have hxtake : (xs.take len).length = len := List.length_take_of_le hxlen
  have hytake : (ys.take len).length = len := List.length_take_of_le hylen
  have hxs' : ∀ c ∈ xs.take len ++ [1], c ≠ 0 := by
    intro c hc
    rcases List.mem_append.mp hc with hc | hc
    · exact hxs c (List.mem_of_mem_take hc)
    · rw [List.mem_singleton.mp hc]
      decide
  have hys' : ∀ c ∈ ys.take len, c ≠ 0 := fun c hc => hys c (List.mem_of_mem_take hc)
  have htakex : (xs.take len ++ [1]).take len = xs.take len := List.take_left' hxtake
  have htakey : (ys.take len).take len = ys.take len := by rw [List.take_take, Nat.min_self]
  obtain ⟨fuel, hrun⟩ := strncmp_undecided (holds_getD hxs') (holds_getD hys')
    fun j hj => (alike_of_take htakex htakey hj).mpr (hall j hj)
  have hlast : (xs.take len ++ [1]).getD len 0 = 1 := by
    rw [List.getD_append_right _ _ _ _ (Nat.le_of_eq hxtake), hxtake, Nat.sub_self]
    rfl
  have hend : (ys.take len).getD len 0 = 0 := List.getD_eq_default _ _ (Nat.le_of_eq hytake)
  rw [hlast, hend] at hrun
  exact ⟨_, _, hxs', hys', htakex, htakey, fuel, hrun⟩

theorem not_comparesWithin (hxs : ∀ c ∈ xs, c ≠ 0) (hys : ∀ c ∈ ys, c ≠ 0)
    (hall : ∀ j < len, Alike xs ys j) : ¬ComparesWithin len xs ys := by
  intro hlaw
  obtain ⟨fuel, r, hrun, hcompares, hsame⟩ := hlaw _ _ (holds_getD hxs) (holds_getD hys)
  have hzero : r = 0 := hcompares.equal.mpr ((take_eq_iff hxs hys).mpr fun j hj => (hall j hj).2)
  obtain ⟨xs', ys', hxs', hys', htakex, htakey, fuel', hrun'⟩ := strncmp_longer hxs hys hall
  obtain ⟨fuel₂, hrun₂⟩ := hsame xs' ys' _ _ (holds_getD hxs') (holds_getD hys') htakex htakey
  exact absurd (hzero.symm.trans (strncmp_unique hrun₂ hrun')) (by decide)

theorem strncmp_comparesWithin_iff (xs ys : List UInt8) (hxs : 0 ∉ xs) (hys : 0 ∉ ys) (len : ℕ) :
    ComparesWithin len xs ys ↔ DecidedWithin len xs ys := by
  have hxne := nonzero_of_not_mem hxs
  have hyne := nonzero_of_not_mem hys
  constructor
  · intro hlaw
    by_contra hnot
    exact not_comparesWithin hxne hyne ((not_decidedWithin hxne hyne).mp hnot) hlaw
  · exact comparesWithin_of_decided hxne hyne

end Strings

theorem strncmp_comparesWithin_abc :
    ¬ComparesWithin 2 [97, 98, 99] [97, 98, 120] ∧ ¬DecidedWithin 2 [97, 98, 99] [97, 98, 120] ∧
      ComparesWithin 3 [97, 98, 99] [97, 98, 120] := by
  have hnot : ¬DecidedWithin 2 [97, 98, 99] [97, 98, 120] := by
    unfold DecidedWithin
    decide
  exact ⟨fun h => hnot ((strncmp_comparesWithin_iff _ _ (by decide) (by decide) 2).mp h), hnot,
    (strncmp_comparesWithin_iff _ _ (by decide) (by decide) 3).mpr (Or.inl (by decide))⟩

/-- The first two characters agree, and the result is -21. -/
theorem strncmp_looks_past_len : ¬ComparesWithin 2 [97, 98, 99] [97, 98, 120] := by
  intro hlaw
  obtain ⟨fuel, r, hrun, hcompares, _⟩ :=
    hlaw _ _ (holds_getD (nonzero_of_not_mem (by decide))) (holds_getD (nonzero_of_not_mem (by decide)))
  have hzero : r = 0 := hcompares.equal.mpr rfl
  have heval : strncmp 3 (fun i => [97, 98, 99].getD i 0) (fun i => [97, 98, 120].getD i 0) 2 = some (-21) := by
    decide
  exact absurd (hzero.symm.trans (strncmp_unique hrun heval)) (by decide)

end Ktux.StringCompare
