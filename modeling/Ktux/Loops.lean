import Mathlib.Data.Nat.Find
import Mathlib.Logic.Function.Iterate
import Mathlib.Tactic.Common

set_option autoImplicit false

/-!
# While loops with fuel

A loop body may fail to return. `whileLoop` gives up when its fuel runs out, so a loop ends exactly when
some fuel gives a result, and that result does not depend on the fuel.
-/
namespace Ktux.Loops

variable {σ : Type*}

def whileLoop (c : σ → Bool) (b : σ → Option σ) : ℕ → σ → Option σ
  | 0, _ => none
  | fuel + 1, s => if c s then (b s).bind (whileLoop c b fuel) else some s

/-- A `do … while` loop tests its condition after each pass. -/
def doLoop (b : σ → Option σ) (c : σ → Bool) (fuel : ℕ) (s : σ) : Option σ :=
  (b s).bind (whileLoop c b fuel)

/-- A loop with the body `f` makes pass `k`: the passes before it have not ended the loop, which may go on. -/
def Makes (c : σ → Bool) (f : σ → σ) (s : σ) (k : ℕ) : Prop := ∀ j ≤ k, c (f^[j] s) = true

variable {c : σ → Bool} {b : σ → Option σ}

theorem exists_fuel {n fuel : ℕ} (h : n < fuel) : ∃ rest, fuel = rest + 1 :=
  Nat.exists_eq_succ_of_ne_zero (Nat.ne_of_gt (Nat.lt_of_le_of_lt (Nat.zero_le n) h))

/-- The first of the numbers up to `n` at which `P` fails. -/
theorem exists_first_not {P : ℕ → Prop} {n : ℕ} (hn : ¬P n) : ∃ k ≤ n, (∀ j < k, P j) ∧ ¬P k := by
  classical
  have hex : ∃ k, ¬P k := ⟨n, hn⟩
  exact ⟨Nat.find hex, Nat.find_min' hex hn, fun j hj => not_not.mp (Nat.find_min hex hj), Nat.find_spec hex⟩

theorem whileLoop_stop {s : σ} (h : c s = false) (fuel : ℕ) :
    whileLoop c b (fuel + 1) s = some s := by
  simp [whileLoop, h]

theorem whileLoop_pass {s u : σ} (h : c s = true) (hb : b s = some u) (fuel : ℕ) :
    whileLoop c b (fuel + 1) s = whileLoop c b fuel u := by
  simp [whileLoop, h, hb]

/-- A pass of a body that always returns. -/
theorem whileLoop_next {f : σ → σ} {s u : σ} (h : c s = true) (hf : f s = u) (fuel : ℕ) :
    whileLoop c (fun s => some (f s)) (fuel + 1) s = whileLoop c (fun s => some (f s)) fuel u :=
  whileLoop_pass (b := fun s => some (f s)) h (congrArg some hf) fuel

theorem whileLoop_more {fuel : ℕ} {s t : σ} (h : whileLoop c b fuel s = some t) :
    whileLoop c b (fuel + 1) s = some t := by
  induction fuel generalizing s with
  | zero => simp [whileLoop] at h
  | succ fuel ih =>
    rw [whileLoop] at h ⊢
    split_ifs at h ⊢ with hc
    · cases hb : b s with
      | none => simp [hb] at h
      | some u =>
        simp only [hb, Option.bind_some] at h ⊢
        exact ih h
    · exact h

theorem whileLoop_mono {fuel fuel' : ℕ} {s t : σ} (hle : fuel ≤ fuel')
    (h : whileLoop c b fuel s = some t) : whileLoop c b fuel' s = some t := by
  induction hle with
  | refl => exact h
  | step _ ih => exact whileLoop_more ih

theorem whileLoop_unique {fuel fuel' : ℕ} {s t t' : σ} (h : whileLoop c b fuel s = some t)
    (h' : whileLoop c b fuel' s = some t') : t = t' := by
  have a := whileLoop_mono (Nat.le_max_left fuel fuel') h
  have b := whileLoop_mono (Nat.le_max_right fuel fuel') h'
  exact Option.some.inj (a.symm.trans b)

theorem whileLoop_total (I : ℕ → σ → Prop)
    (hpass : ∀ k s, I (k + 1) s → c s = true ∧ ∃ u, b s = some u ∧ I k u)
    (hstop : ∀ s, I 0 s → c s = false) {k : ℕ} {s : σ} (h : I k s) :
    ∃ t, whileLoop c b (k + 1) s = some t ∧ I 0 t := by
  induction k generalizing s with
  | zero => exact ⟨s, whileLoop_stop (hstop s h) 0, h⟩
  | succ k ih =>
    obtain ⟨hc, u, hb, hu⟩ := hpass k s h
    obtain ⟨t, ht, hI⟩ := ih hu
    exact ⟨t, (whileLoop_pass hc hb _).trans ht, hI⟩

/-- The partial rule: what each pass keeps holds when the loop ends. -/
theorem whileLoop_invariant (I : σ → Prop)
    (hpass : ∀ s u, I s → c s = true → b s = some u → I u) {fuel : ℕ} {s t : σ} (h : I s)
    (ht : whileLoop c b fuel s = some t) : I t ∧ c t = false := by
  induction fuel generalizing s with
  | zero => simp [whileLoop] at ht
  | succ fuel ih =>
    rw [whileLoop] at ht
    split_ifs at ht with hc
    · cases hb : b s with
      | none => simp [hb] at ht
      | some u =>
        rw [hb, Option.bind_some] at ht
        exact ih (hpass s u h hc hb) ht
    · cases ht
      exact ⟨h, by simpa using hc⟩

/-- The partial rule for a loop that is given as much fuel as it has passes. -/
theorem whileLoop_counted (I : ℕ → σ → Prop)
    (hpass : ∀ n s u, I (n + 1) s → c s = true → b s = some u → I n u) {n : ℕ} {s t : σ} (h : I n s)
    (ht : whileLoop c b (n + 1) s = some t) : ∃ k ≤ n, I k t := by
  induction n generalizing s with
  | zero =>
    rw [whileLoop] at ht
    split_ifs at ht with hc
    · obtain ⟨u, _, hu⟩ := Option.bind_eq_some_iff.mp ht
      cases hu
    · cases ht
      exact ⟨0, le_rfl, h⟩
  | succ n ih =>
    rw [whileLoop] at ht
    split_ifs at ht with hc
    · obtain ⟨u, hu, hrest⟩ := Option.bind_eq_some_iff.mp ht
      obtain ⟨k, hk, hI⟩ := ih (hpass n s u h hc hu) hrest
      exact ⟨k, Nat.le_succ_of_le hk, hI⟩
    · cases ht
      exact ⟨n + 1, le_rfl, h⟩

/-- A loop whose states carry more than another's makes the same passes. -/
theorem whileLoop_project {τ : Type*} {c' : τ → Bool} {b' : τ → Option τ} (g : τ → σ)
    (hc : ∀ s, c' s = c (g s)) (hb : ∀ s, (b' s).map g = b (g s)) (fuel : ℕ) (s : τ) :
    (whileLoop c' b' fuel s).map g = whileLoop c b fuel (g s) := by
  induction fuel generalizing s with
  | zero => rfl
  | succ fuel ih =>
    rw [whileLoop, whileLoop, hc s, ← hb s]
    split_ifs
    · cases b' s with
      | none => rfl
      | some u => exact ih u
    · rfl

/-- A loop whose passes keep `I` and make the rank smaller ends with any fuel above the rank. -/
theorem whileLoop_ranked (rank : σ → ℕ) (I : σ → Prop)
    (hpass : ∀ s, I s → c s = true → ∃ u, b s = some u ∧ I u ∧ rank u < rank s) {s : σ} (h : I s) :
    ∃ t, I t ∧ c t = false ∧ ∀ fuel, rank s < fuel → whileLoop c b fuel s = some t := by
  induction hn : rank s using Nat.strongRecOn generalizing s with
  | _ n ih =>
    by_cases hc : c s = true
    · obtain ⟨u, hb, hu, hlt⟩ := hpass s h hc
      obtain ⟨t, ht, hdone, hall⟩ := ih (rank u) (hn ▸ hlt) hu rfl
      refine ⟨t, ht, hdone, fun fuel hfuel => ?_⟩
      obtain ⟨rest, rfl⟩ := exists_fuel hfuel
      rw [whileLoop_pass hc hb]
      exact hall rest (by omega)
    · have hdone : c s = false := Bool.not_eq_true _ ▸ hc
      refine ⟨s, h, hdone, fun fuel hfuel => ?_⟩
      obtain ⟨rest, rfl⟩ := exists_fuel hfuel
      exact whileLoop_stop hdone rest

theorem whileLoop_iterate (f : σ → σ) (hbody : ∀ s, b s = some (f s)) (k : ℕ) (s : σ)
    (hc : ∀ j < k, c (f^[j] s) = true) (hk : c (f^[k] s) = false) :
    whileLoop c b (k + 1) s = some (f^[k] s) := by
  induction k generalizing s with
  | zero => exact whileLoop_stop hk 0
  | succ k ih =>
    have h0 : c s = true := hc 0 (by omega)
    rw [whileLoop_pass h0 (hbody s), Function.iterate_succ_apply]
    refine ih (f s) (fun j hj => ?_) (by simpa only [Function.iterate_succ_apply] using hk)
    simpa only [Function.iterate_succ_apply] using hc (j + 1) (by omega)

theorem doLoop_stop {s u : σ} (hb : b s = some u) (h : c u = false) (fuel : ℕ) :
    doLoop b c (fuel + 1) s = some u := by
  rw [doLoop, hb, Option.bind_some, whileLoop_stop h]

theorem doLoop_pass {s u : σ} (hb : b s = some u) (h : c u = true) (fuel : ℕ) :
    doLoop b c (fuel + 1) s = doLoop b c fuel u := by
  simp [doLoop, hb, whileLoop, h]

theorem doLoop_mono {fuel fuel' : ℕ} {s t : σ} (hle : fuel ≤ fuel') (h : doLoop b c fuel s = some t) :
    doLoop b c fuel' s = some t := by
  obtain ⟨u, hu, ht⟩ := Option.bind_eq_some_iff.mp h
  exact Option.bind_eq_some_iff.mpr ⟨u, hu, whileLoop_mono hle ht⟩

theorem doLoop_unique {fuel fuel' : ℕ} {s t t' : σ} (h : doLoop b c fuel s = some t)
    (h' : doLoop b c fuel' s = some t') : t = t' := by
  obtain ⟨u, hu, ht⟩ := Option.bind_eq_some_iff.mp h
  obtain ⟨u', hu', ht'⟩ := Option.bind_eq_some_iff.mp h'
  cases hu.symm.trans hu'
  exact whileLoop_unique ht ht'

theorem doLoop_counted (I : ℕ → σ → Prop) (hpass : ∀ n s u, I (n + 1) s → b s = some u → I n u) {n : ℕ}
    {s t : σ} (h : I (n + 1) s) (ht : doLoop b c (n + 1) s = some t) : ∃ k ≤ n, I k t := by
  obtain ⟨u, hu, hrest⟩ := Option.bind_eq_some_iff.mp ht
  exact whileLoop_counted I (fun n s u hI _ hb => hpass n s u hI hb) (hpass n s u h hu) hrest

theorem doLoop_invariant (I : σ → Prop) (hpass : ∀ s u, I s → b s = some u → I u) {fuel : ℕ} {s t : σ} (h : I s)
    (ht : doLoop b c fuel s = some t) : I t ∧ c t = false := by
  obtain ⟨u, hu, hrest⟩ := Option.bind_eq_some_iff.mp ht
  exact whileLoop_invariant I (fun s u hI _ hb => hpass s u hI hb) (hpass s u h hu) hrest

theorem doLoop_project {τ : Type*} {c' : τ → Bool} {b' : τ → Option τ} (g : τ → σ)
    (hc : ∀ s, c' s = c (g s)) (hb : ∀ s, (b' s).map g = b (g s)) (fuel : ℕ) (s : τ) :
    (doLoop b' c' fuel s).map g = doLoop b c fuel (g s) := by
  rw [doLoop, doLoop, ← hb s]
  cases b' s with
  | none => rfl
  | some u => exact whileLoop_project g hc hb fuel u

theorem doLoop_iterate (f : σ → σ) (hbody : ∀ s, b s = some (f s)) (k : ℕ) (s : σ)
    (hc : ∀ j < k, c (f^[j + 1] s) = true) (hk : c (f^[k + 1] s) = false) :
    doLoop b c (k + 1) s = some (f^[k + 1] s) := by
  rw [doLoop, hbody, Option.bind_some, Function.iterate_succ_apply]
  refine whileLoop_iterate f hbody k (f s) (fun j hj => ?_) ?_
  · simpa only [Function.iterate_succ_apply] using hc j hj
  · simpa only [Function.iterate_succ_apply] using hk

end Ktux.Loops
