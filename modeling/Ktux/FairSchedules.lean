import Mathlib.Tactic.Common

set_option autoImplicit false

/-!
# Fair schedules

Parties take turns on one state in an order that nobody controls. If each turn leaves the state or lowers its
rank, and outside the goal some party's turn does lower it, then every fair order reaches the goal.
-/
namespace Ktux.FairSchedules

variable {σ ι : Type*} {step : ι → σ → σ} {I goal : σ → Prop} {rank : σ → ℕ} {schedule : ℕ → ι} {s : σ}

/-- The state after each number of turns. -/
def states (step : ι → σ → σ) (schedule : ℕ → ι) (s : σ) : ℕ → σ
  | 0 => s
  | n + 1 => step (schedule n) (states step schedule s n)

theorem states_succ (step : ι → σ → σ) (schedule : ℕ → ι) (s : σ) (n : ℕ) :
    states step schedule s (n + 1) = step (schedule n) (states step schedule s n) := rfl

/-- Every party has a turn again and again. -/
def Fair (schedule : ℕ → ι) : Prop := ∀ p n, ∃ m, n ≤ m ∧ schedule m = p

structure Ranked (step : ι → σ → σ) (I goal : σ → Prop) (rank : σ → ℕ) : Prop where
  keeps : ∀ p s, I s → I (step p s)
  lowers : ∀ p s, I s → step p s = s ∨ rank (step p s) < rank s
  moves : ∀ s, I s → ¬ goal s → ∃ p, step p s ≠ s

theorem states_invariant (hkeeps : ∀ p s, I s → I (step p s)) (hs : I s) (n : ℕ) : I (states step schedule s n) := by
  induction n with
  | zero => exact hs
  | succ n ih => exact hkeeps _ _ ih

/-- A state that no turn changes is the last one. -/
theorem states_stay {n : ℕ} (hstay : ∀ p, step p (states step schedule s n) = states step schedule s n) (m : ℕ)
    (hm : n ≤ m) : states step schedule s m = states step schedule s n := by
  obtain ⟨d, rfl⟩ := Nat.exists_eq_add_of_le hm
  clear hm
  induction d with
  | zero => rfl
  | succ d ih =>
    rw [← Nat.add_assoc, states_succ, ih]
    exact hstay (schedule (n + d))

theorem Ranked.le (h : Ranked step I goal rank) (hs : I s) (n d : ℕ) :
    states step schedule s (n + d) = states step schedule s n ∨
      rank (states step schedule s (n + d)) < rank (states step schedule s n) := by
  induction d with
  | zero => exact Or.inl rfl
  | succ d ih =>
    have hbefore : I (states step schedule s (n + d)) := states_invariant h.keeps hs (n + d)
    rw [← Nat.add_assoc, states_succ]
    rcases h.lowers (schedule (n + d)) _ hbefore with hsame | hlt
    · rw [hsame]
      exact ih
    · right
      rcases ih with heq | hlt'
      · rw [heq] at hlt ⊢
        exact hlt
      · exact Nat.lt_trans hlt hlt'

/-- Outside the goal a fair schedule comes to a turn that lowers the rank. -/
theorem Ranked.progress (h : Ranked step I goal rank) (hfair : Fair schedule) (hs : I s) (n : ℕ)
    (hgoal : ¬ goal (states step schedule s n)) :
    ∃ m, rank (states step schedule s m) < rank (states step schedule s n) := by
  obtain ⟨p, hp⟩ := h.moves _ (states_invariant h.keeps hs n) hgoal
  obtain ⟨m, hm, hturn⟩ := hfair p n
  obtain ⟨d, rfl⟩ := Nat.exists_eq_add_of_le hm
  rcases h.le hs n d with hsame | hlt
  · refine ⟨n + d + 1, ?_⟩
    rw [states_succ, hturn, hsame]
    exact (h.lowers p _ (states_invariant h.keeps hs n)).resolve_left hp
  · exact ⟨_, hlt⟩

theorem Ranked.reaches (h : Ranked step I goal rank) (hfair : Fair schedule) (hs : I s) :
    ∃ n, goal (states step schedule s n) := by
  have hall : ∀ k n, rank (states step schedule s n) ≤ k → ∃ m, goal (states step schedule s m) := by
    intro k
    induction k with
    | zero =>
      intro n hn
      by_contra hnever
      obtain ⟨m, hm⟩ := h.progress hfair hs n fun hgoal => hnever ⟨n, hgoal⟩
      omega
    | succ k ih =>
      intro n hn
      by_cases hgoal : goal (states step schedule s n)
      · exact ⟨n, hgoal⟩
      · obtain ⟨m, hm⟩ := h.progress hfair hs n hgoal
        exact ih m (by omega)
  exact hall _ 0 (Nat.le_refl _)

end Ktux.FairSchedules
