import Mathlib.Data.List.Induction
import Mathlib.Tactic.Common

set_option autoImplicit false

/-!
# Finite runs of a labelled step relation

A run is a finite sequence of labelled steps. `Every` states a property of each step that a run makes,
given the labels before it; the induction rules derive it from an invariant of labels and state.
-/
namespace Ktux.Runs

variable {σ ι : Type*} {step : σ → ι → σ → Prop}

inductive Run (step : σ → ι → σ → Prop) : σ → List ι → σ → Prop where
  | refl (s : σ) : Run step s [] s
  | next {s u v : σ} {a : ι} {as : List ι} (h : step s a u) (tail : Run step u as v) :
      Run step s (a :: as) v

theorem Run.single {s u : σ} {a : ι} (h : step s a u) : Run step s [a] u :=
  .next h (.refl u)

theorem Run.append {s u v : σ} {as bs : List ι} (h : Run step s as u) (h' : Run step u bs v) :
    Run step s (as ++ bs) v := by
  induction h with
  | refl _ => exact h'
  | next hs _ ih => exact .next hs (ih h')

theorem Run.snoc {s u v : σ} {as : List ι} {a : ι} (h : Run step s as u) (h' : step u a v) :
    Run step s (as ++ [a]) v := h.append (.single h')

theorem Run.split {s v : σ} {as bs : List ι} (h : Run step s (as ++ bs) v) :
    ∃ u, Run step s as u ∧ Run step u bs v := by
  induction as generalizing s with
  | nil => exact ⟨s, .refl s, h⟩
  | cons a as ih =>
    cases h with
    | next hs tail =>
      obtain ⟨u, hu, hv⟩ := ih tail
      exact ⟨u, .next hs hu, hv⟩

/-- Where a step leads is determined by its label. -/
def Functional (step : σ → ι → σ → Prop) : Prop := ∀ s a u v, step s a u → step s a v → u = v

theorem Run.functional (hf : Functional step) {s u v : σ} {as : List ι} (h : Run step s as u)
    (h' : Run step s as v) : u = v := by
  induction h with
  | refl _ =>
    cases h'
    rfl
  | next hs _ ih =>
    cases h' with
    | next hs' tail => exact ih (hf _ _ _ _ hs' hs ▸ tail)

/-- Each step of each run along the labels `as` from `s` satisfies `P`, which sees the labels before it. -/
def Every (step : σ → ι → σ → Prop) (P : List ι → σ → ι → σ → Prop) (s : σ) (as : List ι) : Prop :=
  ∀ pre a post u v, as = pre ++ a :: post → Run step s pre u → step u a v → P pre u a v

theorem every_nil {P : List ι → σ → ι → σ → Prop} {s : σ} : Every step P s [] :=
  fun pre _ _ _ _ h => absurd h.symm (List.append_ne_nil_of_right_ne_nil pre (List.cons_ne_nil _ _))

theorem every_snoc {P : List ι → σ → ι → σ → Prop} {s : σ} {as : List ι} {a : ι} :
    Every step P s (as ++ [a]) ↔
      Every step P s as ∧ ∀ u v, Run step s as u → step u a v → P as u a v := by
  constructor
  · intro h
    refine ⟨fun pre b post u v eq => h pre b (post ++ [a]) u v (by simp [eq]), ?_⟩
    exact fun u v => h as a [] u v rfl
  · rintro ⟨h, ha⟩ pre b post u v eq
    rcases List.eq_nil_or_concat post with rfl | ⟨post', c, rfl⟩
    · obtain ⟨rfl, hb⟩ := List.append_inj' eq rfl
      cases hb
      exact ha u v
    · have eq' : as ++ [a] = (pre ++ b :: post') ++ [c] := by simpa using eq
      exact h pre b post' u v (List.append_inj_left' eq' rfl)

theorem Run.mono {step' : σ → ι → σ → Prop} (hle : ∀ s a u, step s a u → step' s a u) {s u : σ} {as : List ι}
    (h : Run step s as u) : Run step' s as u := by
  induction h with
  | refl s => exact .refl s
  | next hs _ ih => exact .next (hle _ _ _ hs) ih

/-- Where labels determine the steps, `Every` looks at the steps of one run. -/
theorem every_of_guarded_run (hf : Functional step) {C : σ → ι → σ → Prop} {s v : σ} {as : List ι}
    (h : Run (fun s a u => step s a u ∧ C s a u) s as v) : Every step (fun _ s a u => C s a u) s as := by
  rintro pre a post u w rfl hr hs
  obtain ⟨u', hpre, hpost⟩ := h.split
  obtain rfl := (hpre.mono fun _ _ _ hstep => hstep.1).functional hf hr
  cases hpost with
  | next hstep _ => exact hf _ _ _ _ hstep.1 hs ▸ hstep.2

theorem every_of_forall {p : ι → Prop} {s : σ} {as : List ι} (h : ∀ a ∈ as, p a) :
    Every step (fun _ _ a _ => p a) s as := by
  rintro pre a post u v rfl _ _
  exact h a (List.mem_append_right _ (List.mem_cons_self ..))

theorem Every.imp {P Q : List ι → σ → ι → σ → Prop} {s : σ} {as : List ι}
    (h : Every step P s as) (hpq : ∀ pre u a v, Run step s pre u → step u a v → P pre u a v → Q pre u a v) :
    Every step Q s as :=
  fun pre a post u v eq hr hs => hpq pre u a v hr hs (h pre a post u v eq hr hs)

/-- The step invariant rule: what holds of the start and is kept by each step that meets the guard `C`
holds after every run all of whose steps meet `C`. -/
theorem Run.guarded_invariant {C : List ι → σ → ι → σ → Prop} (I : List ι → σ → Prop) {s v : σ}
    {as : List ι} (h0 : I [] s)
    (hstep : ∀ pre u a v, Run step s pre u → I pre u → step u a v → C pre u a v → I (pre ++ [a]) v)
    (hC : Every step C s as) (h : Run step s as v) : I as v := by
  induction as using List.reverseRecOn generalizing v with
  | nil => cases h; exact h0
  | append_singleton as a ih =>
    obtain ⟨u, hu, hlast⟩ := h.split
    obtain ⟨hC', hCa⟩ := every_snoc.mp hC
    cases hlast with
    | next hs tail =>
      cases tail
      exact hstep as u a v hu (ih hC' hu) hs (hCa u v hu hs)

theorem Run.history_invariant (I : List ι → σ → Prop) {s v : σ} {as : List ι} (h0 : I [] s)
    (hstep : ∀ pre u a v, I pre u → step u a v → I (pre ++ [a]) v) (h : Run step s as v) : I as v :=
  h.guarded_invariant (C := fun _ _ _ _ => True) I h0
    (fun pre u a v _ hI hs _ => hstep pre u a v hI hs) (fun _ _ _ _ _ _ _ _ => trivial)

theorem Run.invariant (I : σ → Prop) {s v : σ} {as : List ι} (h0 : I s)
    (hstep : ∀ u a v, I u → step u a v → I v) (h : Run step s as v) : I v :=
  h.history_invariant (fun _ => I) h0 (fun _ u a v => hstep u a v)

/-- Forward simulation: where each step has a step with the same label on the other side, so has a run. -/
theorem Run.simulation {τ : Type*} {step' : τ → ι → τ → Prop} (R : σ → τ → Prop) {s v : σ} {w : τ} {as : List ι}
    (h0 : R s w) (hstep : ∀ s w a u, R s w → step s a u → ∃ x, step' w a x ∧ R u x) (h : Run step s as v) :
    ∃ x, Run step' w as x ∧ R v x := by
  induction h generalizing w with
  | refl s => exact ⟨w, .refl w, h0⟩
  | next hs _ ih =>
    obtain ⟨x, hx, hR⟩ := hstep _ _ _ _ h0 hs
    obtain ⟨y, hy, hR'⟩ := ih hR
    exact ⟨y, .next hx hy, hR'⟩

/-- What follows from an invariant at each guarded step holds of every step of a guarded run. -/
theorem every_of_guarded_invariant {C P : List ι → σ → ι → σ → Prop} (I : List ι → σ → Prop) {s : σ}
    {as : List ι} (h0 : I [] s)
    (hstep : ∀ pre u a v, Run step s pre u → I pre u → step u a v → C pre u a v → I (pre ++ [a]) v)
    (hP : ∀ pre u a v, I pre u → step u a v → C pre u a v → P pre u a v)
    (hC : Every step C s as) : Every step P s as := by
  intro pre a post u v eq hr hs
  have hCpre : Every step C s pre := fun pre' b post' u' v' eq' =>
    hC pre' b (post' ++ a :: post) u' v' (by simp [eq, eq'])
  exact hP pre u a v (hr.guarded_invariant I h0 hstep hCpre) hs (hC pre a post u v eq hr hs)

theorem every_of_history_invariant {P : List ι → σ → ι → σ → Prop} (I : List ι → σ → Prop) {s : σ}
    (h0 : I [] s) (hstep : ∀ pre u a v, I pre u → step u a v → I (pre ++ [a]) v)
    (hP : ∀ pre u a v, I pre u → step u a v → P pre u a v) (as : List ι) : Every step P s as :=
  every_of_guarded_invariant (C := fun _ _ _ _ => True) I h0
    (fun pre u a v _ hI hs _ => hstep pre u a v hI hs) (fun pre u a v hI hs _ => hP pre u a v hI hs)
    (fun _ _ _ _ _ _ _ _ => trivial)

end Ktux.Runs
