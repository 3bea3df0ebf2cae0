import Mathlib.Data.List.Basic
import Mathlib.Logic.Function.Basic
import Mathlib.Tactic.Common

set_option autoImplicit false

/-!
# A cache of table entries

A processor looks entries up in a table and may keep what it has found. It may do so, and forget again, at any
time; the program changes the table and names the entries that must not be kept. The cache agrees with the table
at all times, whatever the processor does, exactly when each change leaves the entries that may still be kept.
-/
namespace Ktux.TranslationCache

variable {α β ι : Type*}

structure Cached (α β : Type*) where
  table : α → Option β
  cache : α → Option β

/-- What an update does to the table, and which cached entries survive it. -/
structure Updates (α β ι : Type*) where
  effect : (α → Option β) → ι → α → Option β
  survives : ι → α → Bool

inductive Event (α ι : Type*) where
  | access (a : α)
  | evict (a : α)
  | update (i : ι)

def updatesOf : List (Event α ι) → List ι
  | [] => []
  | .update i :: es => i :: updatesOf es
  | .access _ :: es | .evict _ :: es => updatesOf es

theorem updatesOf_append (es es' : List (Event α ι)) : updatesOf (es ++ es') = updatesOf es ++ updatesOf es' := by
  induction es with
  | nil => rfl
  | cons e es ih => cases e <;> simp [updatesOf, ih]

theorem updatesOf_updates (is : List ι) : updatesOf (is.map (Event.update : ι → Event α ι)) = is := by
  induction is with
  | nil => rfl
  | cons i is ih => simp [updatesOf, ih]

section Runs
variable [DecidableEq α] {U : Updates α β ι} {s : Cached α β}

def after (U : Updates α β ι) (s : Cached α β) : Event α ι → Cached α β
  | .access a => { s with cache := Function.update s.cache a (s.cache a <|> s.table a) }
  | .evict a => { s with cache := Function.update s.cache a none }
  | .update i => ⟨U.effect s.table i, fun a => if U.survives i a then s.cache a else none⟩

def Coherent (s : Cached α β) : Prop := ∀ a b, s.cache a = some b → s.table a = some b

/-- The update leaves the entries that may still be kept after it. -/
def Silent (U : Updates α β ι) (i : ι) (table : α → Option β) : Prop :=
  ∀ a b, table a = some b → U.survives i a = true → U.effect table i a = some b

/-- Only the updates change the table. -/
theorem table_after (es : List (Event α ι)) :
    (es.foldl (after U) s).table = (updatesOf es).foldl U.effect s.table := by
  induction es generalizing s with
  | nil => rfl
  | cons e es ih => cases e <;> simp [updatesOf, after, ih]

theorem Coherent.access (h : Coherent s) (a : α) : Coherent (after U s (.access a)) := by
  intro x b hb
  by_cases hx : x = a
  · subst hx
    simp only [after, Function.update_self] at hb
    cases hc : s.cache x with
    | none => simpa [after, hc] using hb
    | some c =>
      rw [hc] at hb
      exact h x b (hc.trans hb)
  · simp only [after, Function.update_of_ne hx] at hb
    exact h x b hb

theorem Coherent.evict (h : Coherent s) (a : α) : Coherent (after U s (.evict a)) := by
  intro x b hb
  by_cases hx : x = a
  · subst hx
    simp [after] at hb
  · simp only [after, Function.update_of_ne hx] at hb
    exact h x b hb

theorem Coherent.update (h : Coherent s) {i : ι} (hi : Silent U i s.table) : Coherent (after U s (.update i)) := by
  intro x b hb
  simp only [after] at hb ⊢
  split_ifs at hb with hx
  exact hi x b (h x b hb) hx

/-- A cached entry that the update changes and does not drop is stale after it. -/
theorem Coherent.stale (h : Coherent s) {i : ι} (hi : ¬ Silent U i s.table) :
    ∃ a, ¬ Coherent (after U (after U s (.access a)) (.update i)) := by
  unfold Silent at hi
  push Not at hi
  obtain ⟨a, b, hab, hsurvives, hchanged⟩ := hi
  refine ⟨a, fun hcoherent => hchanged (hcoherent a b ?_)⟩
  have hcached : s.cache a = none ∨ s.cache a = some b := by
    cases hc : s.cache a with
    | none => exact Or.inl rfl
    | some c =>
      have hac := h a c hc
      rw [hab] at hac
      exact Or.inr hac.symm
  rcases hcached with hc | hc <;> simp [after, hsurvives, hc, hab]

/-- The rule for programs that only make silent updates. -/
theorem coherent_run (hs : Coherent s) {es : List (Event α ι)}
    (hsilent : ∀ pre i post, updatesOf es = pre ++ i :: post → Silent U i (pre.foldl U.effect s.table)) :
    Coherent (es.foldl (after U) s) := by
  induction es generalizing s with
  | nil => exact hs
  | cons e es ih =>
    cases e with
    | access a => exact ih (hs.access a) fun pre i post hes => hsilent pre i post hes
    | evict a => exact ih (hs.evict a) fun pre i post hes => hsilent pre i post hes
    | update i =>
      apply ih (hs.update (hsilent [] i (updatesOf es) rfl))
      intro pre j post hes
      apply hsilent (i :: pre) j post
      rw [updatesOf, hes]
      rfl

/-- Whatever the processor keeps and forgets between the updates `is`, up to each of them. -/
theorem coherent_iff (hs : Coherent s) (is : List ι) :
    (∀ es : List (Event α ι), updatesOf es <+: is → Coherent (es.foldl (after U) s)) ↔
      ∀ pre i post, is = pre ++ i :: post → Silent U i (pre.foldl U.effect s.table) := by
  constructor
  · intro hall pre i post his
    by_contra hnot
    have hbefore := hall (pre.map Event.update) ⟨i :: post, by rw [updatesOf_updates, his]⟩
    have htable := table_after (U := U) (s := s) (pre.map Event.update)
    rw [updatesOf_updates] at htable
    rw [← htable] at hnot
    obtain ⟨a, hstale⟩ := hbefore.stale hnot
    apply hstale
    have hpre : updatesOf (pre.map Event.update ++ [.access a, .update i]) <+: is := by
      rw [updatesOf_append, updatesOf_updates]
      exact ⟨post, by simp [updatesOf, his]⟩
    simpa [List.foldl_append] using hall _ hpre
  · intro hsilent es hes
    obtain ⟨rest, hrest⟩ := hes
    apply coherent_run hs
    intro pre i post heq
    apply hsilent pre i (post ++ rest)
    rw [← hrest, heq, List.append_assoc, List.cons_append]

end Runs

end Ktux.TranslationCache
