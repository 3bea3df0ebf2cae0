import Mathlib.Data.List.Chain
import Mathlib.Data.List.Nodup
import Mathlib.Logic.Function.Basic
import Mathlib.Tactic.Common

set_option autoImplicit false

/-!
# Circular doubly linked lists

Nodes with nullable links in both directions. `Ring l head xs` says that the nodes met from `head` on,
forwards and backwards, are those of `xs`, each once.
-/
namespace Ktux.CircularList

variable {α : Type*} [DecidableEq α]

structure Links (α : Type*) where
  next : α → Option α
  prev : α → Option α

def insertBetween (new prev next : α) (l : Links α) : Links α where
  next := Function.update (Function.update l.next new (some next)) prev (some new)
  prev := Function.update (Function.update l.prev next (some new)) new (some prev)

def listAdd (new head : α) (l : Links α) : Links α :=
  match l.next head with
  | none => l
  | some next => insertBetween new head next l

def listDel (entry : α) (l : Links α) : Links α :=
  match l.prev entry, l.next entry with
  | some prev, some next =>
    { next := Function.update (Function.update l.next prev (some next)) entry none
      prev := Function.update (Function.update l.prev next (some prev)) entry none }
  | _, _ => l

def listHeadInit (head : α) (l : Links α) : Links α where
  next := Function.update l.next head (some head)
  prev := Function.update l.prev head (some head)

def Linked (l : Links α) (a b : α) : Prop := l.next a = some b ∧ l.prev b = some a

/-- The nodes from `a` on, up to `b`. -/
def Segment (l : Links α) : α → List α → α → Prop
  | a, [], b => Linked l a b
  | a, x :: xs, b => Linked l a x ∧ Segment l x xs b

structure Ring (l : Links α) (head : α) (xs : List α) : Prop where
  nodup : (head :: xs).Nodup
  segment : Segment l head xs head

theorem ring_init (head : α) (l : Links α) : Ring (listHeadInit head l) head [] :=
  ⟨List.nodup_singleton head, Function.update_self _ _ _, Function.update_self _ _ _⟩

omit [DecidableEq α] in
theorem Segment.append {l : Links α} {a b c : α} {xs ys : List α} (h : Segment l a xs b)
    (h' : Segment l b ys c) : Segment l a (xs ++ b :: ys) c := by
  induction xs generalizing a with
  | nil => exact ⟨h, h'⟩
  | cons x xs ih => exact ⟨h.1, ih h.2⟩

omit [DecidableEq α] in
theorem Segment.split {l : Links α} {a b c : α} {xs ys : List α}
    (h : Segment l a (xs ++ b :: ys) c) : Segment l a xs b ∧ Segment l b ys c := by
  induction xs generalizing a with
  | nil => exact h
  | cons x xs ih =>
    obtain ⟨hx, htail⟩ := h
    exact ⟨⟨hx, (ih htail).1⟩, (ih htail).2⟩

omit [DecidableEq α] in
/-- A segment depends on the forward links of its nodes but the last and the backward links of its nodes
but the first. -/
theorem Segment.congr {l l' : Links α} {a b : α} {xs : List α} (h : Segment l a xs b)
    (hnext : ∀ x ∈ a :: xs, l'.next x = l.next x) (hprev : ∀ x ∈ xs ++ [b], l'.prev x = l.prev x) :
    Segment l' a xs b := by
  induction xs generalizing a with
  | nil =>
    exact ⟨(hnext a (by simp)).trans h.1, (hprev b (by simp)).trans h.2⟩
  | cons x xs ih =>
    obtain ⟨⟨hn, hp⟩, htail⟩ := h
    refine ⟨⟨(hnext a (by simp)).trans hn, (hprev x (by simp)).trans hp⟩, ih htail ?_ ?_⟩
    · exact fun y hy => hnext y (List.mem_cons_of_mem _ hy)
    · exact fun y hy => hprev y (List.mem_cons_of_mem _ hy)

section Insert
variable {l : Links α} {new prev next x : α}

theorem insertBetween_linked (hp : new ≠ prev) (hn : new ≠ next) :
    Linked (insertBetween new prev next l) prev new ∧ Linked (insertBetween new prev next l) new next := by
  refine ⟨⟨Function.update_self _ _ _, Function.update_self _ _ _⟩, ?_, ?_⟩
  · change Function.update _ prev _ new = _
    rw [Function.update_of_ne hp, Function.update_self]
  · change Function.update _ new _ next = _
    rw [Function.update_of_ne hn.symm, Function.update_self]

theorem insertBetween_next (hp : x ≠ prev) (hx : x ≠ new) :
    (insertBetween new prev next l).next x = l.next x := by
  change Function.update _ prev _ x = _
  rw [Function.update_of_ne hp, Function.update_of_ne hx]

theorem insertBetween_prev (hn : x ≠ next) (hx : x ≠ new) :
    (insertBetween new prev next l).prev x = l.prev x := by
  change Function.update _ new _ x = _
  rw [Function.update_of_ne hx, Function.update_of_ne hn]

end Insert

theorem Ring.listAdd {l : Links α} {head new : α} {xs : List α} (h : Ring l head xs)
    (hnew : new ∉ head :: xs) : Ring (listAdd new head l) head (new :: xs) := by
  obtain ⟨hhead, hxs⟩ := List.nodup_cons.mp h.nodup
  obtain ⟨hne, hnxs⟩ := List.ne_and_not_mem_of_not_mem_cons hnew
  have hnodup : (head :: new :: xs).Nodup :=
    List.nodup_cons.mpr ⟨List.not_mem_cons_of_ne_of_not_mem hne.symm hhead, List.nodup_cons.mpr ⟨hnxs, hxs⟩⟩
  cases xs with
  | nil =>
    have hadd : CircularList.listAdd new head l = insertBetween new head head l := by
      rw [CircularList.listAdd, h.segment.1]
    rw [hadd]
    exact ⟨hnodup, insertBetween_linked hne hne⟩
  | cons y ys =>
    obtain ⟨hlink, hrest⟩ := h.segment
    obtain ⟨hy, hnys⟩ := List.ne_and_not_mem_of_not_mem_cons hnxs
    obtain ⟨hyys, _⟩ := List.nodup_cons.mp hxs
    obtain ⟨hyhead, _⟩ := List.ne_and_not_mem_of_not_mem_cons hhead
    have hadd : CircularList.listAdd new head l = insertBetween new head y l := by
      rw [CircularList.listAdd, hlink.1]
    rw [hadd]
    obtain ⟨hfirst, hsecond⟩ := insertBetween_linked (l := l) hne hy
    refine ⟨hnodup, hfirst, hsecond, hrest.congr (fun x hx => ?_) (fun x hx => ?_)⟩
    · exact insertBetween_next (fun heq => hhead (heq ▸ hx)) (fun heq => hnxs (heq ▸ hx))
    · rcases List.mem_append.mp hx with hx | hx
      · exact insertBetween_prev (fun heq => hyys (heq ▸ hx)) (fun heq => hnys (heq ▸ hx))
      · rw [List.mem_singleton.mp hx]
        exact insertBetween_prev hyhead hne.symm

section Delete
variable {l : Links α} {a b entry x : α}

theorem listDel_eq (hp : Linked l a entry) (hn : Linked l entry b) : listDel entry l =
    { next := Function.update (Function.update l.next a (some b)) entry none
      prev := Function.update (Function.update l.prev b (some a)) entry none } := by
  rw [listDel, hp.2, hn.1]

theorem listDel_linked (hp : Linked l a entry) (hn : Linked l entry b) (ha : a ≠ entry) (hb : b ≠ entry) :
    Linked (listDel entry l) a b := by
  rw [listDel_eq hp hn]
  constructor
  · change Function.update _ entry _ a = _
    rw [Function.update_of_ne ha, Function.update_self]
  · change Function.update _ entry _ b = _
    rw [Function.update_of_ne hb, Function.update_self]

theorem listDel_next (hp : Linked l a entry) (hn : Linked l entry b) (ha : x ≠ a) (hx : x ≠ entry) :
    (listDel entry l).next x = l.next x := by
  rw [listDel_eq hp hn]
  change Function.update _ entry _ x = _
  rw [Function.update_of_ne hx, Function.update_of_ne ha]

theorem listDel_prev (hp : Linked l a entry) (hn : Linked l entry b) (hb : x ≠ b) (hx : x ≠ entry) :
    (listDel entry l).prev x = l.prev x := by
  rw [listDel_eq hp hn]
  change Function.update _ entry _ x = _
  rw [Function.update_of_ne hx, Function.update_of_ne hb]

end Delete

omit [DecidableEq α] in
/-- A segment ends in a link of its last node; redirecting that link redirects the segment. -/
theorem Segment.redirect {l : Links α} {a x : α} {ys : List α} (h : Segment l a ys x)
    (hnodup : (a :: ys).Nodup) : ∃ p ∈ a :: ys, Linked l p x ∧ ∀ (l' : Links α) (b : α),
      (∀ y ∈ a :: ys, y ≠ p → l'.next y = l.next y) → (∀ y ∈ ys, l'.prev y = l.prev y) →
      Linked l' p b → Segment l' a ys b := by
  induction ys generalizing a with
  | nil => exact ⟨a, List.mem_cons_self .., h, fun _ _ _ _ hlink => hlink⟩
  | cons y ys ih =>
    obtain ⟨hay, hys⟩ := List.nodup_cons.mp hnodup
    obtain ⟨⟨hnext, hprev⟩, htail⟩ := h
    obtain ⟨p, hp, hlink, hredirect⟩ := ih htail hys
    have hap : a ≠ p := fun heq => hay (heq ▸ hp)
    refine ⟨p, List.mem_cons_of_mem _ hp, hlink, fun l' b hn hv hb => ⟨⟨?_, ?_⟩, ?_⟩⟩
    · exact (hn a (List.mem_cons_self ..) hap).trans hnext
    · exact (hv y (List.mem_cons_self ..)).trans hprev
    · exact hredirect l' b (fun z hz => hn z (List.mem_cons_of_mem _ hz))
        (fun z hz => hv z (List.mem_cons_of_mem _ hz)) hb

theorem Ring.listDel {l : Links α} {head entry : α} {xs : List α} (h : Ring l head xs)
    (hmem : entry ∈ xs) : Ring (listDel entry l) head (xs.erase entry) := by
  obtain ⟨hhead, hxs⟩ := List.nodup_cons.mp h.nodup
  obtain ⟨ys, zs, rfl⟩ := List.append_of_mem hmem
  have hsplit := List.nodup_append.mp hxs
  obtain ⟨hys, hzs, hdisjoint⟩ := hsplit
  obtain ⟨hentry, hzs'⟩ := List.nodup_cons.mp hzs
  have hentry_ys : entry ∉ ys := fun hy => hdisjoint entry hy entry (List.mem_cons_self ..) rfl
  have herase : (ys ++ entry :: zs).erase entry = ys ++ zs := by
    rw [List.erase_append_right _ hentry_ys, List.erase_cons_head]
  have hne : entry ≠ head := fun heq => hhead (by simp [heq])
  have hhead_ys : head ∉ ys := fun hy => hhead (List.mem_append_left _ hy)
  have hhead_zs : head ∉ zs := fun hz => hhead (List.mem_append_right _ (List.mem_cons_of_mem _ hz))
  have hnodup : (head :: (ys ++ zs)).Nodup := by
    rw [← herase]
    exact h.nodup.sublist (List.cons_sublist_cons.mpr List.erase_sublist)
  obtain ⟨hbefore, hafter⟩ := h.segment.split
  obtain ⟨p, hp, hlink, hredirect⟩ := hbefore.redirect (List.nodup_cons.mpr ⟨hhead_ys, hys⟩)
  have hentry_before : entry ∉ head :: ys := List.not_mem_cons_of_ne_of_not_mem hne hentry_ys
  have hp_entry : p ≠ entry := fun heq => hentry_before (heq ▸ hp)
  rw [herase]
  refine ⟨hnodup, ?_⟩
  cases zs with
  | nil =>
    rw [List.append_nil]
    refine hredirect _ head (fun y hy hyp => ?_) (fun y hy => ?_)
      (listDel_linked hlink hafter hp_entry hne.symm)
    · exact listDel_next hlink hafter hyp (fun heq => hentry_before (heq ▸ hy))
    · exact listDel_prev hlink hafter (fun heq => hhead_ys (heq ▸ hy)) (fun heq => hentry_ys (heq ▸ hy))
  | cons z zs =>
    obtain ⟨hfirst, hrest⟩ := hafter
    obtain ⟨hez, hezs⟩ := List.ne_and_not_mem_of_not_mem_cons hentry
    obtain ⟨hzzs, _⟩ := List.nodup_cons.mp hzs'
    have hz_before : z ∉ head :: ys := by
      refine List.not_mem_cons_of_ne_of_not_mem (fun heq => hhead_zs (by simp [heq])) fun hy => ?_
      exact hdisjoint z hy z (List.mem_cons_of_mem _ (List.mem_cons_self ..)) rfl
    have hp_zs : p ∉ z :: zs := by
      intro hpz
      rcases List.mem_cons.mp hp with rfl | hpy
      · exact hhead_zs hpz
      · exact hdisjoint p hpy p (List.mem_cons_of_mem _ hpz) rfl
    refine Segment.append (hredirect _ z (fun y hy hyp => ?_) (fun y hy => ?_)
      (listDel_linked hlink hfirst hp_entry hez.symm)) (hrest.congr (fun y hy => ?_) (fun y hy => ?_))
    · exact listDel_next hlink hfirst hyp (fun heq => hentry_before (heq ▸ hy))
    · exact listDel_prev hlink hfirst (fun heq => hz_before (heq ▸ List.mem_cons_of_mem _ hy))
        (fun heq => hentry_ys (heq ▸ hy))
    · exact listDel_next hlink hfirst (fun heq => hp_zs (heq ▸ hy)) (fun heq => hentry (heq ▸ hy))
    · rcases List.mem_append.mp hy with hy | hy
      · exact listDel_prev hlink hfirst (fun heq => hzzs (heq ▸ hy)) (fun heq => hezs (heq ▸ hy))
      · rw [List.mem_singleton.mp hy]
        exact listDel_prev hlink hfirst (fun heq => hhead_zs (by simp [heq])) hne.symm

end Ktux.CircularList
