import Ktux.CircularList
import Ktux.Loops

set_option autoImplicit false

/-!
# More operations on circular lists

Insertion at the tail, deletion that reinitialises, splicing, and walks in both directions. A ring can be
read from any of its nodes, and depends on the links of its own nodes only.
-/
namespace Ktux.CircularList
open Loops

variable {α : Type*}

section Operations
variable [DecidableEq α]

def Links.setNext (a : α) (b : Option α) (l : Links α) : Links α :=
  { l with next := Function.update l.next a b }

def Links.setPrev (a : α) (b : Option α) (l : Links α) : Links α :=
  { l with prev := Function.update l.prev a b }

def unlink (prev next : α) (l : Links α) : Links α :=
  (l.setPrev next (some prev)).setNext prev (some next)

def splice (first last head next : α) (l : Links α) : Links α :=
  (((l.setPrev first (some head)).setNext head (some first)).setNext last (some next)).setPrev next (some last)

end Operations

/-- The links agree except at the nodes `touched`. -/
def SameOutside (touched : List α) (l l' : Links α) : Prop :=
  ∀ x ∉ touched, l'.next x = l.next x ∧ l'.prev x = l.prev x

section Frame
variable {l l' l'' : Links α} {head x : α} {xs ys zs touched touched' : List α}

theorem SameOutside.trans (h : SameOutside touched l l') (h' : SameOutside touched' l' l'') :
    SameOutside (touched ++ touched') l l'' := by
  intro x hx
  obtain ⟨hleft, hright⟩ := not_or.mp fun hmem => hx (List.mem_append.mpr hmem)
  exact ⟨(h' x hright).1.trans (h x hleft).1, (h' x hright).2.trans (h x hleft).2⟩

theorem Ring.frame (h : Ring l head xs) (hsame : SameOutside touched l l')
    (hout : ∀ x ∈ head :: xs, x ∉ touched) : Ring l' head xs := by
  refine ⟨h.nodup, h.segment.congr (fun x hx => (hsame x (hout x hx)).1) fun x hx => ?_⟩
  refine (hsame x (hout x ?_)).2
  rw [List.mem_cons, or_comm, ← List.mem_singleton (b := head), ← List.mem_append]
  exact hx

/-- A ring can be read from any of its nodes. -/
theorem Ring.rotate (h : Ring l head (ys ++ x :: zs)) : Ring l x (zs ++ head :: ys) := by
  obtain ⟨hbefore, hafter⟩ := h.segment.split
  refine ⟨?_, hafter.append hbefore⟩
  have hperm : List.Perm (head :: (ys ++ x :: zs)) (x :: (zs ++ head :: ys)) :=
    @List.perm_append_comm _ (head :: ys) (x :: zs)
  exact hperm.nodup_iff.mp h.nodup

/-- Each node of a ring stands between two nodes of it. -/
theorem Ring.neighbours (h : Ring l head xs) (hx : x ∈ head :: xs) :
    ∃ p ∈ head :: xs, ∃ n ∈ head :: xs, Linked l p x ∧ Linked l x n := by
  have hhead : ∀ {head xs}, Ring l head xs →
      ∃ p ∈ head :: xs, ∃ n ∈ head :: xs, Linked l p head ∧ Linked l head n := by
    intro head xs h
    obtain ⟨p, hp, hlink, -⟩ := h.segment.redirect h.nodup
    cases xs with
    | nil => exact ⟨p, hp, head, List.mem_cons_self .., hlink, h.segment⟩
    | cons y ys => exact ⟨p, hp, y, by simp, hlink, h.segment.1⟩
  rcases List.mem_cons.mp hx with rfl | hx
  · exact hhead h
  · obtain ⟨ys, zs, rfl⟩ := List.append_of_mem hx
    obtain ⟨p, hp, n, hn, hlinks⟩ := hhead h.rotate
    have hmem : ∀ {y}, y ∈ x :: (zs ++ head :: ys) → y ∈ head :: (ys ++ x :: zs) := by
      intro y hy
      simp only [List.mem_cons, List.mem_append] at hy ⊢
      tauto
    exact ⟨p, hmem hp, n, hmem hn, hlinks⟩

end Frame

section Ring
variable [DecidableEq α] {l : Links α} {head new entry p n x : α} {xs ys : List α}

theorem insertBetween_outside (new prev next : α) (l : Links α) :
    SameOutside [new, prev, next] l (insertBetween new prev next l) := by
  intro x hx
  simp only [List.mem_cons, List.not_mem_nil, or_false, not_or] at hx
  exact ⟨insertBetween_next hx.2.1 hx.1, insertBetween_prev hx.2.2 hx.1⟩

theorem unlink_outside (prev next : α) (l : Links α) : SameOutside [prev, next] l (unlink prev next l) := by
  intro x hx
  simp only [List.mem_cons, List.not_mem_nil, or_false, not_or] at hx
  exact ⟨Function.update_of_ne hx.1 _ _, Function.update_of_ne hx.2 _ _⟩

theorem listHeadInit_outside (head : α) (l : Links α) : SameOutside [head] l (listHeadInit head l) := by
  intro x hx
  rw [List.mem_singleton] at hx
  exact ⟨Function.update_of_ne hx _ _, Function.update_of_ne hx _ _⟩

theorem splice_next {first last head next : α} (hlast : x ≠ last) (hhead : x ≠ head) :
    (splice first last head next l).next x = l.next x :=
  (Function.update_of_ne hlast _ _).trans (Function.update_of_ne hhead _ _)

theorem splice_prev {first last head next : α} (hnext : x ≠ next) (hfirst : x ≠ first) :
    (splice first last head next l).prev x = l.prev x :=
  (Function.update_of_ne hnext _ _).trans (Function.update_of_ne hfirst _ _)

theorem splice_outside (first last head next : α) (l : Links α) :
    SameOutside [first, last, head, next] l (splice first last head next l) := by
  intro x hx
  simp only [List.mem_cons, List.not_mem_nil, or_false, not_or] at hx
  obtain ⟨hfirst, hlast, hhead, hnext⟩ := hx
  exact ⟨splice_next hlast hhead, splice_prev hnext hfirst⟩

theorem Ring.insertFirst (h : Ring l head xs) (hnew : new ∉ head :: xs) (hnext : l.next head = some n) :
    Ring (insertBetween new head n l) head (new :: xs) := by
  have hadd := h.listAdd hnew
  rw [CircularList.listAdd, hnext] at hadd
  exact hadd

theorem Ring.insertLast (h : Ring l head xs) (hnew : new ∉ head :: xs) (hprev : l.prev head = some p) :
    Ring (insertBetween new p head l) head (xs ++ [new]) := by
  rcases List.eq_nil_or_concat xs with rfl | ⟨ys, y, hxs⟩
  · obtain rfl : head = p := Option.some.inj (h.segment.2.symm.trans hprev)
    exact h.insertFirst hnew h.segment.1
  · rw [List.concat_eq_append] at hxs
    subst hxs
    have hrot : Ring l y (head :: ys) := h.rotate
    obtain rfl : y = p := Option.some.inj (hrot.segment.1.2.symm.trans hprev)
    have hnew' : new ∉ y :: head :: ys := by
      simp only [List.mem_cons, List.mem_append, List.not_mem_nil, or_false, not_or] at hnew ⊢
      tauto
    have hadd : Ring (insertBetween new y head l) y ([new] ++ head :: ys) :=
      hrot.insertFirst hnew' hrot.segment.1.1
    have hback := hadd.rotate
    rw [List.append_assoc, List.singleton_append]
    exact hback

theorem Ring.unlink (h : Ring l head xs) (hmem : entry ∈ xs) (hprev : l.prev entry = some p)
    (hnext : l.next entry = some n) : Ring (unlink p n l) head (xs.erase entry) := by
  have hdel := h.listDel hmem
  have heq : CircularList.listDel entry l = ((CircularList.unlink p n l).setNext entry none).setPrev entry none := by
    rw [CircularList.listDel, hprev, hnext]
    rfl
  have hsame : SameOutside [entry] (CircularList.listDel entry l) (CircularList.unlink p n l) := by
    intro x hx
    rw [List.mem_singleton] at hx
    rw [heq]
    exact ⟨(Function.update_of_ne hx _ _).symm, (Function.update_of_ne hx _ _).symm⟩
  refine hdel.frame hsame fun x hx => ?_
  have hnodup := List.nodup_cons.mp h.nodup
  rw [List.mem_singleton]
  rintro rfl
  rcases List.mem_cons.mp hx with rfl | hx
  · exact hnodup.1 hmem
  · exact (List.Nodup.mem_erase_iff hnodup.2).mp hx |>.1 rfl

/-- The nodes of one ring move to the front of another. -/
theorem Ring.splice {list first last next : α} (h : Ring l list xs) (h' : Ring l head ys) (hne : xs ≠ [])
    (hapart : ∀ x ∈ list :: xs, x ∉ head :: ys) (hfirst : l.next list = some first)
    (hlast : l.prev list = some last) (hnext : l.next head = some next) :
    Ring (splice first last head next l) head (xs ++ ys) := by
  obtain ⟨x, xs, rfl⟩ := List.exists_cons_of_ne_nil hne
  obtain ⟨hlink, hseg⟩ := h.segment
  obtain rfl : x = first := Option.some.inj (hlink.1.symm.trans hfirst)
  obtain ⟨hlist, hxs⟩ := List.nodup_cons.mp h.nodup
  obtain ⟨p, hp, hplast, hredirect⟩ := hseg.redirect hxs
  obtain rfl : p = last := Option.some.inj (hplast.2.symm.trans hlast)
  have hapart' : ∀ y ∈ x :: xs, y ∉ head :: ys := fun y hy => hapart y (List.mem_cons_of_mem _ hy)
  obtain ⟨hhead, hys⟩ := List.nodup_cons.mp h'.nodup
  have hphead : p ≠ head := fun heq => hapart' p hp (heq ▸ List.mem_cons_self ..)
  have hxhead : x ≠ head := fun heq => hapart' x (List.mem_cons_self ..) (heq ▸ List.mem_cons_self ..)
  have hmem : next ∈ head :: ys := by
    cases ys with
    | nil => exact List.mem_singleton.mpr (Option.some.inj (hnext.symm.trans h'.segment.1))
    | cons y ys =>
      have heq : next = y := Option.some.inj (hnext.symm.trans h'.segment.1.1)
      exact heq ▸ List.mem_cons_of_mem _ (List.mem_cons_self ..)
  have hnextOut : ∀ y ∈ x :: xs, y ≠ next := fun y hy heq => hapart' y hy (heq ▸ hmem)
  have hprevs : ∀ y ∈ xs, (CircularList.splice x p head next l).prev y = l.prev y := fun y hy =>
    splice_prev (hnextOut y (List.mem_cons_of_mem _ hy)) fun heq => (List.nodup_cons.mp hxs).1 (heq ▸ hy)
  have hnexts : ∀ y ∈ x :: xs, y ≠ p → (CircularList.splice x p head next l).next y = l.next y :=
    fun y hy hyp => splice_next hyp fun heq => hapart' y hy (heq ▸ List.mem_cons_self ..)
  have hfirstLinked : Linked (CircularList.splice x p head next l) head x :=
    ⟨(Function.update_of_ne hphead.symm _ _).trans (Function.update_self _ _ _),
      (Function.update_of_ne (hnextOut x (List.mem_cons_self ..)) _ _).trans (Function.update_self _ _ _)⟩
  have hlastLinked : Linked (CircularList.splice x p head next l) p next :=
    ⟨Function.update_self _ _ _, Function.update_self _ _ _⟩
  have hmoved := hredirect _ next hnexts hprevs hlastLinked
  have hnodup : (head :: ((x :: xs) ++ ys)).Nodup := by
    refine List.nodup_cons.mpr ⟨fun hin => ?_, List.nodup_append.mpr ⟨hxs, hys, ?_⟩⟩
    · rcases List.mem_append.mp hin with hin | hin
      · exact hapart' head hin (List.mem_cons_self ..)
      · exact hhead hin
    · rintro y hy z hz rfl
      exact hapart' y hy (List.mem_cons_of_mem _ hz)
  refine ⟨hnodup, hfirstLinked, ?_⟩
  cases ys with
  | nil =>
    obtain rfl : head = next := Option.some.inj (h'.segment.1.symm.trans hnext)
    change Segment _ x (xs ++ []) head
    rw [List.append_nil]
    exact hmoved
  | cons y ys =>
    obtain ⟨hylink, hrest⟩ := h'.segment
    obtain rfl : y = next := Option.some.inj (hylink.1.symm.trans hnext)
    obtain ⟨hyys, -⟩ := List.nodup_cons.mp hys
    refine Segment.append hmoved (hrest.congr (fun z hz => ?_) fun z hz => ?_)
    · exact splice_next (fun heq => hapart' p hp (heq ▸ List.mem_cons_of_mem _ hz)) fun heq => hhead (heq ▸ hz)
    · have hzmem : z ∈ head :: ys := by
        rw [List.mem_cons, or_comm, ← List.mem_singleton (b := head), ← List.mem_append]
        exact hz
      have hzy : z ≠ y := by
        rintro rfl
        rcases List.mem_cons.mp hzmem with heq | hin
        · exact hhead (heq ▸ List.mem_cons_self ..)
        · exact hyys hin
      have hzx : z ≠ x := by
        rintro rfl
        rcases List.mem_cons.mp hzmem with heq | hin
        · exact hxhead heq
        · exact hapart' z (List.mem_cons_self ..) (List.mem_cons_of_mem _ (List.mem_cons_of_mem _ hin))
      exact splice_prev hzy hzx

end Ring

section Walks

structure Walk (α : Type*) where
  pos : α
  visited : List α

variable [DecidableEq α]

def walking (head : α) (w : Walk α) : Bool := decide (w.pos ≠ head)

def walkPass (follow : α → Option α) (w : Walk α) : Option (Walk α) :=
  (follow w.pos).map fun next => ⟨next, w.visited ++ [w.pos]⟩

/-- A walk along `follow` from the node after `head` until it is back at `head`. -/
def walk (follow : α → Option α) (head : α) (fuel : ℕ) : Option (Walk α) :=
  (follow head).bind fun first => whileLoop (walking head) (walkPass follow) fuel ⟨first, []⟩

def Links.flip (l : Links α) : Links α where
  next := l.prev
  prev := l.next

omit [DecidableEq α] in
theorem Segment.flip {l : Links α} {a b : α} {xs : List α} (h : Segment l a xs b) :
    Segment l.flip b xs.reverse a := by
  induction xs generalizing a with
  | nil => exact And.symm h
  | cons x xs ih =>
    obtain ⟨hlink, htail⟩ := h
    rw [List.reverse_cons]
    exact (ih htail).append hlink.symm

omit [DecidableEq α] in
theorem Ring.flip {l : Links α} {head : α} {xs : List α} (h : Ring l head xs) :
    Ring l.flip head xs.reverse := by
  obtain ⟨hhead, hxs⟩ := List.nodup_cons.mp h.nodup
  have hnodup := List.nodup_cons.mpr ⟨fun hmem => hhead (List.mem_reverse.mp hmem), List.nodup_reverse.mpr hxs⟩
  exact ⟨hnodup, h.segment.flip⟩

theorem walk_segment {l : Links α} {head a : α} {xs done : List α} (h : Segment l a xs head)
    (hout : head ∉ a :: xs) (rest : ℕ) :
    whileLoop (walking head) (walkPass l.next) (xs.length + 2 + rest) ⟨a, done⟩ =
      some ⟨head, done ++ a :: xs⟩ := by
  induction xs generalizing a done with
  | nil =>
    have hne : walking head ⟨a, done⟩ = true := decide_eq_true (List.ne_of_not_mem_cons hout).symm
    have hbody : walkPass l.next ⟨a, done⟩ = some ⟨head, done ++ [a]⟩ := by
      rw [walkPass, h.1, Option.map_some]
    rw [List.length_nil, show 0 + 2 + rest = rest + 1 + 1 by omega, whileLoop_pass hne hbody]
    exact whileLoop_stop (by simp [walking]) rest
  | cons x xs ih =>
    obtain ⟨hlink, htail⟩ := h
    have hne : walking head ⟨a, done⟩ = true := decide_eq_true (List.ne_of_not_mem_cons hout).symm
    have hbody : walkPass l.next ⟨a, done⟩ = some ⟨x, done ++ [a]⟩ := by
      rw [walkPass, hlink.1, Option.map_some]
    rw [List.length_cons, show xs.length + 1 + 2 + rest = (xs.length + 2 + rest) + 1 by omega,
      whileLoop_pass hne hbody, ih htail (List.not_mem_of_not_mem_cons hout), List.append_assoc,
      List.singleton_append]

/-- A walk around a ring meets each of its nodes once, in order, and ends. -/
theorem Ring.walk {l : Links α} {head : α} {xs : List α} (h : Ring l head xs) (rest : ℕ) :
    walk l.next head (xs.length + 1 + rest) = some ⟨head, xs⟩ := by
  have hout := (List.nodup_cons.mp h.nodup).1
  cases xs with
  | nil =>
    have hnext : l.next head = some head := h.segment.1
    rw [CircularList.walk, hnext, Option.bind_some, List.length_nil, show 0 + 1 + rest = rest + 1 by omega]
    exact whileLoop_stop (by simp [walking]) rest
  | cons x xs =>
    obtain ⟨hlink, htail⟩ := h.segment
    rw [CircularList.walk, hlink.1, Option.bind_some, List.length_cons,
      show xs.length + 1 + 1 + rest = xs.length + 2 + rest by omega]
    exact walk_segment htail hout rest

theorem Ring.walk_prev {l : Links α} {head : α} {xs : List α} (h : Ring l head xs) (rest : ℕ) :
    CircularList.walk l.prev head (xs.length + 1 + rest) = some ⟨head, xs.reverse⟩ := by
  have hwalk := h.flip.walk rest
  rw [List.length_reverse] at hwalk
  exact hwalk

end Walks

end Ktux.CircularList
