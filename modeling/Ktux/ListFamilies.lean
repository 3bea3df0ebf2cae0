import Ktux.RingOperations
import Ktux.Runs

set_option autoImplicit false

/-!
# Families of circular lists

Several lists share one set of links. `Represents` ties the links to the sequence of each list; a list whose
head has given its nodes away and is not initialised again has no sequence.
-/
namespace Ktux.ListFamilies
open CircularList Runs

variable {α ι : Type*}

/-- The node is no head and in no list. -/
structure Free (head : ι → α) (lists : ι → Option (List α)) (x : α) : Prop where
  nohead : ∀ i, x ≠ head i
  unlisted : ∀ i xs, lists i = some xs → x ∉ xs

structure Represents (head : ι → α) (l : Links α) (lists : ι → Option (List α)) : Prop where
  heads : Function.Injective head
  ring : ∀ i xs, lists i = some xs → Ring l (head i) xs
  member : ∀ i xs, lists i = some xs → ∀ x ∈ xs, ∀ j, x ≠ head j
  apart : ∀ i j xs ys, lists i = some xs → lists j = some ys → ∀ x ∈ xs, x ∈ ys → i = j

/-- What the calls do to the sequences. -/
inductive Call (ι α : Type*) where
  | init (i : ι)
  | add (x : α) (i : ι)
  | addTail (x : α) (i : ι)
  | del (x : α)
  | delInit (x : α)
  | move (x : α) (i : ι)
  | moveTail (x : α) (i : ι)
  | splice (i j : ι)
  | spliceInit (i j : ι)

/-- The nodes that a call is given. -/
def Call.nodes : Call ι α → List α
  | .add x _ | .addTail x _ | .del x | .delInit x | .move x _ | .moveTail x _ => [x]
  | .init _ | .splice _ _ | .spliceInit _ _ => []

section Sequences
variable [DecidableEq α] [DecidableEq ι]

abbrev Sequences (ι α : Type*) := ι → Option (List α)

def setList (lists : Sequences ι α) (i : ι) (xs : List α) : Sequences ι α := Function.update lists i (some xs)

def forget (lists : Sequences ι α) (i : ι) : Sequences ι α := Function.update lists i none

/-- Each call where its arguments are what it takes: a free node to add, a listed one to delete, two lists
to splice. -/
inductive CallStep (head : ι → α) : Sequences ι α → Call ι α → Sequences ι α → Prop where
  | init {lists : Sequences ι α} (i : ι) : CallStep head lists (.init i) (setList lists i [])
  | add {lists : Sequences ι α} {xs : List α} {x : α} {i : ι} (hi : lists i = some xs) (hx : Free head lists x) :
      CallStep head lists (.add x i) (setList lists i (x :: xs))
  | addTail {lists : Sequences ι α} {xs : List α} {x : α} {i : ι} (hi : lists i = some xs)
      (hx : Free head lists x) : CallStep head lists (.addTail x i) (setList lists i (xs ++ [x]))
  | del {lists : Sequences ι α} {xs : List α} {x : α} {i : ι} (hi : lists i = some xs) (hx : x ∈ xs) :
      CallStep head lists (.del x) (setList lists i (xs.erase x))
  | delInit {lists : Sequences ι α} {xs : List α} {x : α} {i : ι} (hi : lists i = some xs) (hx : x ∈ xs) :
      CallStep head lists (.delInit x) (setList lists i (xs.erase x))
  | move {lists : Sequences ι α} {xs ys : List α} {x : α} {i j : ι} (hi : lists i = some xs) (hx : x ∈ xs)
      (hj : setList lists i (xs.erase x) j = some ys) :
      CallStep head lists (.move x j) (setList (setList lists i (xs.erase x)) j (x :: ys))
  | moveTail {lists : Sequences ι α} {xs ys : List α} {x : α} {i j : ι} (hi : lists i = some xs) (hx : x ∈ xs)
      (hj : setList lists i (xs.erase x) j = some ys) :
      CallStep head lists (.moveTail x j) (setList (setList lists i (xs.erase x)) j (ys ++ [x]))
  | spliceEmpty {lists : Sequences ι α} {i j : ι} (hi : lists i = some []) :
      CallStep head lists (.splice i j) lists
  | splice {lists : Sequences ι α} {xs ys : List α} {i j : ι} (hi : lists i = some xs) (hj : lists j = some ys)
      (hne : xs ≠ []) (hij : i ≠ j) :
      CallStep head lists (.splice i j) (setList (forget lists i) j (xs ++ ys))
  | spliceInit {lists : Sequences ι α} {xs ys : List α} {i j : ι} (hi : lists i = some xs)
      (hj : lists j = some ys) (hij : i ≠ j) :
      CallStep head lists (.spliceInit i j) (setList (setList (forget lists i) j (xs ++ ys)) i [])

section Lookup
variable {lists : Sequences ι α} {i j : ι} {xs ys : List α}

omit [DecidableEq α] in
theorem setList_cases (h : setList lists i xs j = some ys) :
    j = i ∧ ys = xs ∨ j ≠ i ∧ lists j = some ys := by
  by_cases heq : j = i
  · subst heq
    rw [setList, Function.update_self] at h
    exact Or.inl ⟨rfl, (Option.some.inj h).symm⟩
  · rw [setList, Function.update_of_ne heq] at h
    exact Or.inr ⟨heq, h⟩

omit [DecidableEq α] in
theorem forget_cases (h : forget lists i j = some ys) : j ≠ i ∧ lists j = some ys := by
  by_cases heq : j = i
  · subst heq
    rw [forget, Function.update_self] at h
    cases h
  · rw [forget, Function.update_of_ne heq] at h
    exact ⟨heq, h⟩

end Lookup

section Represented
variable {head : ι → α} {l l' : Links α} {lists : Sequences ι α} {i j : ι} {xs ys : List α} {x : α}

omit [DecidableEq α] in
/-- One list changes: its new nodes were its own or free, and only such nodes have new links. -/
theorem Represents.replace (h : Represents head l lists) (xs : List α) {touched : List α}
    (hsame : SameOutside touched l l') (hring : Ring l' (head i) ys)
    (hnodes : ∀ y ∈ ys, y ∈ xs ∧ lists i = some xs ∨ Free head lists y)
    (htouched : ∀ y ∈ touched, y = head i ∨ y ∈ xs ∧ lists i = some xs ∨ Free head lists y) :
    Represents head l' (setList lists i ys) := by
  have hforeign : ∀ {k zs y}, k ≠ i → lists k = some zs → y ∈ zs →
      ¬(y ∈ xs ∧ lists i = some xs ∨ Free head lists y) := by
    rintro k zs y hk hzs hy (⟨hxs, hxi⟩ | hfree)
    · exact hk (h.apart k i zs xs hzs hxi y hy hxs)
    · exact hfree.unlisted k zs hzs hy
  have hown : ∀ y ∈ ys, ∀ k, y ≠ head k := by
    intro y hy k
    rcases hnodes y hy with ⟨hxs, hxi⟩ | hfree
    · exact h.member i xs hxi y hxs k
    · exact hfree.nohead k
  constructor
  case heads => exact h.heads
  case ring =>
    intro k zs hk
    rcases setList_cases hk with ⟨rfl, rfl⟩ | ⟨hne, hk⟩
    · exact hring
    · refine (h.ring k zs hk).frame hsame fun y hy hin => ?_
      have hy' := htouched y hin
      rcases List.mem_cons.mp hy with rfl | hy
      · rcases hy' with heq | ⟨hxs, hxi⟩ | hfree
        · exact hne (h.heads heq)
        · exact h.member i xs hxi _ hxs k rfl
        · exact hfree.nohead k rfl
      · rcases hy' with heq | hy'
        · exact h.member k zs hk y hy i heq
        · exact hforeign hne hk hy hy'
  case member =>
    intro k zs hk
    rcases setList_cases hk with ⟨rfl, rfl⟩ | ⟨-, hk⟩
    · exact hown
    · exact h.member k zs hk
  case apart =>
    intro k m zs ws hk hm y hy hy'
    rcases setList_cases hk with ⟨hki, rfl⟩ | ⟨hki, hkz⟩ <;>
      rcases setList_cases hm with ⟨hmi, rfl⟩ | ⟨hmi, hmw⟩
    · exact hki.trans hmi.symm
    · exact absurd (hnodes y hy) (hforeign hmi hmw hy')
    · exact absurd (hnodes y hy') (hforeign hki hkz hy)
    · exact h.apart k m zs ws hkz hmw y hy hy'

omit [DecidableEq α] in
theorem Represents.forget (h : Represents head l lists) (i : ι) : Represents head l (forget lists i) where
  heads := h.heads
  ring k zs hk := h.ring k zs (forget_cases hk).2
  member k zs hk := h.member k zs (forget_cases hk).2
  apart k m zs ws hk hm := h.apart k m zs ws (forget_cases hk).2 (forget_cases hm).2

omit [DecidableEq α] in
/-- The nodes of a list that is forgotten are free. -/
theorem Represents.forget_free (h : Represents head l lists) (hi : lists i = some xs) (hx : x ∈ xs) :
    Free head (ListFamilies.forget lists i) x where
  nohead := h.member i xs hi x hx
  unlisted k zs hk hmem := (forget_cases hk).1 (h.apart k i zs xs (forget_cases hk).2 hi x hmem hx)

theorem Represents.erase_free (h : Represents head l lists) (hi : lists i = some xs) (hx : x ∈ xs) :
    Free head (setList lists i (xs.erase x)) x where
  nohead := h.member i xs hi x hx
  unlisted k zs hk hmem := by
    rcases setList_cases hk with ⟨rfl, rfl⟩ | ⟨hne, hk⟩
    · have hxs := (List.nodup_cons.mp (h.ring k xs hi).nodup).2
      exact ((List.Nodup.mem_erase_iff hxs).mp hmem).1 rfl
    · exact hne (h.apart k i zs xs hk hi x hmem hx)

omit [DecidableEq α] [DecidableEq ι] in
/-- The links of a free node are nobody's. -/
theorem Represents.touchFree (h : Represents head l lists) (hsame : SameOutside [x] l l')
    (hx : Free head lists x) : Represents head l' lists where
  heads := h.heads
  member := h.member
  apart := h.apart
  ring k zs hk := by
    refine (h.ring k zs hk).frame hsame fun y hy hin => ?_
    rw [List.mem_singleton.mp hin] at hy
    rcases List.mem_cons.mp hy with heq | hy
    · exact hx.nohead k heq
    · exact hx.unlisted k zs hk hy

theorem Represents.init (h : Represents head l lists) (i : ι) :
    Represents head (listHeadInit (head i) l) (setList lists i []) := by
  refine h.replace [] (listHeadInit_outside (head i) l) (ring_init (head i) l) ?_ ?_
  · exact fun y hy => absurd hy List.not_mem_nil
  · exact fun y hy => Or.inl (List.mem_singleton.mp hy)

theorem Represents.add (h : Represents head l lists) (hi : lists i = some xs) (hx : Free head lists x) :
    ∃ n, l.next (head i) = some n ∧ (n = head i ∨ n ∈ xs) ∧
      Represents head (insertBetween x (head i) n l) (setList lists i (x :: xs)) := by
  have hring := h.ring i xs hi
  obtain ⟨-, -, n, hn, -, hlink⟩ := hring.neighbours (List.mem_cons_self ..)
  have hnew : x ∉ head i :: xs := List.not_mem_cons_of_ne_of_not_mem (hx.nohead i) (hx.unlisted i xs hi)
  refine ⟨n, hlink.1, List.mem_cons.mp hn, ?_⟩
  refine h.replace xs (insertBetween_outside x (head i) n l) (hring.insertFirst hnew hlink.1) ?_ ?_
  · intro y hy
    rcases List.mem_cons.mp hy with rfl | hy
    · exact Or.inr hx
    · exact Or.inl ⟨hy, hi⟩
  · intro y hy
    simp only [List.mem_cons, List.not_mem_nil, or_false] at hy
    rcases hy with rfl | rfl | rfl
    · exact Or.inr (Or.inr hx)
    · exact Or.inl rfl
    · exact (List.mem_cons.mp hn).imp_right fun hmem => Or.inl ⟨hmem, hi⟩

theorem Represents.addTail (h : Represents head l lists) (hi : lists i = some xs) (hx : Free head lists x) :
    ∃ p, l.prev (head i) = some p ∧ (p = head i ∨ p ∈ xs) ∧
      Represents head (insertBetween x p (head i) l) (setList lists i (xs ++ [x])) := by
  have hring := h.ring i xs hi
  obtain ⟨p, hp, -, -, hlink, -⟩ := hring.neighbours (List.mem_cons_self ..)
  have hnew : x ∉ head i :: xs := List.not_mem_cons_of_ne_of_not_mem (hx.nohead i) (hx.unlisted i xs hi)
  refine ⟨p, hlink.2, List.mem_cons.mp hp, ?_⟩
  refine h.replace xs (insertBetween_outside x p (head i) l) (hring.insertLast hnew hlink.2) ?_ ?_
  · intro y hy
    rcases List.mem_append.mp hy with hy | hy
    · exact Or.inl ⟨hy, hi⟩
    · exact Or.inr (List.mem_singleton.mp hy ▸ hx)
  · intro y hy
    simp only [List.mem_cons, List.not_mem_nil, or_false] at hy
    rcases hy with rfl | rfl | rfl
    · exact Or.inr (Or.inr hx)
    · exact (List.mem_cons.mp hp).imp_right fun hmem => Or.inl ⟨hmem, hi⟩
    · exact Or.inl rfl

theorem Represents.unlink (h : Represents head l lists) (hi : lists i = some xs) (hx : x ∈ xs) :
    ∃ p n, l.prev x = some p ∧ l.next x = some n ∧ (p = head i ∨ p ∈ xs) ∧ (n = head i ∨ n ∈ xs) ∧
      Represents head (unlink p n l) (setList lists i (xs.erase x)) := by
  have hring := h.ring i xs hi
  obtain ⟨p, hp, n, hn, hplink, hnlink⟩ := hring.neighbours (List.mem_cons_of_mem _ hx)
  refine ⟨p, n, hplink.2, hnlink.1, List.mem_cons.mp hp, List.mem_cons.mp hn, ?_⟩
  refine h.replace xs (unlink_outside p n l) (hring.unlink hx hplink.2 hnlink.1) ?_ ?_
  · exact fun y hy => Or.inl ⟨List.mem_of_mem_erase hy, hi⟩
  · intro y hy
    simp only [List.mem_cons, List.not_mem_nil, or_false] at hy
    rcases hy with rfl | rfl
    · exact (List.mem_cons.mp hp).imp_right fun hmem => Or.inl ⟨hmem, hi⟩
    · exact (List.mem_cons.mp hn).imp_right fun hmem => Or.inl ⟨hmem, hi⟩

theorem Represents.splice (h : Represents head l lists) (hi : lists i = some xs) (hj : lists j = some ys)
    (hne : xs ≠ []) (hij : i ≠ j) : ∃ first last next, l.next (head i) = some first ∧
      l.prev (head i) = some last ∧ l.next (head j) = some next ∧ first ∈ xs ∧ last ∈ xs ∧
      (next = head j ∨ next ∈ ys) ∧
      Represents head (splice first last (head j) next l) (setList (ListFamilies.forget lists i) j (xs ++ ys)) := by
  have hfrom := h.ring i xs hi
  have hto := h.ring j ys hj
  obtain ⟨last, hlast, first, hfirst, hlastLink, hfirstLink⟩ := hfrom.neighbours (List.mem_cons_self ..)
  obtain ⟨-, -, next, hnext, -, hnextLink⟩ := hto.neighbours (List.mem_cons_self ..)
  have hinside : first ∈ xs ∧ last ∈ xs := by
    obtain ⟨x, xs, rfl⟩ := List.exists_cons_of_ne_nil hne
    have hx : first = x := Option.some.inj (hfirstLink.1.symm.trans hfrom.segment.1.1)
    refine ⟨hx ▸ List.mem_cons_self .., (List.mem_cons.mp hlast).resolve_left ?_⟩
    rintro rfl
    have hself : x = head i := Option.some.inj (hfrom.segment.1.1.symm.trans hlastLink.1)
    exact (List.nodup_cons.mp hfrom.nodup).1 (hself ▸ List.mem_cons_self ..)
  have hapart : ∀ y ∈ head i :: xs, y ∉ head j :: ys := by
    intro y hy hy'
    rcases List.mem_cons.mp hy with rfl | hy <;> rcases List.mem_cons.mp hy' with heq | hy'
    · exact hij (h.heads heq)
    · exact h.member j ys hj _ hy' i rfl
    · exact h.member i xs hi y hy j heq
    · exact hij (h.apart i j xs ys hi hj y hy hy')
  have hkept : ListFamilies.forget lists i j = some ys := by
    rw [ListFamilies.forget, Function.update_of_ne hij.symm, hj]
  refine ⟨first, last, next, hfirstLink.1, hlastLink.2, hnextLink.1, hinside.1, hinside.2, List.mem_cons.mp hnext, ?_⟩
  refine (h.forget i).replace ys (splice_outside first last (head j) next l)
    (hfrom.splice hto hne hapart hfirstLink.1 hlastLink.2 hnextLink.1) ?_ ?_
  · intro y hy
    rcases List.mem_append.mp hy with hy | hy
    · exact Or.inr (h.forget_free hi hy)
    · exact Or.inl ⟨hy, hkept⟩
  · intro y hy
    simp only [List.mem_cons, List.not_mem_nil, or_false] at hy
    rcases hy with rfl | rfl | rfl | rfl
    · exact Or.inr (Or.inr (h.forget_free hi hinside.1))
    · exact Or.inr (Or.inr (h.forget_free hi hinside.2))
    · exact Or.inl rfl
    · exact (List.mem_cons.mp hnext).imp_right fun hmem => Or.inl ⟨hmem, hkept⟩

end Represented

end Sequences

end Ktux.ListFamilies
