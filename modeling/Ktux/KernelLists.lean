import Ktux.ByteMemory
import Ktux.ListFamilies

set_option autoImplicit false

/-!
# The list functions of `list.h`

A `struct list_head` is two pointers in memory, `next` at its address and `prev` four bytes on. The calls
work on the words of the nodes and of their neighbours.
-/
namespace Ktux.KernelLists
open Words Loops Runs CircularList ListFamilies ByteMemory

def next (m : ByteMem) (p : ℕ) : ℕ := readDword m p

def prev (m : ByteMem) (p : ℕ) : ℕ := readDword m (p + 4)

def setNext (p q : ℕ) (m : ByteMem) : ByteMem := storeDword p q m

def setPrev (p q : ℕ) (m : ByteMem) : ByteMem := storeDword (p + 4) q m

def initListHead (ptr : ℕ) (m : ByteMem) : ByteMem := setPrev ptr ptr (setNext ptr ptr m)

/-- `__list_add`. -/
def rawListAdd (new prev next : ℕ) (m : ByteMem) : ByteMem :=
  setNext prev new (setPrev new prev (setNext new next (setPrev next new m)))

def listAdd (new head : ℕ) (m : ByteMem) : ByteMem := rawListAdd new head (next m head) m

def listAddTail (new head : ℕ) (m : ByteMem) : ByteMem := rawListAdd new (prev m head) head m

/-- `__list_del`. -/
def rawListDel (prev next : ℕ) (m : ByteMem) : ByteMem := setNext prev next (setPrev next prev m)

def listDel (entry : ℕ) (m : ByteMem) : ByteMem :=
  setPrev entry 0 (setNext entry 0 (rawListDel (prev m entry) (next m entry) m))

def listDelInit (entry : ℕ) (m : ByteMem) : ByteMem :=
  initListHead entry (rawListDel (prev m entry) (next m entry) m)

def listMove (list head : ℕ) (m : ByteMem) : ByteMem :=
  listAdd list head (rawListDel (prev m list) (next m list) m)

def listMoveTail (list head : ℕ) (m : ByteMem) : ByteMem :=
  listAddTail list head (rawListDel (prev m list) (next m list) m)

def listEmpty (head : ℕ) (m : ByteMem) : Bool := decide (next m head = head)

/-- `__list_splice`. -/
def rawListSplice (list head : ℕ) (m : ByteMem) : ByteMem :=
  let first := next m list
  let last := prev m list
  let at' := next m head
  setPrev at' last (setNext last at' (setNext head first (setPrev first head m)))

def listSplice (list head : ℕ) (m : ByteMem) : ByteMem :=
  if listEmpty list m then m else rawListSplice list head m

def listSpliceInit (list head : ℕ) (m : ByteMem) : ByteMem :=
  if listEmpty list m then m else initListHead list (rawListSplice list head m)

/-- The nodes that a loop `list_for_each` visits when its body leaves the list alone. -/
def listForEach (head fuel : ℕ) (m : ByteMem) : Option (Walk ℕ) := walk (fun p => some (next m p)) head fuel

def listForEachPrev (head fuel : ℕ) (m : ByteMem) : Option (Walk ℕ) := walk (fun p => some (prev m p)) head fuel

structure SafeLoop where
  pos : ℕ
  n : ℕ
  mem : ByteMem
  visited : List ℕ

/-- `list_for_each_safe` with a body that deletes the nodes that `drop` picks. -/
def dropPass (drop : ℕ → Bool) (s : SafeLoop) : SafeLoop :=
  let mem := if drop s.pos then listDel s.pos s.mem else s.mem
  { pos := s.n
    n := next mem s.n
    mem := mem
    visited := s.visited ++ [s.pos] }

def looping (head : ℕ) (s : SafeLoop) : Bool := decide (s.pos ≠ head)

def dropLoop (drop : ℕ → Bool) (head fuel : ℕ) (s : SafeLoop) : Option SafeLoop :=
  whileLoop (looping head) (fun s => some (dropPass drop s)) fuel s

def dropAll (drop : ℕ → Bool) (head fuel : ℕ) (m : ByteMem) : Option SafeLoop :=
  dropLoop drop head fuel ⟨next m head, next m (next m head), m, []⟩

def call {ι : Type*} (head : ι → ℕ) : Call ι ℕ → ByteMem → ByteMem
  | .init i => initListHead (head i)
  | .add x i => listAdd x (head i)
  | .addTail x i => listAddTail x (head i)
  | .del x => listDel x
  | .delInit x => listDelInit x
  | .move x i => listMove x (head i)
  | .moveTail x i => listMoveTail x (head i)
  | .splice i j => listSplice (head i) (head j)
  | .spliceInit i j => listSpliceInit (head i) (head j)

/-- The nodes are words of memory of their own, none at the null address. -/
structure Nodes (nodes : Set ℕ) : Prop where
  nonnull : 0 ∉ nodes
  bound : ∀ p ∈ nodes, p + 8 ≤ wordSize
  separate : ∀ p ∈ nodes, ∀ q ∈ nodes, p ≠ q → p + 8 ≤ q ∨ q + 8 ≤ p

def Outside (nodes : Set ℕ) (a : ℕ) : Prop := ∀ p ∈ nodes, a < p ∨ p + 8 ≤ a

/-- The words of the nodes are the links `l`; the other bytes are those of `m₀`. -/
structure Shows (nodes : Set ℕ) (m₀ m : ByteMem) (l : Links ℕ) : Prop where
  next : ∀ p ∈ nodes, l.next p = some (next m p)
  prev : ∀ p ∈ nodes, l.prev p = some (prev m p)
  rest : ∀ a, Outside nodes a → m a = m₀ a

section Stores
variable {nodes : Set ℕ} {m₀ m : ByteMem} {l : Links ℕ} {p q : ℕ}

theorem Nodes.lt (h : Nodes nodes) (hq : q ∈ nodes) : q < 2 ^ 32 := by
  have hbound : q + 8 ≤ 2 ^ 32 := h.bound q hq
  omega

theorem Nodes.apart (h : Nodes nodes) (hp : p ∈ nodes) (hq : q ∈ nodes) :
    p = q ∨ p ≠ q ∧ (p + 8 ≤ q ∨ q + 8 ≤ p) := by
  by_cases heq : p = q
  · exact Or.inl heq
  · exact Or.inr ⟨heq, h.separate p hp q hq heq⟩

/-- A store to the `next` of a node changes that link only. -/
theorem Shows.setNext (h : Shows nodes m₀ m l) (hnodes : Nodes nodes) (hp : p ∈ nodes) (hq : q < 2 ^ 32) :
    Shows nodes m₀ (setNext p q m) (l.setNext p (some q)) := by
  refine ⟨fun x hx => ?_, fun x hx => ?_, fun a ha => ?_⟩
  · rw [KernelLists.next, KernelLists.setNext]
    rcases hnodes.apart hx hp with rfl | ⟨hne, hsep⟩
    · rw [readDword_storeDword hq]
      exact Function.update_self ..
    · rw [readDword_storeDword_other (by omega)]
      exact (Function.update_of_ne hne ..).trans (h.next x hx)
  · have hsep := hnodes.apart hx hp
    rw [KernelLists.prev, KernelLists.setNext, readDword_storeDword_other (by omega)]
    exact h.prev x hx
  · have hout := ha p hp
    exact (blit_outside (by omega)).trans (h.rest a ha)

theorem Shows.setPrev (h : Shows nodes m₀ m l) (hnodes : Nodes nodes) (hp : p ∈ nodes) (hq : q < 2 ^ 32) :
    Shows nodes m₀ (setPrev p q m) (l.setPrev p (some q)) := by
  refine ⟨fun x hx => ?_, fun x hx => ?_, fun a ha => ?_⟩
  · have hsep := hnodes.apart hx hp
    rw [KernelLists.next, KernelLists.setPrev, readDword_storeDword_other (by omega)]
    exact h.next x hx
  · rw [KernelLists.prev, KernelLists.setPrev]
    rcases hnodes.apart hx hp with rfl | ⟨hne, hsep⟩
    · rw [readDword_storeDword hq]
      exact Function.update_self ..
    · rw [readDword_storeDword_other (by omega)]
      exact (Function.update_of_ne hne ..).trans (h.prev x hx)
  · have hout := ha p hp
    exact (blit_outside (by omega)).trans (h.rest a ha)

theorem Shows.next_eq (h : Shows nodes m₀ m l) (hp : p ∈ nodes) (hq : l.next p = some q) :
    KernelLists.next m p = q := Option.some.inj ((h.next p hp).symm.trans hq)

theorem Shows.prev_eq (h : Shows nodes m₀ m l) (hp : p ∈ nodes) (hq : l.prev p = some q) :
    KernelLists.prev m p = q := Option.some.inj ((h.prev p hp).symm.trans hq)

section Calls
variable {new prev next first last head : ℕ}

theorem Shows.rawListAdd (h : Shows nodes m₀ m l) (hnodes : Nodes nodes) (hnew : new ∈ nodes)
    (hprev : prev ∈ nodes) (hnext : next ∈ nodes) :
    Shows nodes m₀ (rawListAdd new prev next m) (insertBetween new prev next l) :=
  (((h.setPrev hnodes hnext (hnodes.lt hnew)).setNext hnodes hnew (hnodes.lt hnext)).setPrev hnodes hnew
    (hnodes.lt hprev)).setNext hnodes hprev (hnodes.lt hnew)

theorem Shows.rawListDel (h : Shows nodes m₀ m l) (hnodes : Nodes nodes) (hprev : prev ∈ nodes)
    (hnext : next ∈ nodes) : Shows nodes m₀ (rawListDel prev next m) (unlink prev next l) :=
  (h.setPrev hnodes hnext (hnodes.lt hprev)).setNext hnodes hprev (hnodes.lt hnext)

theorem Shows.initListHead (h : Shows nodes m₀ m l) (hnodes : Nodes nodes) (hhead : head ∈ nodes) :
    Shows nodes m₀ (initListHead head m) (listHeadInit head l) :=
  (h.setNext hnodes hhead (hnodes.lt hhead)).setPrev hnodes hhead (hnodes.lt hhead)

theorem Shows.rawListSplice (h : Shows nodes m₀ m l) (hnodes : Nodes nodes) {list : ℕ} (hlist : list ∈ nodes)
    (hhead : head ∈ nodes) (hfirst : l.next list = some first) (hlast : l.prev list = some last)
    (hnext : l.next head = some next) (hfirst' : first ∈ nodes) (hlast' : last ∈ nodes) (hnext' : next ∈ nodes) :
    Shows nodes m₀ (rawListSplice list head m) (splice first last head next l) := by
  rw [KernelLists.rawListSplice, h.next_eq hlist hfirst, h.prev_eq hlist hlast, h.next_eq hhead hnext]
  exact (((h.setPrev hnodes hfirst' (hnodes.lt hhead)).setNext hnodes hhead (hnodes.lt hfirst')).setNext hnodes
    hlast' (hnodes.lt hnext')).setPrev hnodes hnext' (hnodes.lt hlast')

end Calls

end Stores

/-- The memory holds the sequences: its links represent them, and outside the nodes it is still `m₀`. -/
structure Holds {ι : Type*} (head : ι → ℕ) (nodes : Set ℕ) (m₀ : ByteMem) (lists : Sequences ι ℕ)
    (m : ByteMem) : Prop where
  heads : ∀ i, head i ∈ nodes
  listed : ∀ i xs, lists i = some xs → ∀ x ∈ xs, x ∈ nodes
  links : ∃ l, Shows nodes m₀ m l ∧ Represents head l lists

/-- A call on the memory, as it is for the sequences. -/
structure MemoryStep {ι : Type*} [DecidableEq ι] (head : ι → ℕ) (nodes : Set ℕ) (s : Sequences ι ℕ × ByteMem)
    (c : Call ι ℕ) (u : Sequences ι ℕ × ByteMem) : Prop where
  sequences : CallStep head s.1 c u.1
  inside : ∀ x ∈ c.nodes, x ∈ nodes
  memory : u.2 = call head c s.2

section Calls
variable {ι : Type*} [DecidableEq ι] {head : ι → ℕ} {nodes : Set ℕ} {lists lists' : Sequences ι ℕ}
  {m₀ m : ByteMem} {i j : ι} {xs ys : List ℕ} {x : ℕ}

omit [DecidableEq ι] in
theorem Holds.mem (h : Holds head nodes m₀ lists m) (hi : lists i = some xs) (hx : x = head i ∨ x ∈ xs) :
    x ∈ nodes := by
  rcases hx with rfl | hx
  · exact h.heads i
  · exact h.listed i xs hi x hx

theorem listed_set (h : ∀ i xs, lists i = some xs → ∀ x ∈ xs, x ∈ nodes) (hys : ∀ y ∈ ys, y ∈ nodes) :
    ∀ i' xs, setList lists i ys i' = some xs → ∀ x ∈ xs, x ∈ nodes := by
  intro k zs hk
  rcases setList_cases hk with ⟨-, rfl⟩ | ⟨-, hk⟩
  · exact hys
  · exact h k zs hk

theorem Holds.init (h : Holds head nodes m₀ lists m) (hnodes : Nodes nodes) (i : ι) :
    Holds head nodes m₀ (setList lists i []) (initListHead (head i) m) := by
  obtain ⟨l, hshows, hrep⟩ := h.links
  exact ⟨h.heads, listed_set h.listed fun y hy => absurd hy List.not_mem_nil,
    _, hshows.initListHead hnodes (h.heads i), hrep.init i⟩

theorem Holds.add (h : Holds head nodes m₀ lists m) (hnodes : Nodes nodes) (hi : lists i = some xs)
    (hfree : Free head lists x) (hx : x ∈ nodes) :
    Holds head nodes m₀ (setList lists i (x :: xs)) (listAdd x (head i) m) := by
  obtain ⟨l, hshows, hrep⟩ := h.links
  obtain ⟨n, hnext, hn, hadd⟩ := hrep.add hi hfree
  rw [listAdd, hshows.next_eq (h.heads i) hnext]
  refine ⟨h.heads, listed_set h.listed fun y hy => ?_, _, ?_, hadd⟩
  · rcases List.mem_cons.mp hy with rfl | hy
    · exact hx
    · exact h.listed i xs hi y hy
  · exact hshows.rawListAdd hnodes hx (h.heads i) (h.mem hi hn)

theorem Holds.addTail (h : Holds head nodes m₀ lists m) (hnodes : Nodes nodes) (hi : lists i = some xs)
    (hfree : Free head lists x) (hx : x ∈ nodes) :
    Holds head nodes m₀ (setList lists i (xs ++ [x])) (listAddTail x (head i) m) := by
  obtain ⟨l, hshows, hrep⟩ := h.links
  obtain ⟨p, hprev, hp, hadd⟩ := hrep.addTail hi hfree
  rw [listAddTail, hshows.prev_eq (h.heads i) hprev]
  refine ⟨h.heads, listed_set h.listed fun y hy => ?_, _, ?_, hadd⟩
  · rcases List.mem_append.mp hy with hy | hy
    · exact h.listed i xs hi y hy
    · exact List.mem_singleton.mp hy ▸ hx
  · exact hshows.rawListAdd hnodes hx (h.mem hi hp) (h.heads i)

/-- After `__list_del` the node is in no list. -/
theorem Holds.unlink (h : Holds head nodes m₀ lists m) (hnodes : Nodes nodes) (hi : lists i = some xs)
    (hx : x ∈ xs) : Free head (setList lists i (xs.erase x)) x ∧
      Holds head nodes m₀ (setList lists i (xs.erase x)) (rawListDel (prev m x) (next m x) m) := by
  obtain ⟨l, hshows, hrep⟩ := h.links
  obtain ⟨p, n, hprev, hnext, hp, hn, hdel⟩ := hrep.unlink hi hx
  have hmem := h.listed i xs hi x hx
  rw [hshows.prev_eq hmem hprev, hshows.next_eq hmem hnext]
  refine ⟨hrep.erase_free hi hx, h.heads, listed_set h.listed fun y hy => ?_, _, ?_, hdel⟩
  · exact h.listed i xs hi y (List.mem_of_mem_erase hy)
  · exact hshows.rawListDel hnodes (h.mem hi hp) (h.mem hi hn)

omit [DecidableEq ι] in
theorem Holds.clear (h : Holds head nodes m₀ lists m) (hnodes : Nodes nodes) (hfree : Free head lists x)
    (hx : x ∈ nodes) : Holds head nodes m₀ lists (setPrev x 0 (setNext x 0 m)) := by
  obtain ⟨l, hshows, hrep⟩ := h.links
  refine ⟨h.heads, h.listed, _, (hshows.setNext hnodes hx (by decide)).setPrev hnodes hx (by decide), ?_⟩
  refine hrep.touchFree (fun y hy => ?_) hfree
  rw [List.mem_singleton] at hy
  exact ⟨Function.update_of_ne hy .., Function.update_of_ne hy ..⟩

omit [DecidableEq ι] in
theorem Holds.initNode (h : Holds head nodes m₀ lists m) (hnodes : Nodes nodes) (hfree : Free head lists x)
    (hx : x ∈ nodes) : Holds head nodes m₀ lists (initListHead x m) := by
  obtain ⟨l, hshows, hrep⟩ := h.links
  exact ⟨h.heads, h.listed, _, hshows.initListHead hnodes hx, hrep.touchFree (listHeadInit_outside x l) hfree⟩

theorem Holds.splice (h : Holds head nodes m₀ lists m) (hnodes : Nodes nodes) (hi : lists i = some xs)
    (hj : lists j = some ys) (hne : xs ≠ []) (hij : i ≠ j) :
    Holds head nodes m₀ (setList (forget lists i) j (xs ++ ys)) (rawListSplice (head i) (head j) m) := by
  obtain ⟨l, hshows, hrep⟩ := h.links
  obtain ⟨first, last, n, hfirst, hlast, hnext, hfirst', hlast', hn, hsplice⟩ := hrep.splice hi hj hne hij
  refine ⟨h.heads, listed_set (fun k zs hk => h.listed k zs (forget_cases hk).2) fun y hy => ?_, _, ?_, hsplice⟩
  · rcases List.mem_append.mp hy with hy | hy
    · exact h.listed i xs hi y hy
    · exact h.listed j ys hj y hy
  · exact hshows.rawListSplice hnodes (h.heads i) (h.heads j) hfirst hlast hnext (h.listed i xs hi _ hfirst')
      (h.listed i xs hi _ hlast') (h.mem hj hn)

omit [DecidableEq ι] in
theorem Holds.empty (h : Holds head nodes m₀ lists m) (hi : lists i = some xs) :
    listEmpty (head i) m = true ↔ xs = [] := by
  obtain ⟨l, hshows, hrep⟩ := h.links
  have hring := hrep.ring i xs hi
  rw [listEmpty, decide_eq_true_iff]
  cases xs with
  | nil => exact iff_of_true (hshows.next_eq (h.heads i) hring.segment.1) rfl
  | cons y ys =>
    have hnext := hshows.next_eq (h.heads i) hring.segment.1.1
    refine iff_of_false (fun heq => ?_) (List.cons_ne_nil y ys)
    exact (List.nodup_cons.mp hring.nodup).1 (heq.symm.trans hnext ▸ List.mem_cons_self ..)

theorem setList_same (hi : lists i = some xs) (hj : lists j = some ys) :
    setList (setList (forget lists i) j ys) i xs = lists := by
  funext k
  by_cases hki : k = i
  · rw [hki, setList, Function.update_self, hi]
  · rw [setList, Function.update_of_ne hki, setList]
    by_cases hkj : k = j
    · rw [hkj, Function.update_self, hj]
    · rw [Function.update_of_ne hkj, forget, Function.update_of_ne hki]

theorem Holds.step (h : Holds head nodes m₀ lists m) (hnodes : Nodes nodes) {c : Call ι ℕ}
    (hstep : CallStep head lists c lists') (hinside : ∀ x ∈ c.nodes, x ∈ nodes) :
    Holds head nodes m₀ lists' (call head c m) := by
  have hnode : ∀ {x}, c.nodes = [x] → x ∈ nodes := fun heq => hinside _ (heq ▸ List.mem_singleton_self _)
  cases hstep with
  | init i => exact h.init hnodes i
  | add hi hx => exact h.add hnodes hi hx (hnode rfl)
  | addTail hi hx => exact h.addTail hnodes hi hx (hnode rfl)
  | del hi hx =>
    obtain ⟨hfree, hdel⟩ := h.unlink hnodes hi hx
    exact hdel.clear hnodes hfree (hnode rfl)
  | delInit hi hx =>
    obtain ⟨hfree, hdel⟩ := h.unlink hnodes hi hx
    exact hdel.initNode hnodes hfree (hnode rfl)
  | move hi hx hj =>
    obtain ⟨hfree, hdel⟩ := h.unlink hnodes hi hx
    exact hdel.add hnodes hj hfree (hnode rfl)
  | moveTail hi hx hj =>
    obtain ⟨hfree, hdel⟩ := h.unlink hnodes hi hx
    exact hdel.addTail hnodes hj hfree (hnode rfl)
  | @spliceEmpty i j hi =>
    have hempty : call head (.splice i j) m = m := if_pos ((h.empty hi).mpr rfl)
    rw [hempty]
    exact h
  | @splice xs ys i j hi hj hne hij =>
    have hfull : call head (.splice i j) m = rawListSplice (head i) (head j) m :=
      if_neg fun hempty => hne ((h.empty hi).mp hempty)
    rw [hfull]
    exact h.splice hnodes hi hj hne hij
  | @spliceInit xs ys i j hi hj hij =>
    by_cases hne : xs = []
    · subst hne
      have hempty : call head (.spliceInit i j) m = m := if_pos ((h.empty hi).mpr rfl)
      rw [hempty, List.nil_append, setList_same hi hj]
      exact h
    · have hfull : call head (.spliceInit i j) m = initListHead (head i) (rawListSplice (head i) (head j) m) :=
        if_neg fun hempty => hne ((h.empty hi).mp hempty)
      rw [hfull]
      exact (h.splice hnodes hi hj hne hij).init hnodes i

def memoryLinks (m : ByteMem) : Links ℕ where
  next p := some (next m p)
  prev p := some (prev m p)

omit [DecidableEq ι] in
theorem Holds.ring (h : Holds head nodes m₀ lists m) (hi : lists i = some xs) :
    Ring (memoryLinks m) (head i) xs := by
  obtain ⟨l, hshows, hrep⟩ := h.links
  have hring := hrep.ring i xs hi
  refine ⟨hring.nodup, hring.segment.congr (fun x hx => ?_) fun x hx => ?_⟩
  · exact (hshows.next x (h.mem hi (List.mem_cons.mp hx))).symm
  · rw [List.mem_append, List.mem_singleton, or_comm] at hx
    exact (hshows.prev x (h.mem hi hx)).symm

/-- What the loops and `list_empty` find of a list. -/
structure Reads (head : ℕ) (m : ByteMem) (xs : List ℕ) : Prop where
  forward : ∀ rest, listForEach head (xs.length + 1 + rest) m = some ⟨head, xs⟩
  backward : ∀ rest, listForEachPrev head (xs.length + 1 + rest) m = some ⟨head, xs.reverse⟩
  empty : listEmpty head m = true ↔ xs = []

omit [DecidableEq ι] in
theorem Holds.reads (h : Holds head nodes m₀ lists m) (hi : lists i = some xs) : Reads (head i) m xs :=
  ⟨(h.ring hi).walk, (h.ring hi).walk_prev, h.empty hi⟩

omit [DecidableEq ι] in
theorem Holds.outside (h : Holds head nodes m₀ lists m) {a : ℕ} (ha : Outside nodes a) : m a = m₀ a := by
  obtain ⟨l, hshows, -⟩ := h.links
  exact hshows.rest a ha

theorem segment_next {l : Links ℕ} {a b : ℕ} (h : Segment l a xs b) : l.next a = some (xs.headD b) := by
  cases xs with
  | nil => exact h.1
  | cons x xs => exact h.1.1

/-- Deleting the node that the loop is at leaves the rest of its walk as it was. -/
theorem Holds.dropLoop (hnodes : Nodes nodes) (drop : ℕ → Bool) (rest : ℕ) (kept done : List ℕ)
    (h : Holds head nodes m₀ (setList lists i (kept ++ ys)) m) :
    ∃ s, dropLoop drop (head i) (ys.length + 1 + rest)
        ⟨ys.headD (head i), next m (ys.headD (head i)), m, done⟩ = some s ∧
      s.visited = done ++ ys ∧
      Holds head nodes m₀ (setList lists i (kept ++ ys.filter fun x => !drop x)) s.mem := by
  induction ys generalizing kept done m with
  | nil =>
    refine ⟨⟨head i, next m (head i), m, done⟩, ?_, (List.append_nil done).symm, h⟩
    rw [List.length_nil, show 0 + 1 + rest = rest + 1 by omega]
    exact whileLoop_stop (by simp [looping]) rest
  | cons x ys ih =>
    have hself : setList lists i (kept ++ x :: ys) i = some (kept ++ x :: ys) := Function.update_self ..
    have hring := h.ring hself
    have hnodup := List.nodup_cons.mp hring.nodup
    have hmem : x ∈ kept ++ x :: ys := List.mem_append_right _ (List.mem_cons_self ..)
    have hne : x ≠ head i := fun heq => hnodup.1 (heq ▸ hmem)
    have hnext : next m x = ys.headD (head i) := Option.some.inj (segment_next hring.segment.split.2)
    have hset : ∀ zs, setList (setList lists i (kept ++ x :: ys)) i zs = setList lists i zs := fun zs =>
      Function.update_idem ..
    have hpass : ∀ m', (if drop x then KernelLists.listDel x m else m) = m' →
        dropPass drop ⟨x, next m x, m, done⟩ =
          ⟨ys.headD (head i), next m' (ys.headD (head i)), m', done ++ [x]⟩ := by
      rintro m' rfl
      rw [← hnext]
      rfl
    have hmore : looping (head i) ⟨x, next m x, m, done⟩ = true := decide_eq_true hne
    rw [List.headD_cons, List.length_cons, show ys.length + 1 + 1 + rest = (ys.length + 1 + rest) + 1 by omega,
      KernelLists.dropLoop]
    by_cases hdrop : drop x = true
    · have hafter : Holds head nodes m₀ (setList lists i (kept ++ ys)) (KernelLists.listDel x m) := by
        obtain ⟨hfree, hdel⟩ := h.unlink hnodes hself hmem
        have hclear := hdel.clear hnodes hfree (h.listed i _ hself x hmem)
        have hkept : x ∉ kept := fun hin => List.disjoint_of_nodup_append hnodup.2 hin (List.mem_cons_self ..)
        rw [List.erase_append_right _ hkept, List.erase_cons_head, hset] at hclear
        exact hclear
      obtain ⟨s, hs, hvisited, hholds⟩ := ih kept (done ++ [x]) hafter
      refine ⟨s, ?_, ?_, ?_⟩
      · rw [whileLoop_next hmore (hpass _ (if_pos hdrop))]
        exact hs
      · rw [hvisited, List.append_assoc, List.singleton_append]
      · rw [List.filter_cons_of_neg (by simp [hdrop])]
        exact hholds
    · have hafter : Holds head nodes m₀ (setList lists i (kept ++ [x] ++ ys)) m := by
        rw [List.append_assoc, List.singleton_append]
        exact h
      obtain ⟨s, hs, hvisited, hholds⟩ := ih (kept ++ [x]) (done ++ [x]) hafter
      refine ⟨s, ?_, ?_, ?_⟩
      · rw [whileLoop_next hmore (hpass _ (if_neg hdrop))]
        exact hs
      · rw [hvisited, List.append_assoc, List.singleton_append]
      · rw [List.filter_cons_of_pos (by simp [hdrop])]
        rw [List.append_assoc, List.singleton_append] at hholds
        exact hholds

end Calls

section Runs
variable {ι : Type*} [DecidableEq ι] {head : ι → ℕ} {nodes : Set ℕ} {lists : Sequences ι ℕ} {m m' : ByteMem}
  {calls : List (Call ι ℕ)}

omit [DecidableEq ι] in
/-- Memory before any list is initialised. -/
theorem holds_start (hheads : Function.Injective head) (hin : ∀ i, head i ∈ nodes) (m : ByteMem) :
    Holds head nodes m (fun _ => none) m := by
  have hnone {p : Prop} {xs : List ℕ} (h : none = some xs) : p := by cases h
  exact ⟨hin, fun _ _ h => hnone h, memoryLinks m, ⟨fun _ _ => rfl, fun _ _ => rfl, fun _ _ => rfl⟩, hheads,
    fun _ _ h => hnone h, fun _ _ h => hnone h, fun _ _ _ _ h => hnone h⟩

theorem holds_run (hnodes : Nodes nodes) (hheads : Function.Injective head) (hin : ∀ i, head i ∈ nodes)
    (hrun : Run (MemoryStep head nodes) (fun _ => none, m) calls (lists, m')) :
    Holds head nodes m lists m' := by
  refine hrun.invariant (fun s => Holds head nodes m s.1 s.2) (holds_start hheads hin m) ?_
  intro s c u hs hstep
  rw [hstep.memory]
  exact hs.step hnodes hstep.sequences hstep.inside

/-- After any run of calls every list holds its sequence, whichever way it is read, and the calls have
written to the nodes only. -/
theorem listCalls_refine (hnodes : Nodes nodes) (hheads : Function.Injective head) (hin : ∀ i, head i ∈ nodes)
    (hrun : Run (MemoryStep head nodes) (fun _ => none, m) calls (lists, m')) :
    (∀ i xs, lists i = some xs → Reads (head i) m' xs) ∧ ∀ a, Outside nodes a → m' a = m a := by
  have hholds := holds_run hnodes hheads hin hrun
  exact ⟨fun i xs hi => hholds.reads hi, fun a ha => hholds.outside ha⟩

def twoHeads (i : Bool) : ℕ := bif i then 0x1020 else 0x1000

def fiveNodes : Set ℕ := fun p => p ∈ [0x1000, 0x1020, 0x1040, 0x1060, 0x1080]

/-- Two nodes come to the first list and one to the second. -/
def pushes : List (Call Bool ℕ) :=
  [.init false, .init true, .add 0x1060 false, .addTail 0x1080 true, .add 0x1040 false]

def pushed : ByteMem := pushes.foldl (fun m c => call twoHeads c m) fun _ => 0

def pushedLists : Sequences Bool ℕ :=
  setList (setList (setList (setList (setList (fun _ => none) false []) true []) false [0x1060]) true [0x1080])
    false [0x1040, 0x1060]

theorem fiveNodes_nodes : Nodes fiveNodes where
  nonnull := show 0 ∉ [0x1000, 0x1020, 0x1040, 0x1060, 0x1080] by decide
  bound := by
    change ∀ p ∈ [0x1000, 0x1020, 0x1040, 0x1060, 0x1080], p + 8 ≤ wordSize
    decide
  separate := by
    change ∀ p ∈ [0x1000, 0x1020, 0x1040, 0x1060, 0x1080], ∀ q ∈ [0x1000, 0x1020, 0x1040, 0x1060, 0x1080],
      p ≠ q → p + 8 ≤ q ∨ q + 8 ≤ p
    decide

theorem twoHeads_injective : Function.Injective twoHeads := by
  intro i j h
  revert h
  revert i j
  decide

theorem twoHeads_mem : ∀ i, twoHeads i ∈ fiveNodes := by
  intro i
  cases i
  · exact List.mem_cons_self ..
  · exact List.mem_cons_of_mem _ (List.mem_cons_self ..)

theorem free_of_apart {lists : Sequences Bool ℕ} {x : ℕ} (hhead : ∀ i, x ≠ twoHeads i)
    (hlists : ∀ i, x ∉ (lists i).getD []) : Free twoHeads lists x := by
  refine ⟨hhead, fun i xs hxs hmem => hlists i ?_⟩
  rw [hxs]
  exact hmem

theorem pushed_run : Run (MemoryStep twoHeads fiveNodes) (fun _ => none, fun _ => 0) pushes
    (pushedLists, pushed) := by
  have hstep {lists lists' : Sequences Bool ℕ} {m : ByteMem} {c : Call Bool ℕ}
      (hcall : CallStep twoHeads lists c lists')
      (hnodes : ∀ x ∈ c.nodes, x ∈ [0x1000, 0x1020, 0x1040, 0x1060, 0x1080]) :
      MemoryStep twoHeads fiveNodes (lists, m) c (lists', call twoHeads c m) := ⟨hcall, hnodes, rfl⟩
  apply Run.next (hstep (.init false) (by decide))
  apply Run.next (hstep (.init true) (by decide))
  apply Run.next (hstep (.add (show _ = some [] by decide) (free_of_apart (by decide) (by decide))) (by decide))
  apply Run.next
    (hstep (.addTail (show _ = some [] by decide) (free_of_apart (by decide) (by decide))) (by decide))
  apply Run.single
  exact hstep (.add (show _ = some [0x1060] by decide) (free_of_apart (by decide) (by decide))) (by decide)

theorem listCalls_refine_pushed : Reads 0x1000 pushed [0x1040, 0x1060] ∧ Reads 0x1020 pushed [0x1080] := by
  obtain ⟨hreads, -⟩ := listCalls_refine fiveNodes_nodes twoHeads_injective twoHeads_mem pushed_run
  exact ⟨hreads false _ (by decide), hreads true _ (by decide)⟩

/-- `list_for_each_safe` meets every node of its list once while its body deletes some of them. The list
keeps the others in their order, and no other list changes. -/
theorem dropAll_filters (hnodes : Nodes nodes) (hheads : Function.Injective head) (hin : ∀ i, head i ∈ nodes)
    (hrun : Run (MemoryStep head nodes) (fun _ => none, m) calls (lists, m')) {i : ι} {xs : List ℕ}
    (hi : lists i = some xs) (drop : ℕ → Bool) (rest : ℕ) :
    ∃ s, dropAll drop (head i) (xs.length + 1 + rest) m' = some s ∧ s.visited = xs ∧
      Reads (head i) s.mem (xs.filter fun x => !drop x) ∧
      (∀ j ys, j ≠ i → lists j = some ys → Reads (head j) s.mem ys) ∧ ∀ a, Outside nodes a → s.mem a = m a := by
  have hholds := holds_run hnodes hheads hin hrun
  have hfirst : next m' (head i) = xs.headD (head i) := Option.some.inj (segment_next (hholds.ring hi).segment)
  have hsame : setList lists i ([] ++ xs) = lists := (Function.update_eq_self_iff ..).mpr hi.symm
  obtain ⟨s, hs, hvisited, hdropped⟩ := Holds.dropLoop hnodes drop rest [] [] (hsame.symm ▸ hholds)
  refine ⟨s, ?_, hvisited, hdropped.reads (Function.update_self ..), fun j ys hj hys => ?_,
    fun a ha => hdropped.outside ha⟩
  · rw [dropAll, hfirst]
    exact hs
  · exact hdropped.reads ((Function.update_of_ne hj ..).trans hys)

theorem dropAll_filters_pushed : ∃ s, dropAll (fun x => decide (x = 0x1040)) 0x1000 3 pushed = some s ∧
    s.visited = [0x1040, 0x1060] ∧ Reads 0x1000 s.mem [0x1060] ∧ Reads 0x1020 s.mem [0x1080] := by
  obtain ⟨s, hs, hvisited, hreads, hothers, -⟩ := dropAll_filters fiveNodes_nodes twoHeads_injective
    twoHeads_mem pushed_run (i := false) (by decide : pushedLists false = some [0x1040, 0x1060])
    (fun x => decide (x = 0x1040)) 0
  exact ⟨s, hs, hvisited, hreads, hothers true _ (by decide) (by decide)⟩

end Runs

end Ktux.KernelLists
