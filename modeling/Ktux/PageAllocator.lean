import Ktux.MemoryLayout
import Ktux.ResourcePool
import Ktux.Runs
import Mathlib.Order.Interval.Finset.Nat
import Mathlib.Data.Finset.Image

set_option autoImplicit false

/-!
# The physical page allocator

`alloc_page` and `free_page` over the free page list that `init_virt_mem` leaves. `alloc_page` reads the
list at `freePageListEntries`, the index of its top element; `free_page` writes there before it advances.
-/
namespace Ktux.PageAllocator
open Words MemoryLayout Runs ResourcePool

/-- The allocator's share of the variables of `memory.c`. `freePageList` holds the words that follow the
pointer of that name. -/
structure Allocator where
  pTotalMemory : ℕ
  freePageList : ℕ → ℕ
  freePageListEntries : ℕ
  usedMemory : ℕ
  freeMemory : ℕ

@[simp] def error : ℕ := 0

def allocPage (m : Allocator) : ℕ × Allocator :=
  if m.pTotalMemory = 0 then (0, m)
  else if m.freePageListEntries = 0 then (0, m)
  else
    let address := m.freePageList m.freePageListEntries
    if 0 < address then
      (address, { m with
        freePageList := Function.update m.freePageList m.freePageListEntries 0
        freePageListEntries := wsub m.freePageListEntries 1
        usedMemory := wsub m.usedMemory pageSize })
    else (address, m)

def freePage (m : Allocator) (address : ℕ) : ℕ × Allocator :=
  if m.pTotalMemory = 0 then (error, m)
  else if address &&& 0xFFF ≠ 0 then (error, m)
  else
    (0, { m with
      freePageList := Function.update m.freePageList m.freePageListEntries address
      freePageListEntries := wadd m.freePageListEntries 1
      usedMemory := wadd m.usedMemory pageSize })

structure System where
  allocator : Allocator
  held : List ℕ

inductive PageOp where
  | allocPage
  | freePage (address : ℕ)
  deriving DecidableEq

inductive PageStep : System → PageOp → System → Prop where
  | allocPage (s : System) : PageStep s .allocPage
      ⟨(allocPage s.allocator).2,
        if (allocPage s.allocator).1 = 0 then s.held else (allocPage s.allocator).1 :: s.held⟩
  | freePage (s : System) (address : ℕ) (h : address ∈ s.held) : PageStep s (.freePage address)
      ⟨(freePage s.allocator address).2, s.held.erase address⟩

/-- The free page list as `init_virt_mem` leaves it: `top + 1` distinct nonzero pages, counted by the
index of the last one. -/
structure FreePageStack (top : ℕ) (m : Allocator) : Prop where
  initialized : m.pTotalMemory ≠ 0
  entries : m.freePageListEntries = top
  small : top + 1 < wordSize
  distinct : ∀ i j, i ≤ top → j ≤ top → m.freePageList i = m.freePageList j → i = j
  nonzero : ∀ i, i ≤ top → m.freePageList i ≠ 0
  aligned : ∀ i, i ≤ top → m.freePageList i &&& 0xFFF = 0
  word : ∀ i, i ≤ top → m.freePageList i < wordSize

/-- Some number of `alloc_page` calls in a row hand out `a`. -/
def Available (m : Allocator) (a : ℕ) : Prop :=
  a ≠ 0 ∧ ∃ k, (allocPage ((fun m => (allocPage m).2)^[k] m)).1 = a

/-- Some further calls, whatever they are, make `alloc_page` hand out `a`. -/
def CanBeHandedOut (s : System) (a : ℕ) : Prop :=
  a ≠ 0 ∧ ∃ ops u, Run PageStep s ops u ∧ (allocPage u.allocator).1 = a

def PageCallSound (initialEntries : ℕ) (s : System) (op : PageOp) (u : System) : Prop :=
  match op with
  | .allocPage =>
    (allocPage s.allocator).1 ∉ s.held ∧
      ((allocPage s.allocator).1 = 0 → s.held.length = initialEntries)
  | .freePage a =>
    CanBeHandedOut u a ∧ ∀ b, Available s.allocator b → Available u.allocator b

/-- No loss and no duplication, at every call of a run. -/
def NoLossNoDuplication (s : System) (ops : List PageOp) : Prop :=
  Every PageStep (fun _ => PageCallSound s.allocator.freePageListEntries) s ops

theorem allocPage_empty {m : Allocator} (h : m.freePageListEntries = 0) : allocPage m = (0, m) := by
  simp [allocPage, h]

theorem allocPage_zeroTop {m : Allocator} (h : m.freePageList m.freePageListEntries = 0) :
    allocPage m = (0, m) := by
  simp [allocPage, h]

theorem allocPage_pop {m : Allocator} (hinit : m.pTotalMemory ≠ 0) (hpos : m.freePageListEntries ≠ 0)
    (htop : m.freePageList m.freePageListEntries ≠ 0) (hlt : m.freePageListEntries < wordSize) :
    allocPage m = (m.freePageList m.freePageListEntries, { m with
      freePageList := Function.update m.freePageList m.freePageListEntries 0
      freePageListEntries := m.freePageListEntries - 1
      usedMemory := wsub m.usedMemory pageSize }) := by
  have hsub : wsub m.freePageListEntries 1 = m.freePageListEntries - 1 :=
    wsub_of_le (by omega) hlt
  simp [allocPage, hinit, hpos, Nat.pos_of_ne_zero htop, hsub]

theorem freePage_push {m : Allocator} {a : ℕ} (hinit : m.pTotalMemory ≠ 0)
    (ha : a &&& 0xFFF = 0) (hlt : m.freePageListEntries + 1 < wordSize) :
    (freePage m a).2 = { m with
      freePageList := Function.update m.freePageList m.freePageListEntries a
      freePageListEntries := m.freePageListEntries + 1
      usedMemory := wadd m.usedMemory pageSize } := by
  simp [freePage, hinit, ha, wadd_of_lt hlt]

section Allocation
variable {top : ℕ} {m : Allocator}

theorem FreePageStack.below {m' : Allocator} (h : FreePageStack (top + 1) m)
    (hinit : m'.pTotalMemory ≠ 0) (hentries : m'.freePageListEntries = top)
    (hbelow : ∀ j ≤ top, m'.freePageList j = m.freePageList j) : FreePageStack top m' := by
  have hsmall := h.small
  refine ⟨hinit, hentries, by omega, ?_, ?_, ?_, ?_⟩
  · intro i j hi hj heq
    rw [hbelow i hi, hbelow j hj] at heq
    exact h.distinct i j (by omega) (by omega) heq
  · intro i hi
    rw [hbelow i hi]
    exact h.nonzero i (by omega)
  · intro i hi
    rw [hbelow i hi]
    exact h.aligned i (by omega)
  · intro i hi
    rw [hbelow i hi]
    exact h.word i (by omega)

/-- `alloc_page` hands out the top of the stack and leaves the stack below it. -/
theorem FreePageStack.allocPage_pop (h : FreePageStack (top + 1) m) :
    (allocPage m).1 = m.freePageList (top + 1) ∧ FreePageStack top (allocPage m).2 ∧
      ∀ j ≤ top, (allocPage m).2.freePageList j = m.freePageList j := by
  have hentries := h.entries
  have hsmall := h.small
  have hpop := PageAllocator.allocPage_pop h.initialized (by omega)
    (by rw [hentries]; exact h.nonzero _ (le_refl _)) (by omega)
  have hbelow : ∀ j ≤ top, (allocPage m).2.freePageList j = m.freePageList j := by
    intro j hj
    rw [hpop, hentries]
    exact Function.update_of_ne (by omega) _ _
  refine ⟨by rw [hpop, hentries], h.below ?_ ?_ hbelow, hbelow⟩
  · rw [hpop]
    exact h.initialized
  · rw [hpop, hentries]
    exact Nat.add_sub_cancel top 1

theorem FreePageStack.after_allocPage (h : FreePageStack top m) :
    FreePageStack (allocPage m).2.freePageListEntries (allocPage m).2 := by
  cases top with
  | zero => rwa [allocPage_empty h.entries, h.entries]
  | succ top =>
    obtain ⟨_, hrest, _⟩ := h.allocPage_pop
    rwa [hrest.entries]

theorem FreePageStack.allocPage_entries_le (h : FreePageStack top m) :
    (allocPage m).2.freePageListEntries ≤ top := by
  cases top with
  | zero => rw [allocPage_empty h.entries, h.entries]
  | succ top =>
    rw [h.allocPage_pop.2.1.entries]
    exact Nat.le_succ top

/-- After allocations only: the stack below the top index is as it was, the words above it are cleared,
and the callers hold what was popped. -/
structure Popped (top : ℕ) (m : Allocator) (s : System) : Prop where
  initialized : s.allocator.pTotalMemory ≠ 0
  count : s.allocator.freePageListEntries + s.held.length = top
  stack : ∀ j, j ≤ s.allocator.freePageListEntries → s.allocator.freePageList j = m.freePageList j
  cleared : ∀ j, s.allocator.freePageListEntries < j → j ≤ top → s.allocator.freePageList j = 0
  held_iff : ∀ a, a ∈ s.held ↔
    ∃ j, s.allocator.freePageListEntries < j ∧ j ≤ top ∧ m.freePageList j = a
  nodup : s.held.Nodup

theorem popped_start (h : FreePageStack top m) : Popped top m ⟨m, []⟩ := by
  refine ⟨h.initialized, by simp [h.entries], fun _ _ => rfl, ?_, ?_, List.nodup_nil⟩
  · intro j hlo hhi
    dsimp only at hlo
    have := h.entries
    omega
  · intro a
    constructor
    · intro ha
      simp at ha
    · rintro ⟨j, hlo, hhi, _⟩
      dsimp only at hlo
      have := h.entries
      omega

theorem Popped.entries_le {s : System} (hs : Popped top m s) :
    s.allocator.freePageListEntries ≤ top := by
  have := hs.count
  omega

theorem Popped.allocPage_eq (h : FreePageStack top m) {s : System} (hs : Popped top m s)
    (hpos : s.allocator.freePageListEntries ≠ 0) :
    allocPage s.allocator = (m.freePageList s.allocator.freePageListEntries, { s.allocator with
      freePageList := Function.update s.allocator.freePageList s.allocator.freePageListEntries 0
      freePageListEntries := s.allocator.freePageListEntries - 1
      usedMemory := wsub s.allocator.usedMemory pageSize }) := by
  have hle := hs.entries_le
  have hsmall := h.small
  have htop := hs.stack _ (le_refl _)
  rw [← htop]
  refine allocPage_pop hs.initialized hpos ?_ (by omega)
  rw [htop]
  exact h.nonzero _ hle

theorem Popped.allocPage_step (h : FreePageStack top m) {s u : System} (hs : Popped top m s)
    (hstep : PageStep s .allocPage u) : Popped top m u := by
  cases hstep
  by_cases hpos : s.allocator.freePageListEntries = 0
  · simpa [allocPage_empty hpos] using hs
  · have hle := hs.entries_le
    have hnz := h.nonzero _ hle
    have hcount := hs.count
    rw [hs.allocPage_eq h hpos]
    simp only [hnz, if_false]
    refine ⟨hs.initialized, ?_, ?_, ?_, ?_, ?_⟩
    · simp only [List.length_cons]
      omega
    · intro j hj
      dsimp only at hj ⊢
      rw [Function.update_of_ne (by omega)]
      exact hs.stack j (by omega)
    · intro j hlo hhi
      dsimp only at hlo ⊢
      by_cases hj : j = s.allocator.freePageListEntries
      · rw [hj, Function.update_self]
      · rw [Function.update_of_ne hj]
        exact hs.cleared j (by omega) hhi
    · intro a
      dsimp only
      rw [List.mem_cons, hs.held_iff]
      constructor
      · rintro (rfl | ⟨j, hlo, hhi, rfl⟩)
        · exact ⟨_, by omega, hle, rfl⟩
        · exact ⟨j, by omega, hhi, rfl⟩
      · rintro ⟨j, hlo, hhi, rfl⟩
        by_cases hj : j = s.allocator.freePageListEntries
        · exact Or.inl (by rw [hj])
        · exact Or.inr ⟨j, by omega, hhi, rfl⟩
    · refine List.nodup_cons.mpr ⟨fun hmem => ?_, hs.nodup⟩
      obtain ⟨j, hlo, hhi, heq⟩ := (hs.held_iff _).mp hmem
      have := h.distinct j _ hhi hle heq
      omega

/-- The abstract pool an allocator stands for: the words at the indices `1 .. freePageListEntries` are
free. The page at index 0 is in neither set, as `alloc_page` refuses once the count is 0. -/
def pool (h : FreePageStack top m) (s : System) (hs : Popped top m s) : Pool ℕ where
  free := (Finset.Icc 1 s.allocator.freePageListEntries).image s.allocator.freePageList
  held := s.held.toFinset
  apart := by
    rw [Finset.disjoint_left]
    intro a hfree hheld
    obtain ⟨i, hi, rfl⟩ := Finset.mem_image.mp hfree
    obtain ⟨hi1, hi2⟩ := Finset.mem_Icc.mp hi
    obtain ⟨j, hlo, hhi, heq⟩ := (hs.held_iff _).mp (List.mem_toFinset.mp hheld)
    rw [hs.stack i hi2] at heq
    have := h.distinct j i hhi (hi2.trans hs.entries_le) heq
    omega

theorem allocPage_refines (h : FreePageStack top m) {s u : System} (hs : Popped top m s)
    (hstep : PageStep s .allocPage u) (hu : Popped top m u) :
    PoolStep (pool h s hs)
      (.take (if (allocPage s.allocator).1 = 0 then none else some (allocPage s.allocator).1))
      (pool h u hu) := by
  cases hstep
  by_cases hpos : s.allocator.freePageListEntries = 0
  · have heq : pool h _ hu = pool h s hs := by simp [pool, allocPage_empty hpos]
    rw [heq, allocPage_empty hpos, if_pos rfl]
    exact .refuse (by simp [pool, hpos])
  · have hle := hs.entries_le
    have hnz := h.nonzero _ hle
    have hstack := hs.stack _ (le_refl _)
    have hanswer : (if (allocPage s.allocator).1 = 0 then none else some (allocPage s.allocator).1) =
        some (m.freePageList s.allocator.freePageListEntries) := by
      rw [hs.allocPage_eq h hpos, if_neg hnz]
    rw [hanswer]
    refine .take ?_ ?_ ?_
    · exact Finset.mem_image.mpr ⟨_, Finset.mem_Icc.mpr ⟨by omega, le_refl _⟩, hstack⟩
    · ext a
      simp only [pool, hs.allocPage_eq h hpos, Finset.mem_image, Finset.mem_Icc, Finset.mem_erase]
      constructor
      · rintro ⟨j, ⟨hj1, hj2⟩, rfl⟩
        rw [Function.update_of_ne (by omega)]
        refine ⟨fun heq => ?_, j, ⟨hj1, by omega⟩, rfl⟩
        rw [hs.stack j (by omega)] at heq
        have := h.distinct j _ (by omega) hle heq
        omega
      · rintro ⟨hne, j, ⟨hj1, hj2⟩, rfl⟩
        have hj : j ≠ s.allocator.freePageListEntries := fun hj => hne (by rw [hj, hstack])
        exact ⟨j, ⟨hj1, by omega⟩, Function.update_of_ne hj _ _⟩
    · simp only [pool, hs.allocPage_eq h hpos, hnz, if_false, List.toFinset_cons]

theorem popped_all (h : FreePageStack top m) {s : System} (hs : Popped top m s) :
    (pool h s hs).all = (Finset.Icc 1 top).image m.freePageList := by
  ext a
  simp only [Pool.all, pool, Finset.mem_union, Finset.mem_image, Finset.mem_Icc, List.mem_toFinset,
    hs.held_iff]
  constructor
  · rintro (⟨j, ⟨hj1, hj2⟩, rfl⟩ | ⟨j, hlo, hhi, rfl⟩)
    · exact ⟨j, ⟨hj1, hj2.trans hs.entries_le⟩, (hs.stack j hj2).symm⟩
    · exact ⟨j, ⟨by omega, hhi⟩, rfl⟩
  · rintro ⟨j, ⟨hj1, hj2⟩, rfl⟩
    by_cases hj : j ≤ s.allocator.freePageListEntries
    · exact Or.inl ⟨j, ⟨hj1, hj⟩, hs.stack j hj⟩
    · exact Or.inr ⟨j, by omega, hj2, rfl⟩

theorem Popped.allocPage_sound (h : FreePageStack top m) {s u : System} (hs : Popped top m s)
    (hstep : PageStep s .allocPage u) : PageCallSound m.freePageListEntries s .allocPage u := by
  have hpool := allocPage_refines h hs hstep (hs.allocPage_step h hstep)
  constructor
  · intro hmem
    split_ifs at hpool with hz
    · obtain ⟨j, _, hhi, heq⟩ := (hs.held_iff _).mp hmem
      exact h.nonzero j hhi (heq.trans hz)
    · exact hpool.taken_not_held (List.mem_toFinset.mpr hmem)
  · intro hz
    rw [if_pos hz] at hpool
    have hall := hpool.refused_all_held.trans (popped_all h hs)
    have hcard := congrArg Finset.card hall
    rw [Finset.card_image_of_injOn, Nat.card_Icc] at hcard
    · rw [h.entries]
      simpa [pool, List.toFinset_card_of_nodup hs.nodup] using hcard
    · intro i hi j hj heq
      have hi' := Finset.mem_Icc.mp hi
      have hj' := Finset.mem_Icc.mp hj
      exact h.distinct i j hi'.2 hj'.2 heq

end Allocation

section Release
variable {top : ℕ}

/-- Once `free_page` has run, the word at the top index is 0 and so is every word above it. -/
structure Jammed (top : ℕ) (s : System) : Prop where
  initialized : s.allocator.pTotalMemory ≠ 0
  small : top + 1 < wordSize
  count : s.allocator.freePageListEntries + s.held.length = top
  cleared : ∀ j, s.allocator.freePageListEntries ≤ j → j ≤ top → s.allocator.freePageList j = 0
  aligned : ∀ a ∈ s.held, a &&& 0xFFF = 0

theorem Jammed.allocPage_eq {s : System} (hs : Jammed top s) :
    allocPage s.allocator = (0, s.allocator) := by
  have hcount := hs.count
  exact allocPage_zeroTop (hs.cleared _ (le_refl _) (by omega))

theorem pushed_jammed {s : System} {a : ℕ} (hinit : s.allocator.pTotalMemory ≠ 0)
    (hsmall : top + 1 < wordSize) (hcount : s.allocator.freePageListEntries + s.held.length = top)
    (hcleared : ∀ j, s.allocator.freePageListEntries < j → j ≤ top → s.allocator.freePageList j = 0)
    (haligned : ∀ b ∈ s.held, b &&& 0xFFF = 0) (ha : a ∈ s.held) :
    Jammed top ⟨(freePage s.allocator a).2, s.held.erase a⟩ := by
  have hlen : 0 < s.held.length := List.length_pos_of_mem ha
  rw [freePage_push hinit (haligned a ha) (by omega)]
  refine ⟨hinit, hsmall, ?_, ?_, ?_⟩
  · simp only [List.length_erase_of_mem ha]
    omega
  · intro j hlo hhi
    dsimp only at hlo ⊢
    rw [Function.update_of_ne (by omega)]
    exact hcleared j (by omega) hhi
  · exact fun b hb => haligned b (List.mem_of_mem_erase hb)

theorem Jammed.step {s u : System} {op : PageOp} (hs : Jammed top s) (hstep : PageStep s op u) :
    Jammed top u := by
  cases hstep with
  | allocPage => simpa [hs.allocPage_eq] using hs
  | freePage a ha =>
    exact pushed_jammed hs.initialized hs.small hs.count (fun j hlo hhi => hs.cleared j hlo.le hhi)
      hs.aligned ha

theorem Jammed.never_handed_out {s : System} (hs : Jammed top s) (a : ℕ) : ¬ CanBeHandedOut s a := by
  rintro ⟨ha, ops, u, hrun, heq⟩
  have hu : Jammed top u := hrun.invariant (Jammed top) hs (fun _ _ _ hr hstep => hr.step hstep)
  rw [hu.allocPage_eq] at heq
  exact ha heq.symm

theorem Popped.freePage_jams {m : Allocator} (h : FreePageStack top m) {s u : System} {a : ℕ}
    (hs : Popped top m s) (hstep : PageStep s (.freePage a) u) : Jammed top u := by
  cases hstep with
  | freePage _ ha =>
    refine pushed_jammed hs.initialized h.small hs.count hs.cleared ?_ ha
    intro b hb
    obtain ⟨j, _, hhi, rfl⟩ := (hs.held_iff b).mp hb
    exact h.aligned j hhi

end Release

def onlyAllocates (ops : List PageOp) : Prop := ∀ op ∈ ops, op = PageOp.allocPage

theorem run_popped {top : ℕ} {m : Allocator} (h : FreePageStack top m) {ops : List PageOp}
    {s : System} (hops : onlyAllocates ops) (hrun : Run PageStep ⟨m, []⟩ ops s) : Popped top m s := by
  have hC : Every PageStep (fun _ _ op _ => op = PageOp.allocPage) ⟨m, []⟩ ops :=
    fun pre op post u v eq _ _ => hops op (by simp [eq])
  refine hrun.guarded_invariant (fun _ => Popped top m) (popped_start h) ?_ hC
  intro pre u op v _ hu hstep hop
  subst hop
  exact hu.allocPage_step h hstep

/-- The allocator neither loses nor duplicates a page over a run exactly when the run never frees one. -/
theorem noLossNoDuplication_iff {top : ℕ} {m : Allocator} (h : FreePageStack top m)
    {ops : List PageOp} {s : System} (hrun : Run PageStep ⟨m, []⟩ ops s) :
    NoLossNoDuplication ⟨m, []⟩ ops ↔ onlyAllocates ops := by
  constructor
  · intro hsound
    induction ops using List.reverseRecOn generalizing s with
    | nil => intro op hop; simp at hop
    | append_singleton ops op ih =>
      obtain ⟨u, hu, hlast⟩ := hrun.split
      obtain ⟨hpre, hop⟩ := every_snoc.mp hsound
      have honly := ih hu hpre
      have hpopped := run_popped h honly hu
      cases hlast with
      | next hstep _ =>
        have hcall := hop _ _ hu hstep
        intro op' hmem
        rcases List.mem_append.mp hmem with hmem | hmem
        · exact honly op' hmem
        · rw [List.mem_singleton.mp hmem]
          cases op with
          | allocPage => rfl
          | freePage a => exact absurd hcall.1 ((hpopped.freePage_jams h hstep).never_handed_out a)
  · intro hops
    refine every_of_guarded_invariant (C := fun _ _ op _ => op = PageOp.allocPage)
      (fun _ => Popped top m) (popped_start h) ?_ ?_ (fun pre op post u v eq _ _ => hops op (by simp [eq]))
    · intro pre u op v _ hu hstep hop
      subst hop
      exact hu.allocPage_step h hstep
    · intro pre u op v hu hstep hop
      subst hop
      exact hu.allocPage_sound h hstep

def threePages : Allocator where
  pTotalMemory := 0x10000
  freePageList := fun i => if i ≤ 2 then 0x9000 + 4096 * i else 0
  freePageListEntries := 2
  usedMemory := 0xE000
  freeMemory := 0x2000

theorem threePages_stack : FreePageStack 2 threePages := by
  refine ⟨by decide, rfl, by decide, ?_, ?_, by decide, by decide⟩
  · intro i j hi hj h
    simp only [threePages, hi, hj, if_true] at h
    omega
  · intro i hi
    simp [threePages, hi]

theorem noLossNoDuplication_threePages :
    NoLossNoDuplication ⟨threePages, []⟩ [.allocPage, .allocPage] ↔
      onlyAllocates [.allocPage, .allocPage] :=
  noLossNoDuplication_iff threePages_stack (.next (.allocPage _) (.single (.allocPage _)))

/-- Freeing the page just allocated overwrites the word of the page below it, which is lost. -/
theorem noLossNoDuplication_fails : FreePageStack 2 threePages ∧
    ∃ s, Run PageStep ⟨threePages, []⟩ [.allocPage, .freePage 0xB000] s ∧
      ¬ NoLossNoDuplication ⟨threePages, []⟩ [.allocPage, .freePage 0xB000] := by
  have hheld : 0xB000 ∈ (if (allocPage threePages).1 = 0 then [] else [(allocPage threePages).1]) := by
    decide
  refine ⟨threePages_stack, _, .next (.allocPage _) (.single (.freePage _ 0xB000 hheld)), fun h => ?_⟩
  have hcall := h [.allocPage] (.freePage 0xB000) [] _ _ rfl (.single (.allocPage _))
    (.freePage _ 0xB000 hheld)
  obtain ⟨_, k, hk⟩ := hcall.2 0xA000 ⟨by decide, 0, by decide⟩
  have hfix : allocPage (freePage (allocPage threePages).2 0xB000).2 =
      (0, (freePage (allocPage threePages).2 0xB000).2) := allocPage_zeroTop (by decide)
  rw [Function.iterate_fixed (by rw [hfix]) k, hfix] at hk
  exact absurd hk (by decide)

end Ktux.PageAllocator
