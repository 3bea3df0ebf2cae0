import Ktux.Kmalloc

set_option autoImplicit false

/-!
# The bookkeeping of the kernel allocator

`kernelHeapEnd`, `vHeapMappedLimit` and `freeBytes` over sequences of successful requests, whatever the page
tables and the free page list hold.
-/
namespace Ktux.HeapBooks
open Words MemoryLayout TwoLevelPaging Runs KernelMemory MapPage Heap Kmalloc

structure Block where
  start : ℕ
  size : ℕ

def Block.fin (b : Block) : ℕ := b.start + b.size

def Block.Apart (b c : Block) : Prop := b.fin ≤ c.start ∨ c.fin ≤ b.start

/-- A successful request for at least one byte. -/
def Grants (m : Memory) (b : Block) (u : Memory) : Prop :=
  0 < b.size ∧ b.size < wordSize ∧ b.start ≠ 0 ∧ ∃ fuel, kmalloc fuel b.size m = some (b.start, u)

structure HeapStart (m : Memory) : Prop where
  heapEnd : m.kernelHeapEnd = vKernelHeapAddr
  limit : m.vHeapMappedLimit = vKernelHeapAddr
  free : m.freeBytes = 0

/-- The variables agree with the blocks handed out so far. -/
structure Books (blocks : List Block) (m : Memory) : Prop where
  apart : blocks.Pairwise Block.Apart
  inside : ∀ b ∈ blocks, vKernelHeapAddr ≤ b.start ∧ b.fin ≤ m.vHeapMappedLimit
  free : m.freeBytes = 0
  last : ∀ b ∈ blocks.getLast?, m.kernelHeapEnd = b.fin ∧ m.vHeapMappedLimit = b.fin

/-- They agree after every request of the sequence. -/
def BooksKept (m : Memory) (blocks : List Block) : Prop :=
  ∀ pre post u, blocks = pre ++ post → Run Grants m pre u → Books pre u

def requested (blocks : List Block) : ℕ := (blocks.map Block.size).sum

section Step
variable {m u : Memory} {b : Block} {nbytes : ℕ}

theorem writeByte_phys {address x : ℕ} (h : writeByte address x m = some u) :
    u = { m with phys := u.phys } := by
  obtain ⟨phys, _, rfl⟩ := Option.map_eq_some_iff.mp h
  rfl

theorem writeDword_phys {address x : ℕ} (h : writeDword address x m = some u) :
    u = { m with phys := u.phys } := by
  obtain ⟨m1, h1, hrest⟩ := Option.bind_eq_some_iff.mp h
  obtain ⟨m2, h2, hrest⟩ := Option.bind_eq_some_iff.mp hrest
  obtain ⟨m3, h3, h4⟩ := Option.bind_eq_some_iff.mp hrest
  rw [writeByte_phys h4, writeByte_phys h3, writeByte_phys h2, writeByte_phys h1]

theorem memsetd_phys {count temp val : ℕ} (h : memsetd temp val count m = some u) :
    u = { m with phys := u.phys } := by
  induction count generalizing temp m with
  | zero =>
    cases h
    rfl
  | succ count ih =>
    obtain ⟨w, hw, hrest⟩ := Option.bind_eq_some_iff.mp h
    rw [ih hrest, writeDword_phys hw]

/-- What one request does to the three variables. Only the size decides the end of the heap. -/
theorem kmalloc_books (hfree : m.freeBytes = 0) (hpos : 0 < nbytes) {fuel p : ℕ} (hp : p ≠ 0)
    (hrun : kmalloc fuel nbytes m = some (p, u)) :
    p = m.vHeapMappedLimit ∧ u.vHeapMappedLimit = wadd m.vHeapMappedLimit nbytes ∧ u.freeBytes = 0 ∧
      u.kernelHeapEnd = wadd p (if pageSize < nbytes then nbytes else 4 * nbytes) := by
  obtain ⟨_, w, hs, ⟨_, hzero, _⟩ | ⟨rfl, hclear⟩⟩ := kmalloc_cases hfree hpos hrun
  · exact absurd hzero hp
  · have hlimit : w.vHeapMappedLimit = wadd m.vHeapMappedLimit nbytes :=
      congrArg Memory.vHeapMappedLimit (sbrk_limit hs).2
    have hphys := memsetd_phys hclear
    exact ⟨rfl, (congrArg Memory.vHeapMappedLimit hphys).trans hlimit, congrArg Memory.freeBytes hphys,
      congrArg Memory.kernelHeapEnd hphys⟩

end Step

/-- Four times the bytes of a small request end elsewhere, even past the top of the address space. -/
theorem wadd_words_ne {p n : ℕ} (hpos : 0 < n) (hsmall : n ≤ pageSize) : p + n ≠ wadd p (4 * n) := by
  rw [pageSize] at hsmall
  rw [wadd, wordSize_eq]
  omega

section Sequence
variable {m u v : Memory} {b : Block} {pre blocks : List Block}

theorem requested_snoc (pre : List Block) (b : Block) : requested (pre ++ [b]) = requested pre + b.size := by
  rw [requested, List.map_append, List.sum_append, requested]
  simp

theorem requested_prefix (pre post : List Block) : requested pre ≤ requested (pre ++ post) := by
  rw [requested, requested, List.map_append, List.sum_append]
  exact Nat.le_add_right _ _

theorem HeapStart.books (h : HeapStart m) : Books [] m :=
  ⟨List.Pairwise.nil, fun _ hb => absurd hb List.not_mem_nil, h.free, fun _ hb => by cases hb⟩

/-- A request of more than a page moves the end of the heap with the limit. -/
theorem Books.grant (h : Books pre u) (hlow : vKernelHeapAddr ≤ u.vHeapMappedLimit)
    (hlarge : pageSize < b.size) (hroom : u.vHeapMappedLimit + b.size < wordSize) (hgrant : Grants u b v) :
    Books (pre ++ [b]) v ∧ v.vHeapMappedLimit = u.vHeapMappedLimit + b.size := by
  obtain ⟨hpos, _, hne, fuel, hrun⟩ := hgrant
  obtain ⟨hstart, hlimit, hfree, hend⟩ := kmalloc_books h.free hpos hne hrun
  rw [if_pos hlarge] at hend
  rw [wadd_of_lt hroom] at hlimit
  rw [hstart, wadd_of_lt hroom] at hend
  have hfin : b.fin = u.vHeapMappedLimit + b.size := by rw [Block.fin, hstart]
  refine ⟨⟨?_, fun c hc => ?_, hfree, fun c hc => ?_⟩, hlimit⟩
  · refine List.pairwise_append.mpr ⟨h.apart, List.pairwise_singleton _ _, fun c hc d hd => Or.inl ?_⟩
    rw [List.mem_singleton.mp hd, hstart]
    exact (h.inside c hc).2
  · rcases List.mem_append.mp hc with hold | hnew
    · have hin := h.inside c hold
      omega
    · rw [List.mem_singleton.mp hnew]
      omega
  · rw [List.getLast?_concat] at hc
    cases hc
    omega

theorem Run.last_grant (h : Run Grants m (pre ++ [b]) v) : ∃ u, Run Grants m pre u ∧ Grants u b v := by
  obtain ⟨u, hu, hlast⟩ := h.split
  cases hlast with
  | next hgrant tail =>
    cases tail
    exact ⟨u, hu, hgrant⟩

theorem booksKept_of_large (hm : HeapStart m) (hlarge : ∀ b ∈ blocks, pageSize < b.size)
    (hroom : vKernelHeapAddr + requested blocks < wordSize) (hrun : Run Grants m blocks u) :
    Books blocks u ∧ u.vHeapMappedLimit = vKernelHeapAddr + requested blocks := by
  induction blocks using List.reverseRecOn generalizing u with
  | nil =>
    cases hrun
    exact ⟨hm.books, hm.limit⟩
  | append_singleton pre b ih =>
    rw [requested_snoc] at hroom
    obtain ⟨w, hw, hgrant⟩ := Run.last_grant hrun
    obtain ⟨hbooks, hlimit⟩ := ih (fun c hc => hlarge c (List.mem_append_left _ hc)) (by omega) hw
    obtain ⟨hnext, hmoved⟩ := hbooks.grant (by omega)
      (hlarge b (List.mem_append_right _ (List.mem_cons_self ..)))
      (by omega) hgrant
    refine ⟨hnext, ?_⟩
    rw [hmoved, hlimit, requested_snoc, Nat.add_assoc]

theorem BooksKept.prefix_kept {post : List Block} (h : BooksKept m (pre ++ post)) : BooksKept m pre := by
  intro pre' post' u heq hrun
  exact h pre' (post' ++ post) u (by rw [heq, List.append_assoc]) hrun

/-- What kept books say of the sizes: `kernelHeapEnd` is `4 * size` behind the start of a small block. -/
theorem BooksKept.conditions (hkept : BooksKept m blocks) (hm : HeapStart m) (hrun : Run Grants m blocks u) :
    (∀ b ∈ blocks, pageSize < b.size) ∧ u.vHeapMappedLimit = vKernelHeapAddr + requested blocks ∧
      u.vHeapMappedLimit < wordSize := by
  induction blocks using List.reverseRecOn generalizing u with
  | nil =>
    cases hrun
    refine ⟨fun _ hb => absurd hb List.not_mem_nil, hm.limit, ?_⟩
    rw [hm.limit]
    decide
  | append_singleton pre b ih =>
    obtain ⟨w, hw, hgrant⟩ := Run.last_grant hrun
    obtain ⟨hlarge, hlimit, _⟩ := ih hkept.prefix_kept hw
    have hbefore := hkept pre [b] w rfl hw
    have hafter := hkept (pre ++ [b]) [] u (List.append_nil _).symm hrun
    obtain ⟨hend, hfin⟩ := hafter.last b (by rw [List.getLast?_concat]; rfl)
    obtain ⟨hpos, _, hne, fuel, hcall⟩ := hgrant
    obtain ⟨hstart, hmoved, _, hheapEnd⟩ := kmalloc_books hbefore.free hpos hne hcall
    have hword : u.vHeapMappedLimit < wordSize := by
      rw [hmoved]
      exact wadd_lt _ _
    rw [hend] at hheapEnd
    rw [Block.fin] at hfin hheapEnd
    refine ⟨fun c hc => ?_, ?_, hword⟩
    · rcases List.mem_append.mp hc with hold | hnew
      · exact hlarge c hold
      · rw [List.mem_singleton.mp hnew]
        by_contra hsmall
        rw [if_neg hsmall] at hheapEnd
        exact wadd_words_ne hpos (Nat.le_of_not_lt hsmall) hheapEnd
    · rw [requested_snoc, hfin, hstart, hlimit, Nat.add_assoc]

/-- The books are kept exactly when every request is for more than a page and the heap stays below the top of
the address space. -/
theorem booksKept_iff (m v : Memory) (blocks : List Block) (hm : HeapStart m)
    (hrun : Run Grants m blocks v) :
    BooksKept m blocks ↔
      (∀ b ∈ blocks, pageSize < b.size) ∧ vKernelHeapAddr + requested blocks < wordSize := by
  constructor
  · intro hkept
    obtain ⟨hlarge, hlimit, hword⟩ := hkept.conditions hm hrun
    exact ⟨hlarge, hlimit ▸ hword⟩
  · rintro ⟨hlarge, hroom⟩ pre post u rfl hpre
    have hless := requested_prefix pre post
    exact (booksKept_of_large hm (fun b hb => hlarge b (List.mem_append_left _ hb)) (by omega) hpre).1

end Sequence

/-- Three free pages from `0x110000` up. -/
def highPages : PageAllocator.Allocator where
  pTotalMemory := 0x200000
  freePageList := fun i => if i ≤ 2 then 0x110000 + 4096 * i else 0
  freePageListEntries := 2
  usedMemory := 0x1FE000
  freeMemory := 0x2000

def highKernel : Memory := { smallKernel with pages := highPages, pFreeMemoryStart := 0x110000 }

theorem highPages_stack : PageAllocator.FreePageStack 2 highPages := by
  refine ⟨by decide, rfl, by decide, ?_, ?_, by decide, by decide⟩
  · intro i j hi hj h
    simp only [highPages, hi, hj, if_true] at h
    omega
  · intro i hi
    simp [highPages, hi]

theorem highKernel_start : HeapStart highKernel := ⟨rfl, rfl, rfl⟩

theorem highKernel_ready : HeapReady 0 highKernel := by
  refine ⟨⟨smallKernel_selfMapped, by decide, rfl, highPages_stack, fun j hj => ?_⟩, by decide,
    fun d hd hp => ?_, fun j hj => ?_, by decide⟩
  · exact absurd hj (Nat.not_lt_zero _)
  · change frame (entryAt smallKernel.phys directory d) < 256
    rw [smallKernel_directory hd]
    split_ifs <;> decide
  · exact absurd hj (Nat.not_lt_zero _)

theorem highKernel_canBeMet {nbytes : ℕ} (hsize : nbytes ≤ 2 * pageSize) : CanBeMet nbytes highKernel := by
  have hlimit : highKernel.vHeapMappedLimit = vKernelHeapAddr := rfl
  have hentries : highKernel.pages.freePageListEntries = 2 := rfl
  rw [pageSize] at hsize
  have hpasses : passes vKernelHeapAddr nbytes ≤ 2 := by
    rw [passes, vKernelHeapAddr]
    omega
  refine ⟨?_, Or.inl ?_, ?_, fun k hk => ?_⟩
  · rw [hlimit]
    omega
  · rw [hlimit]
    decide
  · rw [hlimit, hentries]
    exact hpasses
  · have hlow : 2 - k ≤ 2 := Nat.sub_le 2 k
    change 0x110000 ≤ if 2 - k ≤ 2 then 0x110000 + 4096 * (2 - k) else 0
    rw [if_pos hlow]
    exact Nat.le_add_right _ _

theorem highKernel_grants (nbytes : ℕ) (hpos : 0 < nbytes) (hsize : nbytes ≤ 2 * pageSize) :
    ∃ u, Run Grants highKernel [⟨vKernelHeapAddr, nbytes⟩] u := by
  obtain ⟨fuel, p, u, hrun⟩ := kmalloc_returns highKernel_ready rfl (highKernel_canBeMet hsize)
  obtain rfl := kmalloc_limit highKernel_ready rfl hpos hrun
  have hword : nbytes < wordSize := by
    rw [pageSize] at hsize
    rw [wordSize_eq]
    omega
  have hne : vKernelHeapAddr ≠ 0 := by decide
  exact ⟨u, Run.single ⟨hpos, hword, hne, fuel, hrun⟩⟩

theorem booksKept_highKernel : ∃ u, Run Grants highKernel [⟨vKernelHeapAddr, 5000⟩] u ∧
    BooksKept highKernel [⟨vKernelHeapAddr, 5000⟩] := by
  obtain ⟨u, hrun⟩ := highKernel_grants 5000 (by decide) (by decide)
  exact ⟨u, hrun, (booksKept_iff highKernel u _ highKernel_start hrun).mpr ⟨by decide, by decide⟩⟩

/-- After a request for 100 bytes the heap seems to end 300 bytes behind the block. -/
theorem booksKept_fails : HeapStart highKernel ∧
    (∃ u, Run Grants highKernel [⟨vKernelHeapAddr, 100⟩] u) ∧
    ¬ BooksKept highKernel [⟨vKernelHeapAddr, 100⟩] := by
  have hgrants := highKernel_grants 100 (by decide) (by decide)
  refine ⟨highKernel_start, hgrants, fun hkept => ?_⟩
  obtain ⟨u, hrun⟩ := hgrants
  exact absurd ((hkept.conditions highKernel_start hrun).1 _ (List.mem_cons_self ..)) (by decide)

end Ktux.HeapBooks
