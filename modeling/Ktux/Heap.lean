import Ktux.FreePageList
import Ktux.MapPage

set_option autoImplicit false

/-!
# The kernel heap

`init_heap` installs the heap's first page table; `sbrk` moves the end of the mapped heap up and maps new
pages from the limit rounded down to a page.
-/
namespace Ktux.Heap
open Words MemoryLayout PageAllocator Loops TwoLevelPaging KernelMemory MapPage FreePageList

def initHeap (m : Memory) : Option Memory := do
  let m ← storeWord m (element pKernelPageDirectory (virt2Dir vKernelHeapAddr))
    (makePTEphys pPageTableHeap1 mappedFlags)
  let page := (allocPage m.pages).1
  let m ← storeWord (allocated m) (element pPageTableHeap1 0) (makePTEphys page mappedFlags)
  storeWord m (element pKernelPageDirectory (virt2Dir vKernelPageTable1))
    (makePTEphys pKernelPageDirectory mappedFlags)

def pageMask : ℕ := highMask pageSizeShift

def untilEndOfPage (vHeapMappedLimit : ℕ) : ℕ :=
  if vHeapMappedLimit &&& (pageSize - 1) = 0 then 0
  else wsub (wadd (vHeapMappedLimit &&& pageMask) pageSize) vHeapMappedLimit

structure SbrkLoop where
  i : ℕ
  free : ℕ
  memory : Memory

def growHeap (fuel : ℕ) (s : SbrkLoop) : Option SbrkLoop := do
  let newHeapPage := (allocPage s.memory.pages).1
  let newPageVirt := wadd (s.memory.vHeapMappedLimit &&& pageMask) (wmul pageSize s.i)
  let m ← mapPageHelper pKernelPageDirectory newPageVirt newHeapPage mappedFlags fuel
    (allocated s.memory)
  return ⟨s.i + 1, wadd s.free pageSize, m⟩

def moveLimit (nbytes : ℕ) (s : SbrkLoop) : ℕ × Memory :=
  let p := s.memory.vHeapMappedLimit
  (p, { s.memory with vHeapMappedLimit := wadd s.memory.vHeapMappedLimit nbytes })

/-- `if (free < nbytes)` guards a loop with the same condition. -/
def sbrk (fuel nbytes : ℕ) (m : Memory) : Option (ℕ × Memory) :=
  (whileLoop (fun s => decide (s.free < nbytes)) (growHeap fuel) fuel
    ⟨0, untilEndOfPage m.vHeapMappedLimit, m⟩).map (moveLimit nbytes)

/-- One call keeps what the heap has handed out and maps what it hands out. -/
structure SbrkSound (m : Memory) (nbytes p : ℕ) (u : Memory) : Prop where
  returned : p = m.vHeapMappedLimit
  limit : u.vHeapMappedLimit = m.vHeapMappedLimit + nbytes
  mapped : ∀ v, vKernelHeapAddr ≤ v → v < u.vHeapMappedLimit → (walk u.phys directory v).isSome
  kept : ∀ v, vKernelHeapAddr ≤ v → v < m.vHeapMappedLimit →
    walk u.phys directory v = walk m.phys directory v

/-- Each call of the sequence returns and is sound. -/
def HeapIntegrity : Memory → List ℕ → Prop
  | _, [] => True
  | m, nbytes :: requests =>
    ∃ fuel p u, sbrk fuel nbytes m = some (p, u) ∧ SbrkSound m nbytes p u ∧ HeapIntegrity u requests

/-- Every request that starts inside a page, at heap offset `used`, fits in the rest of that page. -/
def StaysInPage : ℕ → List ℕ → Prop
  | _, [] => True
  | used, nbytes :: requests =>
    (used % pageSize = 0 ∨ nbytes ≤ pageSize - used % pageSize) ∧ StaysInPage (used + nbytes) requests

def heapSlot : ℕ := 832

def heapTable (m : Phys) : ℕ := frame (entryAt m directory heapSlot)

/-- The heap with `used` bytes handed out: its pages are mapped to frames that left the free page list. -/
structure HeapState (used : ℕ) (m : Memory) : Prop where
  paging : SelfMapped m.phys
  table : present (entryAt m.phys directory heapSlot)
  limit : m.vHeapMappedLimit = vKernelHeapAddr + used
  stack : FreePageStack m.pages.freePageListEntries m.pages
  mapped : ∀ j, j * 4096 < used → ∃ a, a % 4096 = 0 ∧ entryAt m.phys (heapTable m.phys) j = a + 3 ∧
    ∀ i ≤ m.pages.freePageListEntries, m.pages.freePageList i ≠ a

/-- The pages that the loop of `sbrk` allocates. -/
def passes (used nbytes : ℕ) : ℕ := (used + nbytes + 4095) / 4096 - (used + 4095) / 4096

section Window
variable {m : Phys}

theorem heap_walk (h : present (entryAt m directory heapSlot)) {x : ℕ} (hx : x < 0x400000) :
    walk m directory (vKernelHeapAddr + x) =
      if present (entryAt m (heapTable m) (x / 4096)) then
        some (entryAt m directory heapSlot, entryAt m (heapTable m) (x / 4096))
      else none := by
  have hdir : dirIndex (vKernelHeapAddr + x) = heapSlot := by
    unfold dirIndex heapSlot
    rw [vKernelHeapAddr]
    omega
  have hpage : pageIndex (vKernelHeapAddr + x) = x / 4096 := by
    unfold pageIndex
    rw [vKernelHeapAddr]
    omega
  rw [walk_table (by rwa [hdir]), hdir, hpage]
  rfl

theorem heap_page {j : ℕ} (hj : j < 1024) :
    virt2Dir (vKernelHeapAddr + j * 4096) = heapSlot ∧ virt2Page (vKernelHeapAddr + j * 4096) = j := by
  rw [virt2Dir_eq, virt2Page_eq, vKernelHeapAddr, heapSlot]
  omega

theorem limit_roundDown {used : ℕ} (h : used ≤ 0x401000) :
    (vKernelHeapAddr + used) &&& pageMask = vKernelHeapAddr + used / 4096 * 4096 := by
  rw [pageMask, pageSizeShift, and_highMask 12 _ (by decide), vKernelHeapAddr]
  · omega
  · rw [vKernelHeapAddr, wordSize_eq]
    omega

theorem newPage_eq {used i : ℕ} (hused : used ≤ 0x401000) (hi : used / 4096 + i ≤ 1025) :
    wadd ((vKernelHeapAddr + used) &&& pageMask) (wmul pageSize i) =
      vKernelHeapAddr + (used / 4096 + i) * 4096 := by
  have hmul : wmul pageSize i = 4096 * i := by
    rw [wmul_of_lt, pageSize]
    rw [pageSize, wordSize_eq]
    omega
  rw [limit_roundDown hused, hmul, wadd_of_lt]
  · rw [vKernelHeapAddr]
    omega
  · rw [vKernelHeapAddr, wordSize_eq]
    omega

theorem untilEndOfPage_eq {used : ℕ} (h : used ≤ 0x401000) :
    untilEndOfPage (vKernelHeapAddr + used) = (used + 4095) / 4096 * 4096 - used := by
  have hlow : (vKernelHeapAddr + used) &&& (pageSize - 1) = used % 4096 := by
    rw [pageSize, show 4096 - 1 = 2 ^ 12 - 1 from rfl, and_lowMask, vKernelHeapAddr]
    omega
  rw [untilEndOfPage, hlow, limit_roundDown h]
  split_ifs with hr
  · omega
  · rw [wadd_of_lt, wsub_of_le]
    · rw [vKernelHeapAddr, pageSize]
      omega
    · rw [vKernelHeapAddr, pageSize]
      omega
    · rw [vKernelHeapAddr, pageSize, wordSize_eq]
      omega
    · rw [vKernelHeapAddr, pageSize, wordSize_eq]
      omega

end Window

section Sbrk
variable {m : Memory} {used nbytes : ℕ}

/-- `u` is `m` after the loop of `sbrk` mapped `i` pages, from the page that holds the limit on. -/
structure Grown (used : ℕ) (m : Memory) (i : ℕ) (u : Memory) : Prop where
  limit : u.vHeapMappedLimit = m.vHeapMappedLimit
  stack : FreePageStack (m.pages.freePageListEntries - i) u.pages
  below : ∀ j ≤ m.pages.freePageListEntries - i, u.pages.freePageList j = m.pages.freePageList j
  phys : u.phys = writeEntries m.phys (heapTable m.phys) (used / 4096) i
    fun j => m.pages.freePageList (m.pages.freePageListEntries - j) + 3

theorem grown_start (h : FreePageStack m.pages.freePageListEntries m.pages) : Grown used m 0 m :=
  ⟨rfl, h, fun _ _ => rfl, (writeEntries_zero _ _ _ _).symm⟩

theorem HeapState.table_ne (h : HeapState used m) :
    heapTable m.phys ≠ directory ∧ heapTable m.phys ≠ frame (entryAt m.phys directory 0) := by
  refine ⟨h.paging.tables _ (by decide) (by decide) h.table, fun heq => ?_⟩
  have := h.paging.apart _ (by decide) 0 (by decide) (by decide) (by decide) h.table
    h.paging.identity.first heq
  exact absurd this (by decide)

theorem Grown.directory_eq (h : HeapState used m) {i : ℕ} {u : Memory} (hg : Grown used m i u)
    (hi : used / 4096 + i ≤ 1024) {d : ℕ} (hd : d < 1024) :
    entryAt u.phys directory d = entryAt m.phys directory d := by
  rw [hg.phys, entryAt_writeEntries_other _ _ hi hd (Or.inl h.table_ne.1.symm)]

theorem Grown.selfMapped (h : HeapState used m) {i : ℕ} {u : Memory} (hg : Grown used m i u)
    (hi : used / 4096 + i ≤ 1024) : SelfMapped u.phys := by
  refine h.paging.table_written (fun d hd => hg.directory_eq h hi hd) ?_
  rw [hg.phys, entryAt_writeEntries_other _ _ hi (by decide) (Or.inl h.table_ne.2.symm)]

theorem Grown.page {i : ℕ} {u : Memory} (hg : Grown used m i u)
    (hi : i < m.pages.freePageListEntries) :
    (allocPage u.pages).1 = m.pages.freePageList (m.pages.freePageListEntries - i) ∧
      FreePageStack (m.pages.freePageListEntries - (i + 1)) (allocPage u.pages).2 ∧
      ∀ j ≤ m.pages.freePageListEntries - (i + 1),
        (allocPage u.pages).2.freePageList j = m.pages.freePageList j := by
  obtain ⟨top, htop⟩ : ∃ top, m.pages.freePageListEntries - i = top + 1 := ⟨_, (Nat.succ_pred_eq_of_pos
    (Nat.sub_pos_of_lt hi)).symm⟩
  have hnext : m.pages.freePageListEntries - (i + 1) = top := by omega
  have hstack := hg.stack
  rw [htop] at hstack
  obtain ⟨hpage, hrest, hbelow⟩ := hstack.allocPage_pop
  rw [hnext, htop, hpage]
  refine ⟨hg.below _ (by omega), hrest, fun j hj => ?_⟩
  rw [hbelow j hj]
  exact hg.below j (by omega)

theorem stack_entry {top : ℕ} {a : PageAllocator.Allocator} (h : FreePageStack top a) {j : ℕ} (hj : j ≤ top) :
    makePTEphys (a.freePageList j) mappedFlags = a.freePageList j + 3 ∧ a.freePageList j % 4096 = 0 := by
  have haligned := h.aligned j hj
  rw [show (0xFFF : ℕ) = 2 ^ 12 - 1 from rfl, and_lowMask] at haligned
  have hflags : mappedFlags % 4096 = 3 := by decide
  rw [makePTEphys_eq mappedFlags (h.word j hj), hflags]
  omega

theorem Grown.pass (h : HeapState used m) {i : ℕ} {u : Memory} (hg : Grown used m i u)
    (hused : used ≤ 0x400000) (hpages : i < m.pages.freePageListEntries)
    (hroom : used / 4096 + i < 1024) (free fuel : ℕ) :
    ∃ v, growHeap (fuel + 1) ⟨i, free, u⟩ = some ⟨i + 1, wadd free pageSize, v⟩ ∧
      Grown used m (i + 1) v := by
  obtain ⟨hpage, hstack, hbelow⟩ := hg.page hpages
  have hentry := (stack_entry h.stack (Nat.sub_le m.pages.freePageListEntries i)).1
  have hvirt : wadd (u.vHeapMappedLimit &&& pageMask) (wmul pageSize i) =
      vKernelHeapAddr + (used / 4096 + i) * 4096 := by
    rw [hg.limit, h.limit]
    exact newPage_eq (by omega) (by omega)
  have hself := hg.selfMapped h hroom.le
  obtain ⟨hdir, hindex⟩ := heap_page hroom
  have htable : entryAt (allocated u).phys directory heapSlot = entryAt m.phys directory heapSlot :=
    hg.directory_eq h hroom.le (by decide)
  have hword : vKernelHeapAddr + (used / 4096 + i) * 4096 < wordSize := by
    rw [vKernelHeapAddr, wordSize_eq]
    omega
  have hpresent : present (entryAt (allocated u).phys directory
      (virt2Dir (vKernelHeapAddr + (used / 4096 + i) * 4096))) := by
    rw [hdir, htable]
    exact h.table
  have hmap := @mapPageHelper_present (allocated u) (vKernelHeapAddr + (used / 4096 + i) * 4096)
    (m.pages.freePageList (m.pages.freePageListEntries - i)) mappedFlags hself.identity hself.window
    hword hpresent fuel
  rw [hdir, htable, hindex, hentry] at hmap
  refine ⟨{ allocated u with
    phys := Function.update u.phys (entryIndex (heapTable m.phys) (used / 4096 + i))
      (m.pages.freePageList (m.pages.freePageListEntries - i) + 3) }, ?_, ?_⟩
  · simp only [growHeap, hvirt, hpage, hmap, Option.bind_eq_bind, Option.bind_some, Option.pure_def]
    rfl
  · refine ⟨hg.limit, hstack, hbelow, ?_⟩
    rw [← writeEntries_succ, ← hg.phys]
    exact congrArg (fun w => Function.update u.phys w _) (Nat.add_assoc _ _ _).symm

/-- A request within the first heap table, with pages enough on the list. -/
structure Affordable (used nbytes : ℕ) (m : Memory) : Prop where
  positive : 0 < nbytes
  inTable : used + nbytes ≤ 0x400000
  pages : passes used nbytes ≤ m.pages.freePageListEntries

/-- The pages that are mapped lie in the first heap table. -/
theorem Affordable.range (h : Affordable used nbytes m) : used / 4096 + passes used nbytes ≤ 1024 := by
  have hroom := h.inTable
  unfold passes
  omega

structure SbrkInvariant (used nbytes : ℕ) (m : Memory) (s : SbrkLoop) : Prop where
  grown : Grown used m s.i s.memory
  free : s.free = ((used + 4095) / 4096 + s.i) * 4096 - used
  passes : s.i ≤ passes used nbytes

theorem sbrkInvariant_start (h : HeapState used m) (hcall : Affordable used nbytes m) :
    SbrkInvariant used nbytes m ⟨0, untilEndOfPage m.vHeapMappedLimit, m⟩ := by
  have hroom := hcall.inTable
  refine ⟨grown_start h.stack, ?_, Nat.zero_le _⟩
  rw [h.limit, untilEndOfPage_eq (by omega)]
  rfl

theorem SbrkInvariant.continues_iff {s : SbrkLoop} (hs : SbrkInvariant used nbytes m s) :
    s.free < nbytes ↔ s.i < Heap.passes used nbytes := by
  rw [hs.free, Heap.passes]
  omega

theorem SbrkInvariant.pass (h : HeapState used m) (hcall : Affordable used nbytes m) {s : SbrkLoop}
    (hs : SbrkInvariant used nbytes m s) (hfree : s.free < nbytes) (fuel : ℕ) :
    ∃ t, growHeap (fuel + 1) s = some t ∧ t.i = s.i + 1 ∧ SbrkInvariant used nbytes m t := by
  have hi := hs.continues_iff.mp hfree
  have hpages := hcall.pages
  have hroom := hcall.inTable
  have hpassed := hi
  rw [Heap.passes] at hpassed
  obtain ⟨v, hv, hg⟩ := hs.grown.pass h (by omega) (by omega) (by omega) s.free fuel
  refine ⟨_, hv, rfl, hg, ?_, hi⟩
  have hnext : s.free + 4096 = ((used + 4095) / 4096 + (s.i + 1)) * 4096 - used := by
    rw [hs.free]
    omega
  have hlt : s.free + 4096 < wordSize := by
    rw [wordSize_eq]
    omega
  exact (wadd_of_lt hlt).trans hnext

theorem growHeap_onlyPaging {fuel : ℕ} {s t : SbrkLoop} (h : growHeap fuel s = some t) :
    OnlyPaging s.memory t.memory := by
  obtain ⟨u, hu, ht⟩ := Option.bind_eq_some_iff.mp h
  rw [← Option.some.inj ht]
  exact allocated_onlyPaging.trans (mapPageHelper_onlyPaging hu)

/-- Whatever its loop does, `sbrk` returns the old limit and moves it. -/
theorem sbrk_limit {fuel p : ℕ} {u : Memory} (hrun : sbrk fuel nbytes m = some (p, u)) :
    p = m.vHeapMappedLimit ∧ u = { m with
      phys := u.phys, pages := u.pages, vHeapMappedLimit := wadd m.vHeapMappedLimit nbytes } := by
  obtain ⟨s, hs, heq⟩ := Option.map_eq_some_iff.mp hrun
  have hstart : OnlyPaging m m := rfl
  have honly : OnlyPaging m s.memory := (whileLoop_invariant (fun t : SbrkLoop => OnlyPaging m t.memory)
    (fun _ _ hI _ ht => hI.trans (growHeap_onlyPaging ht)) hstart hs).1
  obtain ⟨rfl, rfl⟩ := Prod.mk.inj heq
  rw [honly]
  exact ⟨rfl, rfl⟩

theorem growHeap_zero (s : SbrkLoop) : growHeap 0 s = none := rfl

theorem sbrk_returns (h : HeapState used m) (hcall : Affordable used nbytes m) :
    ∃ fuel p u, sbrk fuel nbytes m = some (p, u) := by
  obtain ⟨s, hs, _⟩ := whileLoop_total (c := fun s => decide (s.free < nbytes))
    (b := growHeap (passes used nbytes + 1))
    (fun k s => SbrkInvariant used nbytes m s ∧ s.i + k = passes used nbytes)
    (fun k s hI => by
      have hfree := hI.1.continues_iff.mpr (by omega)
      obtain ⟨t, ht, hi, hinv⟩ := hI.1.pass h hcall hfree (passes used nbytes)
      exact ⟨decide_eq_true hfree, t, ht, hinv, by omega⟩)
    (fun s hI => decide_eq_false fun hfree => by
      have := hI.1.continues_iff.mp hfree
      omega)
    ⟨sbrkInvariant_start h hcall, Nat.zero_add _⟩
  exact ⟨passes used nbytes + 1, (moveLimit nbytes s).1, (moveLimit nbytes s).2,
    by rw [sbrk, hs, Option.map_some]⟩

/-- What `sbrk` leaves: the old limit as its result, the limit moved, `passes` pages mapped. -/
theorem sbrk_spec (h : HeapState used m) (hcall : Affordable used nbytes m) {fuel p : ℕ} {u : Memory}
    (hrun : sbrk fuel nbytes m = some (p, u)) :
    p = m.vHeapMappedLimit ∧ ∃ v, Grown used m (passes used nbytes) v ∧
      u = { v with vHeapMappedLimit := m.vHeapMappedLimit + nbytes } := by
  obtain ⟨s, hs, heq⟩ := Option.map_eq_some_iff.mp hrun
  obtain ⟨hinv, hstop⟩ := whileLoop_invariant (SbrkInvariant used nbytes m)
    (fun s t hI hc ht => by
      cases fuel with
      | zero => rw [growHeap_zero] at ht; cases ht
      | succ fuel =>
        obtain ⟨t', ht', _, hinv⟩ := hI.pass h hcall (of_decide_eq_true hc) fuel
        rw [ht'] at ht
        exact Option.some.inj ht ▸ hinv)
    (sbrkInvariant_start h hcall) hs
  have hi : s.i = passes used nbytes := by
    have hnot := hinv.continues_iff.not.mp (of_decide_eq_false hstop)
    have hle := hinv.passes
    omega
  have hroom := hcall.inTable
  have hlimit : wadd s.memory.vHeapMappedLimit nbytes = m.vHeapMappedLimit + nbytes := by
    rw [hinv.grown.limit, wadd_of_lt]
    rw [h.limit, vKernelHeapAddr, wordSize_eq]
    omega
  rw [moveLimit, hlimit] at heq
  obtain ⟨rfl, rfl⟩ := Prod.mk.inj heq
  exact ⟨hinv.grown.limit, s.memory, hi ▸ hinv.grown, rfl⟩

theorem Grown.table_eq (h : HeapState used m) {i : ℕ} {u : Memory} (hg : Grown used m i u)
    (hi : used / 4096 + i ≤ 1024) :
    entryAt u.phys directory heapSlot = entryAt m.phys directory heapSlot ∧
      heapTable u.phys = heapTable m.phys := by
  have hslot := hg.directory_eq h hi (d := heapSlot) (by decide)
  exact ⟨hslot, congrArg frame hslot⟩

theorem Grown.entry_kept {i : ℕ} {u : Memory} (hg : Grown used m i u) (hi : used / 4096 + i ≤ 1024)
    {j : ℕ} (hj : j < 1024) (hout : j < used / 4096 ∨ used / 4096 + i ≤ j) :
    entryAt u.phys (heapTable m.phys) j = entryAt m.phys (heapTable m.phys) j := by
  rw [hg.phys, entryAt_writeEntries_other _ _ hi hj (Or.inr hout)]

theorem Grown.entry_new {i : ℕ} {u : Memory} (hg : Grown used m i u) {j : ℕ}
    (hlo : used / 4096 ≤ j) (hhi : j < used / 4096 + i) :
    entryAt u.phys (heapTable m.phys) j =
      m.pages.freePageList (m.pages.freePageListEntries - (j - used / 4096)) + 3 := by
  rw [hg.phys, entryAt_writeEntries _ _ hlo hhi]

/-- A page of the grown heap is one of before or one that the call took from the list. -/
theorem Grown.entry_cases {v : Memory} (hg : Grown used m (passes used nbytes) v)
    (hcall : Affordable used nbytes m)
    (hfit : used % pageSize = 0 ∨ nbytes ≤ pageSize - used % pageSize) {j : ℕ}
    (hj : j * 4096 < used + nbytes) :
    (j * 4096 < used ∧ entryAt v.phys (heapTable m.phys) j = entryAt m.phys (heapTable m.phys) j) ∨
      ∃ k < passes used nbytes, entryAt v.phys (heapTable m.phys) j =
        m.pages.freePageList (m.pages.freePageListEntries - k) + 3 := by
  have hroom := hcall.inTable
  have hrange := hcall.range
  rw [pageSize] at hfit
  by_cases hold : j * 4096 < used ∧ (j < used / 4096 ∨ used / 4096 + passes used nbytes ≤ j)
  · exact Or.inl ⟨hold.1, hg.entry_kept hrange (by omega) hold.2⟩
  · have hnew : used / 4096 ≤ j ∧ j < used / 4096 + passes used nbytes := by
      unfold passes at hold ⊢
      omega
    exact Or.inr ⟨j - used / 4096, by omega, hg.entry_new hnew.1 hnew.2⟩

theorem present_page {a : ℕ} (ha : a % 4096 = 0) : present (a + 3) := by
  unfold present
  omega

theorem HeapState.grown (h : HeapState used m) (hcall : Affordable used nbytes m)
    (hfit : used % pageSize = 0 ∨ nbytes ≤ pageSize - used % pageSize) {v : Memory}
    (hg : Grown used m (passes used nbytes) v) :
    HeapState (used + nbytes)
      { v with vHeapMappedLimit := m.vHeapMappedLimit + nbytes } := by
  have hroom := hcall.inTable
  have hpages := hcall.pages
  have hrange := hcall.range
  have hstack := hg.stack
  have hentries := hstack.entries
  obtain ⟨hslot, htable⟩ := hg.table_eq h hrange
  refine ⟨hg.selfMapped h hrange, ?_, ?_, ?_, ?_⟩
  · rw [hslot]
    exact h.table
  · dsimp only
    rw [h.limit, Nat.add_assoc]
  · rw [← hentries] at hstack
    exact hstack
  · intro j hj
    dsimp only
    rw [htable, hentries]
    rcases hg.entry_cases hcall hfit hj with ⟨hold, hkept⟩ | ⟨k, hk, hnew⟩
    · obtain ⟨a, ha, hentry, hfree⟩ := h.mapped j hold
      refine ⟨a, ha, by rw [hkept, hentry], fun i hi => ?_⟩
      rw [hg.below i hi]
      exact hfree i (by omega)
    · refine ⟨_, (stack_entry h.stack (Nat.sub_le _ k)).2, hnew, fun i hi heq => ?_⟩
      rw [hg.below i hi] at heq
      have := h.stack.distinct i _ (by omega) (Nat.sub_le _ _) heq
      omega

theorem sbrk_sound (h : HeapState used m) (hcall : Affordable used nbytes m) {v : Memory}
    (hfit : used % pageSize = 0 ∨ nbytes ≤ pageSize - used % pageSize)
    (hg : Grown used m (passes used nbytes) v) :
    SbrkSound m nbytes m.vHeapMappedLimit
      { v with vHeapMappedLimit := m.vHeapMappedLimit + nbytes } := by
  have hroom := hcall.inTable
  have hrange := hcall.range
  have hstate := h.grown hcall hfit hg
  obtain ⟨hslot, htable⟩ := hg.table_eq h hrange
  have hlimit := h.limit
  rw [pageSize] at hfit
  refine ⟨rfl, rfl, ?_, ?_⟩
  · intro a hlo hhi
    dsimp only at hhi ⊢
    obtain ⟨x, rfl⟩ := Nat.exists_eq_add_of_le hlo
    obtain ⟨b, hb, hentry, _⟩ := hstate.mapped (x / 4096) (by omega)
    rw [heap_walk hstate.table (by omega), hentry, if_pos (present_page hb)]
    rfl
  · intro a hlo hhi
    dsimp only at hhi ⊢
    obtain ⟨x, rfl⟩ := Nat.exists_eq_add_of_le hlo
    have hkept := hg.entry_kept hrange (j := x / 4096) (by omega) (by
      unfold passes
      omega)
    rw [heap_walk (by rw [hslot]; exact h.table) (by omega), heap_walk h.table (by omega), hslot, htable,
      hkept]

/-- A request that leaves its page remaps the page that holds the limit. -/
theorem sbrk_unsound (h : HeapState used m) (hcall : Affordable used nbytes m) {v : Memory} {p : ℕ}
    (hfit : ¬ (used % pageSize = 0 ∨ nbytes ≤ pageSize - used % pageSize))
    (hg : Grown used m (passes used nbytes) v) :
    ¬ SbrkSound m nbytes p { v with vHeapMappedLimit := m.vHeapMappedLimit + nbytes } := by
  intro hsound
  have hrange := hcall.range
  rw [pageSize] at hfit
  have hpass : 0 < passes used nbytes := by
    unfold passes
    omega
  obtain ⟨hslot, htable⟩ := hg.table_eq h hrange
  obtain ⟨a, ha, hentry, hfree⟩ := h.mapped (used / 4096) (by omega)
  have hkept := hsound.kept (vKernelHeapAddr + used / 4096 * 4096) (by omega)
    (by rw [h.limit]; omega)
  have hpage : used / 4096 * 4096 / 4096 = used / 4096 := Nat.mul_div_cancel _ (by decide)
  have hnew := hg.entry_new (le_refl (used / 4096)) (by omega)
  rw [Nat.sub_self, Nat.sub_zero] at hnew
  dsimp only at hkept
  rw [heap_walk (by rw [hslot]; exact h.table) (by omega), heap_walk h.table (by omega), hslot, htable,
    hpage, hnew, hentry, if_pos (present_page ha),
    if_pos (present_page (stack_entry h.stack (le_refl _)).2)] at hkept
  simp only [Option.some.injEq, Prod.mk.injEq, true_and] at hkept
  exact hfree _ (le_refl _) (by omega)

end Sbrk

section Boot
variable {m : Memory} {x : ℕ} {ram : Phys}

def heapTableInstalled (m : Memory) : Memory :=
  { m with phys := Function.update m.phys (entryIndex directory heapSlot) 0x7003 }

def firstPageInstalled (m : Memory) : Memory :=
  { allocated m with
    phys := Function.update m.phys (entryIndex 7 0) (makePTEphys (allocPage m.pages).1 mappedFlags) }

def windowInstalled (m : Memory) : Memory :=
  { m with phys := Function.update m.phys (entryIndex directory windowSlot) 0x4003 }

theorem boot_identity (hlo : kernelPhysAddr < x) (hhi : x ≤ 0x400000) {t : ℕ} (ht : t < 256) :
    IdentityMapped (bootTables ram x) t := by
  have hfirst : entryAt (bootTables ram x) directory 0 = 0x5003 :=
    bootTables_directory hlo hhi (by decide)
  have hflags : mappedFlags % 4096 = 3 := by decide
  have hentry : entryAt (bootTables ram x) 5 t = 4096 * t + 3 := by
    rw [bootTables_identity hlo hhi (by omega), if_pos, presentEntry, makePTEphys_eq mappedFlags, hflags]
    · omega
    · rw [wordSize_eq]
      omega
    · rw [kernelPhysAddr] at hlo
      omega
  refine ⟨?_, ?_, ?_⟩
  · rw [hfirst]
    decide
  · rw [hfirst]
    change present (entryAt _ 5 t)
    rw [hentry, present]
    omega
  · rw [hfirst]
    change frame (entryAt _ 5 t) = t
    rw [hentry, frame]
    omega

theorem installed_first (hlo : kernelPhysAddr < x) (hhi : x ≤ 0x400000)
    (hphys : m.phys = bootTables ram x) :
    entryAt (heapTableInstalled m).phys directory 0 = 0x5003 := by
  rw [heapTableInstalled, hphys, entryAt_update_index _ (by decide) (by decide) (by decide)]
  exact bootTables_directory hlo hhi (by decide)

theorem installed_identity (hlo : kernelPhysAddr < x) (hhi : x ≤ 0x400000)
    (hphys : m.phys = bootTables ram x) {t : ℕ} (ht : t < 256) :
    IdentityMapped (heapTableInstalled m).phys t := by
  have hfirst : entryAt (bootTables ram x) directory 0 = 0x5003 :=
    bootTables_directory hlo hhi (by decide)
  rw [heapTableInstalled, hphys]
  refine (boot_identity hlo hhi ht).update_directory (by omega) ?_ (by decide) (by decide) _
  rw [hfirst]
  decide

theorem firstPage_identity (hlo : kernelPhysAddr < x) (hhi : x ≤ 0x400000)
    (hphys : m.phys = bootTables ram x) :
    IdentityMapped (firstPageInstalled (heapTableInstalled m)).phys directory := by
  refine (installed_identity hlo hhi hphys (t := directory) (by decide)).congr
    (entryAt_update_frame _ (by decide) (by decide) (by decide)) ?_
  refine entryAt_update_frame _ (by decide) (by decide) ?_
  rw [installed_first hlo hhi hphys]
  decide

theorem initHeap_eq (hlo : kernelPhysAddr < x) (hhi : x ≤ 0x400000) (hphys : m.phys = bootTables ram x) :
    initHeap m = some (windowInstalled (firstPageInstalled (heapTableInstalled m))) := by
  have hid : IdentityMapped m.phys directory := hphys ▸ boot_identity hlo hhi (by decide)
  have hstore1 : storeWord m (element pKernelPageDirectory (virt2Dir vKernelHeapAddr))
      (makePTEphys pPageTableHeap1 mappedFlags) = some (heapTableInstalled m) :=
    hid.store_directory (by decide) _
  have hstore2 : storeWord (allocated (heapTableInstalled m)) (element pPageTableHeap1 0)
      (makePTEphys (allocPage (heapTableInstalled m).pages).1 mappedFlags) =
      some (firstPageInstalled (heapTableInstalled m)) :=
    IdentityMapped.store (m := allocated (heapTableInstalled m)) (t := 7)
      (installed_identity hlo hhi hphys (by decide)) (by decide) (by decide) _
  have hstore3 : storeWord (firstPageInstalled (heapTableInstalled m))
      (element pKernelPageDirectory (virt2Dir vKernelPageTable1))
      (makePTEphys pKernelPageDirectory mappedFlags) =
      some (windowInstalled (firstPageInstalled (heapTableInstalled m))) :=
    (firstPage_identity hlo hhi hphys).store_directory (by decide) _
  simp only [initHeap, hstore1, hstore2, hstore3, Option.bind_eq_bind, Option.bind_some]

/-- The directory that `init_heap` leaves: four tables. -/
theorem heapReady_directory (hlo : kernelPhysAddr < x) (hhi : x ≤ 0x400000)
    (hphys : m.phys = bootTables ram x) {d : ℕ} (hd : d < 1024) :
    entryAt (windowInstalled (firstPageInstalled (heapTableInstalled m))).phys directory d =
      if d = windowSlot then 0x4003 else if d = heapSlot then 0x7003 else
        if d = 0 then 0x5003 else if d = 768 then 0x6003 else 0x2 := by
  rw [windowInstalled]
  by_cases hw : d = windowSlot
  · rw [hw, entryAt_update_same, if_pos rfl]
  · rw [entryAt_update_index _ (by decide) hd hw, if_neg hw, firstPageInstalled,
      entryAt_update_frame _ (by decide) hd (by decide), heapTableInstalled]
    by_cases hh : d = heapSlot
    · rw [hh, entryAt_update_same, if_pos rfl]
    · rw [entryAt_update_index _ (by decide) hd hh, if_neg hh, hphys]
      exact bootTables_directory hlo hhi hd

theorem selfMapped_of_directory {m : Phys} (hid : IdentityMapped m directory)
    (hdir : ∀ d < 1024, entryAt m directory d =
      if d = windowSlot then 0x4003 else if d = heapSlot then 0x7003 else
        if d = 0 then 0x5003 else if d = 768 then 0x6003 else 0x2) : SelfMapped m := by
  refine ⟨hid, ?_, ?_, ?_⟩
  · rw [hdir windowSlot (by decide)]
    decide
  · intro d hd hw hp
    rw [hdir d hd, if_neg hw] at hp ⊢
    split_ifs at hp ⊢
    all_goals revert hp
    all_goals decide
  · intro d hd e he hdw hew hpd hpe hframe
    rw [hdir d hd, if_neg hdw] at hpd hframe
    rw [hdir e he, if_neg hew] at hpe hframe
    split_ifs at hpd hpe hframe
    all_goals first
      | exact absurd hpd (by decide)
      | exact absurd hpe (by decide)
      | exact absurd hframe (by decide)
      | omega

theorem heapReady_selfMapped (hlo : kernelPhysAddr < x) (hhi : x ≤ 0x400000)
    (hphys : m.phys = bootTables ram x) :
    SelfMapped (windowInstalled (firstPageInstalled (heapTableInstalled m))).phys := by
  have hfirst : entryAt (firstPageInstalled (heapTableInstalled m)).phys directory 0 = 0x5003 :=
    (entryAt_update_frame _ (by decide) (by decide) (by decide)).trans (installed_first hlo hhi hphys)
  exact selfMapped_of_directory ((firstPage_identity hlo hhi hphys).update_directory (by decide)
    (by rw [hfirst]; decide) (by decide) (by decide) _) fun d hd => heapReady_directory hlo hhi hphys hd

theorem initHeap_heapState (ram : Phys) {sysInfo : SystemInfo} (h : Admissible sysInfo)
    (hlimit : virt2Phys sysInfo.kernelEnd + sysInfo.totalMemory / 1024 ≤ 0x400000)
    (list : ℕ → ℕ) :
    ∃ b u, initVirtMem wordSize sysInfo (staticMemory ram list) = some b ∧ initHeap b = some u ∧
      HeapState 0 u := by
  obtain ⟨s, haddr, hs, hrun⟩ := initVirtMem_eq h (staticMemory ram list) (le_refl wordSize)
  have hP := h.freeMemoryStart (staticMemory ram list)
  have hkernel := h.above_kernel
  have hfits := h.fits
  have hkernel' := hkernel
  rw [kernelPhysAddr] at hkernel'
  have hlo : kernelPhysAddr < (markKernelEnd sysInfo (staticMemory ram list)).pFreeMemoryStart := by omega
  have hhi : (markKernelEnd sysInfo (staticMemory ram list)).pFreeMemoryStart ≤ 0x400000 := by omega
  have hphys : (markFreePages (pagingEnabled sysInfo (staticMemory ram list)) s).phys =
      bootTables ram (markKernelEnd sysInfo (staticMemory ram list)).pFreeMemoryStart := rfl
  have hstack := hs.stack (m := pagingEnabled sysInfo (staticMemory ram list)) haddr (by omega) (by omega)
    h.totalMemory_aligned h.totalMemory_word rfl
  refine ⟨_, _, hrun, initHeap_eq hlo hhi hphys, heapReady_selfMapped hlo hhi hphys, ?_, rfl,
    hstack.after_allocPage, fun j hj => absurd hj (Nat.not_lt_zero _)⟩
  rw [heapReady_directory hlo hhi hphys (by decide)]
  decide

end Boot

theorem heapIntegrity_from {m : Memory} {used : ℕ} {requests : List ℕ} (h : HeapState used m)
    (hpos : ∀ nbytes ∈ requests, 0 < nbytes) (hroom : used + requests.sum ≤ 0x400000)
    (hpages : passes used requests.sum ≤ m.pages.freePageListEntries) :
    HeapIntegrity m requests ↔ StaysInPage used requests := by
  induction requests generalizing m used with
  | nil => simp [HeapIntegrity, StaysInPage]
  | cons nbytes requests ih =>
    rw [List.sum_cons] at hroom hpages
    have hcall : Affordable used nbytes m := by
      refine ⟨hpos nbytes (List.mem_cons_self ..), by omega, ?_⟩
      unfold passes at hpages ⊢
      omega
    have hrest : ∀ v, Grown used m (passes used nbytes) v →
        (used % pageSize = 0 ∨ nbytes ≤ pageSize - used % pageSize) →
        (HeapIntegrity { v with vHeapMappedLimit := m.vHeapMappedLimit + nbytes } requests ↔
          StaysInPage (used + nbytes) requests) := by
      intro v hg hfit
      have hentries := hg.stack.entries
      refine ih (h.grown hcall hfit hg) (fun k hk => hpos k (List.mem_cons_of_mem _ hk)) (by omega) ?_
      dsimp only
      rw [hentries]
      unfold passes at hpages ⊢
      omega
    rw [HeapIntegrity, StaysInPage]
    constructor
    · rintro ⟨fuel, p, u, hrun, hsound, hnext⟩
      obtain ⟨rfl, v, hg, rfl⟩ := sbrk_spec h hcall hrun
      have hfit : used % pageSize = 0 ∨ nbytes ≤ pageSize - used % pageSize := by
        by_contra hfit
        exact sbrk_unsound h hcall hfit hg hsound
      exact ⟨hfit, (hrest v hg hfit).mp hnext⟩
    · rintro ⟨hfit, hnext⟩
      obtain ⟨fuel, p, u, hrun⟩ := sbrk_returns h hcall
      obtain ⟨rfl, v, hg, rfl⟩ := sbrk_spec h hcall hrun
      exact ⟨fuel, _, _, hrun, sbrk_sound h hcall hfit hg, (hrest v hg hfit).mpr hnext⟩

/-- From the heap that `init_heap` leaves: what is handed out is kept exactly when no request that starts
inside a page leaves that page. -/
theorem heapIntegrity_iff {m : Memory} {requests : List ℕ} (h : HeapState 0 m)
    (hpos : ∀ nbytes ∈ requests, 0 < nbytes) (hroom : requests.sum ≤ 0x400000)
    (hpages : requests.sum ≤ 4096 * m.pages.freePageListEntries) :
    HeapIntegrity m requests ↔ StaysInPage 0 requests := by
  refine heapIntegrity_from h hpos (by omega) ?_
  unfold passes
  omega

theorem smallKernel_heapState : HeapState 0 smallKernel := by
  refine ⟨smallKernel_selfMapped, by decide, rfl, threePages_stack, fun j hj => ?_⟩
  exact absurd hj (Nat.not_lt_zero _)

theorem heapIntegrity_smallKernel :
    HeapIntegrity smallKernel [4096, 100] ↔ StaysInPage 0 [4096, 100] :=
  heapIntegrity_iff smallKernel_heapState (by decide) (by decide) (by decide)

/-- The second request starts at byte 100 of a page and ends two pages further. -/
theorem heapIntegrity_fails : HeapState 0 smallKernel ∧ ¬ HeapIntegrity smallKernel [100, 8000] := by
  refine ⟨smallKernel_heapState, fun h => ?_⟩
  have hstays := (heapIntegrity_from smallKernel_heapState (by decide) (by decide) (by decide)).mp h
  exact absurd hstays.2.1 (by decide)

end Ktux.Heap
