import Ktux.HeapBooks
import Ktux.HeapSpace

set_option autoImplicit false

/-!
# The kernel's page tables while the heap grows

Four tables, of which only the heap's changes. Each page it names has left the free page list, and no two of
its entries name the same page: this is kept by every request that takes its pages from above the kernel.
-/
namespace Ktux.HeapPaging
open Words MemoryLayout PageAllocator Loops TwoLevelPaging KernelMemory FreePageList MapPage Heap Kmalloc
open HeapSpace

/-- Entry `j` of a table that maps pages from `first` on, up to the one that holds `limit`. -/
def ascending (first limit j : ℕ) : ℕ := if first + 4096 * j < limit then first + 4096 * j + 3 else 2

/-- The directory, and the two tables that `init_virt_mem` fills. -/
structure KernelTables (start : ℕ) (m : Phys) : Prop where
  dir : ∀ d < 1024, entryAt m directory d =
    if d = windowSlot then 0x4003 else if d = heapSlot then 0x7003 else
      if d = 0 then 0x5003 else if d = 768 then 0x6003 else 2
  identity : ∀ j < 1024, entryAt m 5 j = ascending 0 start j
  kernel : ∀ j < 1024, entryAt m 6 j = ascending kernelPhysAddr start j

/-- A page above the kernel and the list that is not on the list. -/
structure TakenPage (m : Memory) (a : ℕ) : Prop where
  aligned : a % 4096 = 0
  above : m.pFreeMemoryStart ≤ a
  off : ∀ i ≤ m.pages.freePageListEntries, m.pages.freePageList i ≠ a

structure PagedHeap (m : Memory) : Prop where
  start : kernelPhysAddr < m.pFreeMemoryStart
  fits : m.pFreeMemoryStart ≤ 0x400000
  limit : ∃ used ≤ 0x401000, m.vHeapMappedLimit = vKernelHeapAddr + used
  tables : KernelTables m.pFreeMemoryStart m.phys
  stack : FreePageStack m.pages.freePageListEntries m.pages
  heap : ∀ j < 1024, present (entryAt m.phys heapTableFrame j) →
    ∃ a, entryAt m.phys heapTableFrame j = a + 3 ∧ TakenPage m a
  apart : ∀ j < 1024, ∀ k < 1024, present (entryAt m.phys heapTableFrame j) →
    present (entryAt m.phys heapTableFrame k) →
    frame (entryAt m.phys heapTableFrame j) = frame (entryAt m.phys heapTableFrame k) → j = k

/-- The next `count` pages of the list are there, and they lie above the kernel and the list. -/
structure Spare (count : ℕ) (m : Memory) : Prop where
  enough : count ≤ m.pages.freePageListEntries
  above : ∀ k < count, m.pFreeMemoryStart ≤ m.pages.freePageList (m.pages.freePageListEntries - k)

section Tables
variable {m u : Phys} {start : ℕ}

theorem KernelTables.congr (h : KernelTables start m)
    (hsame : ∀ t j, t = directory ∨ t = 5 ∨ t = 6 → j < 1024 → entryAt u t j = entryAt m t j) :
    KernelTables start u := by
  refine ⟨fun d hd => ?_, fun j hj => ?_, fun j hj => ?_⟩
  · rw [hsame _ _ (Or.inl rfl) hd]
    exact h.dir d hd
  · rw [hsame _ _ (Or.inr (Or.inl rfl)) hj]
    exact h.identity j hj
  · rw [hsame _ _ (Or.inr (Or.inr rfl)) hj]
    exact h.kernel j hj

theorem KernelTables.slots (h : KernelTables start m) {d : ℕ} (hd : d < 1024)
    (hp : present (entryAt m directory d)) : d = windowSlot ∨ d = heapSlot ∨ d = 0 ∨ d = 768 := by
  rw [h.dir d hd] at hp
  split_ifs at hp with hw hh h0 hk
  · exact Or.inl hw
  · exact Or.inr (Or.inl hh)
  · exact Or.inr (Or.inr (Or.inl h0))
  · exact Or.inr (Or.inr (Or.inr hk))
  · exact absurd hp (by decide)

theorem KernelTables.frame_small (h : KernelTables start m) {d : ℕ} (hd : d < 1024) :
    frame (entryAt m directory d) < 8 := by
  rw [h.dir d hd]
  split_ifs
  all_goals decide

theorem KernelTables.identityMapped (h : KernelTables start m) {t : ℕ} (ht : t < 1024)
    (hlt : 4096 * t < start) : IdentityMapped m t := by
  have hfirst : entryAt m directory 0 = 0x5003 := h.dir 0 (by decide)
  have hframe : frame (entryAt m directory 0) = 5 := by
    rw [hfirst]
    decide
  have hentry : entryAt m 5 t = 4096 * t + 3 := by
    rw [h.identity t ht, ascending, Nat.zero_add, if_pos hlt]
  refine ⟨?_, ?_, ?_⟩
  · rw [hfirst]
    decide
  · rw [hframe, hentry, present]
    omega
  · rw [hframe, hentry, frame]
    omega

theorem KernelTables.selfMapped (h : KernelTables start m) (hstart : kernelPhysAddr < start) :
    SelfMapped m := by
  rw [kernelPhysAddr] at hstart
  exact selfMapped_of_directory (h.identityMapped (by decide) (by rw [directory]; omega)) h.dir

theorem KernelTables.heapDirectory (h : KernelTables start m) : entryAt m directory heapSlot = 0x7003 :=
  h.dir heapSlot (by decide)

/-- Between the heap's first four megabytes and the window the directory names no table. -/
theorem KernelTables.missing (h : KernelTables start m) {d : ℕ} (hlo : heapSlot < d) (hhi : d < windowSlot) :
    entryAt m directory d = 2 := by
  rw [heapSlot] at hlo
  rw [windowSlot] at hhi
  rw [h.dir d (by omega), if_neg (by rw [windowSlot]; omega), if_neg (by rw [heapSlot]; omega),
    if_neg (by omega), if_neg (by omega)]

/-- The tables lie below the kernel, so a write above it leaves them. -/
theorem KernelTables.sameTables_update (h : KernelTables start m) {f i x : ℕ} (hi : i < 1024)
    (hf : 8 ≤ f ∨ f = 0) : SameTables directory m (Function.update m (entryIndex f i) x) := by
  refine TwoLevelPaging.sameTables_update hi (by rw [directory]; omega) fun d hd hp => ?_
  have hsmall := h.frame_small hd
  rcases hf with hf | rfl
  · omega
  · rw [h.dir d hd] at hp ⊢
    split_ifs at hp ⊢
    all_goals revert hp
    all_goals decide

theorem KernelTables.heap_same (h : KernelTables start m) (hsame : SameTables directory m u) {j : ℕ}
    (hj : j < 1024) : entryAt u heapTableFrame j = entryAt m heapTableFrame j := by
  have hslot := h.heapDirectory
  have htable := hsame.table heapSlot (by decide) (by rw [hslot]; decide) j hj
  rw [hslot] at htable
  exact htable

theorem KernelTables.rewrite (h : KernelTables start m) (hsame : SameTables directory m u) :
    KernelTables start u := by
  refine h.congr fun t j ht hj => ?_
  rcases ht with rfl | rfl | rfl
  · exact hsame.dir j hj
  · have hslot : entryAt m directory 0 = 0x5003 := h.dir 0 (by decide)
    have htable := hsame.table 0 (by decide) (by rw [hslot]; decide) j hj
    rw [hslot] at htable
    exact htable
  · have hslot : entryAt m directory 768 = 0x6003 := h.dir 768 (by decide)
    have htable := hsame.table 768 (by decide) (by rw [hslot]; decide) j hj
    rw [hslot] at htable
    exact htable

end Tables

section Pages
variable {m u : Memory} {j : ℕ}

/-- Data may change, and the limit may move. -/
theorem PagedHeap.rewrite (h : PagedHeap m) (hsame : SameTables directory m.phys u.phys)
    (hpages : u.pages = m.pages) (hstart : u.pFreeMemoryStart = m.pFreeMemoryStart)
    (hlimit : ∃ used ≤ 0x401000, u.vHeapMappedLimit = vKernelHeapAddr + used) : PagedHeap u := by
  have hentry : ∀ j < 1024, entryAt u.phys heapTableFrame j = entryAt m.phys heapTableFrame j :=
    fun j hj => h.tables.heap_same hsame hj
  refine ⟨?_, ?_, hlimit, ?_, ?_, fun j hj hp => ?_, fun j hj k hk hpj hpk hframe => ?_⟩
  · rw [hstart]
    exact h.start
  · rw [hstart]
    exact h.fits
  · rw [hstart]
    exact h.tables.rewrite hsame
  · rw [hpages]
    exact h.stack
  · rw [hentry j hj] at hp ⊢
    obtain ⟨a, ha, htaken⟩ := h.heap j hj hp
    refine ⟨a, ha, htaken.aligned, ?_, ?_⟩
    · rw [hstart]
      exact htaken.above
    · rw [hpages]
      exact htaken.off
  · rw [hentry j hj] at hpj hframe
    rw [hentry k hk] at hpk hframe
    exact h.apart j hj k hk hpj hpk hframe

theorem TakenPage.allocated (h : FreePageStack m.pages.freePageListEntries m.pages) {a : ℕ}
    (ha : TakenPage m a) : TakenPage (allocated m) a := by
  obtain ⟨hentries, hrest⟩ := allocPage_rest h
  refine ⟨ha.aligned, ha.above, fun i hi => ?_⟩
  rw [hrest i hi]
  exact ha.off i (by omega)

theorem PagedHeap.allocated (h : PagedHeap m) : PagedHeap (allocated m) :=
  ⟨h.start, h.fits, h.limit, h.tables, h.stack.after_allocPage,
    fun j hj hp => (h.heap j hj hp).imp fun _ ha => ⟨ha.1, ha.2.allocated h.stack⟩, h.apart⟩

/-- The page that `alloc_page` hands out. -/
theorem allocPage_top (h : FreePageStack m.pages.freePageListEntries m.pages)
    (hpos : 0 < m.pages.freePageListEntries) :
    (allocPage m.pages).1 = m.pages.freePageList m.pages.freePageListEntries := by
  have hsmall := h.small
  rw [allocPage_pop h.initialized hpos.ne' (h.nonzero _ le_rfl) (by omega)]

theorem Spare.takenPage (h : FreePageStack m.pages.freePageListEntries m.pages) (hspare : Spare 1 m) :
    TakenPage (allocated m) (m.pages.freePageList m.pages.freePageListEntries) := by
  obtain ⟨hentries, hrest⟩ := allocPage_rest h
  have henough := hspare.enough
  have habove := hspare.above 0 Nat.one_pos
  refine ⟨(stack_entry h le_rfl).2, habove, fun i hi heq => ?_⟩
  rw [hrest i hi] at heq
  have := h.distinct i _ (by omega) le_rfl heq
  omega

/-- The memory with the top page of the list in entry `j` of the heap's table. -/
def pageMapped (j : ℕ) (m : Memory) : Memory :=
  { allocated m with
    phys := Function.update m.phys (entryIndex heapTableFrame j)
      (m.pages.freePageList m.pages.freePageListEntries + 3) }

theorem pageMapped_entry (j k : ℕ) (hj : j < 1024) (hk : k < 1024) :
    entryAt (pageMapped j m).phys heapTableFrame k =
      if k = j then m.pages.freePageList m.pages.freePageListEntries + 3
      else entryAt m.phys heapTableFrame k := by
  by_cases h : k = j
  · rw [if_pos h, h]
    exact entryAt_update_same _ _ _ _
  · rw [if_neg h]
    exact entryAt_update_index _ hj hk h

theorem pageMapped_self (hj : j < 1024) : entryAt (pageMapped j m).phys heapTableFrame j =
    m.pages.freePageList m.pages.freePageListEntries + 3 := by
  rw [pageMapped_entry j j hj hj, if_pos rfl]

theorem TakenPage.frame_eq {a : ℕ} (ha : TakenPage m a) : frame (a + 3) * 4096 = a := by
  have haligned := ha.aligned
  rw [frame]
  omega

theorem KernelTables.pageMapped {start : ℕ} (h : KernelTables start m.phys) (hj : j < 1024) :
    KernelTables start (pageMapped j m).phys := by
  refine h.congr fun t k ht hk => entryAt_update_frame _ hj hk ?_
  have hframe : heapTableFrame = 7 := rfl
  rw [hframe]
  rcases ht with rfl | rfl | rfl
  all_goals decide

/-- A page from above the kernel keeps the entries of the heap's table apart, whatever the entry held. -/
theorem PagedHeap.pageMapped (h : PagedHeap m) (hspare : Spare 1 m) (hj : j < 1024) :
    PagedHeap (pageMapped j m) := by
  have hnew := hspare.takenPage h.stack
  have hold : ∀ k < 1024, present (entryAt m.phys heapTableFrame k) →
      frame (entryAt m.phys heapTableFrame k) ≠
        frame (m.pages.freePageList m.pages.freePageListEntries + 3) := by
    intro k hk hp heq
    obtain ⟨a, ha, htaken⟩ := h.heap k hk hp
    refine htaken.off _ le_rfl ?_
    rw [ha] at heq
    rw [← hnew.frame_eq, ← heq, htaken.frame_eq]
  refine ⟨h.start, h.fits, h.limit, h.tables.pageMapped hj, h.stack.after_allocPage, fun k hk hp => ?_,
    fun i hi k hk hpi hpk hframe => ?_⟩
  · rw [pageMapped_entry j k hj hk] at hp ⊢
    split_ifs at hp ⊢
    · exact ⟨_, rfl, hnew.aligned, hnew.above, hnew.off⟩
    · obtain ⟨a, ha, htaken⟩ := h.allocated.heap k hk hp
      exact ⟨a, ha, htaken.aligned, htaken.above, htaken.off⟩
  · rw [pageMapped_entry j i hj hi] at hpi hframe
    rw [pageMapped_entry j k hj hk] at hpk hframe
    split_ifs at hpi hpk hframe with hij hkj hkj
    · rw [hij, hkj]
    · exact absurd hframe.symm (hold k hk hpk)
    · exact absurd hframe (hold i hi hpi)
    · exact h.apart i hi k hk hpi hpk hframe

end Pages

section Sbrk
variable {m : Memory} {used nbytes : ℕ}

/-- A pass that comes back mapped the next page in the heap's table: there is no table behind it, and
`map_page_helper` does not return without one. -/
theorem growHeap_pageMapped (h : PagedHeap m) (hlimit : m.vHeapMappedLimit = vKernelHeapAddr + used)
    (hused : used ≤ 0x401000) {i : ℕ} (hi : used / 4096 + i ≤ 1025)
    (hpos : 0 < m.pages.freePageListEntries) {free fuel : ℕ} {t : SbrkLoop}
    (hrun : growHeap fuel ⟨i, free, m⟩ = some t) :
    used / 4096 + i < 1024 ∧ t = ⟨i + 1, wadd free pageSize, pageMapped (used / 4096 + i) m⟩ := by
  have hentry := (stack_entry h.stack (le_refl m.pages.freePageListEntries)).1
  have hvirt : wadd (m.vHeapMappedLimit &&& pageMask) (wmul pageSize i) =
      vKernelHeapAddr + (used / 4096 + i) * 4096 := by
    rw [hlimit]
    exact newPage_eq hused hi
  have hword : vKernelHeapAddr + (used / 4096 + i) * 4096 < wordSize := by
    rw [vKernelHeapAddr, wordSize_eq]
    omega
  have hself : SelfMapped (allocated m).phys := h.tables.selfMapped h.start
  obtain _ | fuel := fuel
  · cases hrun
  obtain ⟨u, hu, ht⟩ := Option.bind_eq_some_iff.mp hrun
  rw [hvirt, allocPage_top h.stack hpos] at hu
  by_cases hroom : used / 4096 + i < 1024
  · obtain ⟨hdir, hindex⟩ := heap_page hroom
    have hslot : entryAt (allocated m).phys directory heapSlot = 0x7003 := h.tables.heapDirectory
    have hmap := @mapPageHelper_present (allocated m) (vKernelHeapAddr + (used / 4096 + i) * 4096)
      (m.pages.freePageList m.pages.freePageListEntries) mappedFlags hself.identity hself.window hword
      (by rw [hdir, hslot]; decide) fuel
    rw [hdir, hslot, hindex, hentry] at hmap
    obtain rfl := Option.some.inj (hmap.symm.trans hu)
    exact ⟨hroom, (Option.some.inj ht).symm⟩
  · have hdir : virt2Dir (vKernelHeapAddr + (used / 4096 + i) * 4096) = 833 := by
      rw [virt2Dir_eq, vKernelHeapAddr]
      omega
    have hindex : virt2Page (vKernelHeapAddr + (used / 4096 + i) * 4096) ≠ 833 := by
      rw [virt2Page_eq, vKernelHeapAddr]
      omega
    have hslot : entryAt (allocated m).phys directory 833 = 2 := h.tables.missing (by decide) (by decide)
    rw [never_returns hself hword (by rw [hdir, hslot]; decide) (by rw [hdir]; exact hindex)] at hu
    cases hu

/-- The state of the loop of `sbrk`, started on `m`. -/
structure Growing (used : ℕ) (m : Memory) (s : SbrkLoop) : Prop where
  paged : PagedHeap s.memory
  only : OnlyPaging m s.memory
  entries : s.memory.pages.freePageListEntries + s.i = m.pages.freePageListEntries
  below : ∀ k ≤ s.memory.pages.freePageListEntries,
    s.memory.pages.freePageList k = m.pages.freePageList k
  kept : ∀ j < 1024, j < used / 4096 ∨ used / 4096 + s.i ≤ j →
    entryAt s.memory.phys heapTableFrame j = entryAt m.phys heapTableFrame j
  free : s.free = ((used + 4095) / 4096 + s.i) * 4096 - used
  room : s.i = 0 ∨ used / 4096 + s.i ≤ 1024

theorem Growing.variables {s : SbrkLoop} (hs : Growing used m s) :
    s.memory.vHeapMappedLimit = m.vHeapMappedLimit ∧ s.memory.pFreeMemoryStart = m.pFreeMemoryStart ∧
      s.memory.freeBytes = m.freeBytes := by
  have honly := hs.only
  unfold OnlyPaging at honly
  rw [honly]
  exact ⟨rfl, rfl, rfl⟩

theorem growing_start (h : PagedHeap m) (hlimit : m.vHeapMappedLimit = vKernelHeapAddr + used)
    (hused : used ≤ 0x401000) : Growing used m ⟨0, untilEndOfPage m.vHeapMappedLimit, m⟩ := by
  refine ⟨h, rfl, rfl, fun _ _ => rfl, fun _ _ _ => rfl, ?_, Or.inl rfl⟩
  rw [hlimit, untilEndOfPage_eq hused]
  rfl

theorem Growing.continues_iff {s : SbrkLoop} (hs : Growing used m s) :
    s.free < nbytes ↔ s.i < passes used nbytes := by
  rw [hs.free, passes]
  omega

theorem Growing.pass (hlimit : m.vHeapMappedLimit = vKernelHeapAddr + used) (hused : used ≤ 0x401000)
    (hspare : Spare (passes used nbytes) m) {s t : SbrkLoop} (hs : Growing used m s)
    (hfree : s.free < nbytes) {fuel : ℕ} (hrun : growHeap fuel s = some t) : Growing used m t := by
  have hi := hs.continues_iff.mp hfree
  have hentries := hs.entries
  have henough := hspare.enough
  have hroom := hs.room
  obtain ⟨hsame, hstart, _⟩ := hs.variables
  have hpage := hs.below _ le_rfl
  have hnext : Spare 1 s.memory := by
    refine ⟨by omega, fun k hk => ?_⟩
    obtain rfl : k = 0 := by omega
    have habove := hspare.above s.i hi
    rw [Nat.sub_zero, hpage, hstart]
    rwa [show m.pages.freePageListEntries - s.i = s.memory.pages.freePageListEntries by omega] at habove
  obtain ⟨hlt, rfl⟩ := growHeap_pageMapped hs.paged (hsame.trans hlimit) hused (i := s.i) (by omega)
    (by omega) hrun
  obtain ⟨hrest, hbelow⟩ := allocPage_rest hs.paged.stack
  refine ⟨hs.paged.pageMapped hnext hlt, hs.only.trans rfl, ?_, ?_, ?_, ?_, Or.inr (by dsimp only; omega)⟩
  · change (allocated s.memory).pages.freePageListEntries + (s.i + 1) = _
    omega
  · intro k hk
    exact (hbelow k hk).trans (hs.below k (by
      change k ≤ (allocated s.memory).pages.freePageListEntries at hk
      omega))
  · intro j hj hout
    dsimp only at hout ⊢
    rw [pageMapped_entry _ j hlt hj, if_neg (by omega)]
    exact hs.kept j hj (by omega)
  · have hmore : s.free + 4096 = ((used + 4095) / 4096 + (s.i + 1)) * 4096 - used := by
      rw [hs.free]
      omega
    have hword : s.free + 4096 < wordSize := by
      rw [wordSize_eq]
      omega
    exact (wadd_of_lt hword).trans hmore

/-- What a call of `sbrk` that comes back leaves of the page tables and the list. -/
theorem sbrk_growing (h : PagedHeap m) (hlimit : m.vHeapMappedLimit = vKernelHeapAddr + used)
    (hused : used ≤ 0x401000) (hspare : Spare (passes used nbytes) m) {fuel p : ℕ} {u : Memory}
    (hrun : sbrk fuel nbytes m = some (p, u)) : used + nbytes ≤ 0x401000 ∧ ∃ s, Growing used m s ∧
      s.i = passes used nbytes ∧ u = { s.memory with vHeapMappedLimit := m.vHeapMappedLimit + nbytes } := by
  obtain ⟨s, hs, heq⟩ := Option.map_eq_some_iff.mp hrun
  have hinv := (whileLoop_invariant
    (fun s => Growing used m s ∧ s.i ≤ passes used nbytes)
    (fun s t hI hc ht => by
      have hfree := of_decide_eq_true hc
      have hi := hI.1.continues_iff.mp hfree
      obtain ⟨v, _, hv⟩ := Option.bind_eq_some_iff.mp ht
      have hnext := hI.1.pass hlimit hused hspare hfree ht
      obtain rfl := Option.some.inj hv
      exact ⟨hnext, hi⟩)
    ⟨growing_start h hlimit hused, Nat.zero_le _⟩ hs)
  obtain ⟨⟨hgrowing, hle⟩, hstop⟩ := hinv
  have hdone : s.i = passes used nbytes := by
    have hnot := hgrowing.continues_iff.not.mp (of_decide_eq_false hstop)
    omega
  have hroom := hgrowing.room
  have hfits : used + nbytes ≤ 0x401000 := by
    unfold passes at hdone
    omega
  have hmoved : wadd s.memory.vHeapMappedLimit nbytes = m.vHeapMappedLimit + nbytes := by
    rw [hgrowing.variables.1, wadd_of_lt]
    rw [hlimit, vKernelHeapAddr, wordSize_eq]
    omega
  rw [moveLimit, hmoved] at heq
  obtain ⟨_, rfl⟩ := Prod.mk.inj heq
  exact ⟨hfits, s, hgrowing, hdone, rfl⟩

end Sbrk

section Clear
variable {m u : Memory} {x val count : ℕ}

/-- A byte of the heap is written where its entry leads, above the page tables, or the write does not come
back. -/
theorem PagedHeap.writeByte (h : PagedHeap m) (hx : x < 0x401000)
    (hrun : Kmalloc.writeByte (vKernelHeapAddr + x) val m = some u) : SameTables directory m.phys u.phys := by
  obtain ⟨phys, hphys, rfl⟩ := Option.map_eq_some_iff.mp hrun
  have hstart := h.start
  rw [kernelPhysAddr] at hstart
  have hwalk : ∃ pde j, j < 1024 ∧ present (entryAt m.phys heapTableFrame j) ∧
      walk m.phys directory (vKernelHeapAddr + x) = some (pde, entryAt m.phys heapTableFrame j) := by
    by_cases hslot : x < 0x400000
    · have hp : present (entryAt m.phys directory heapSlot) := by
        rw [h.tables.heapDirectory]
        decide
      have htable : heapTable m.phys = heapTableFrame := by
        rw [heapTable, h.tables.heapDirectory]
        decide
      have hwalk := heap_walk hp hslot
      rw [htable] at hwalk
      split_ifs at hwalk with hpage
      · exact ⟨_, x / 4096, by omega, hpage, hwalk⟩
      · rw [storeByte, TwoLevelPaging.translate, hwalk] at hphys
        cases hphys
    · have hdir : dirIndex (vKernelHeapAddr + x) = 833 := by
        rw [dirIndex, vKernelHeapAddr]
        omega
      have hentry := h.tables.missing (d := 833) (by decide) (by decide)
      rw [storeByte, TwoLevelPaging.translate, walk_missing (by rw [hdir, hentry]; decide)] at hphys
      cases hphys
  obtain ⟨pde, j, hj, hp, hwalk⟩ := hwalk
  obtain ⟨a, ha, htaken⟩ := h.heap j hj hp
  have habove := htaken.above
  obtain ⟨w, hw⟩ := storeByte_of_walk (x := val) hwalk
  obtain rfl := Option.some.inj (hw.symm.trans hphys)
  refine h.tables.sameTables_update (by omega) (Or.inl ?_)
  rw [ha, frame]
  omega

theorem PagedHeap.writeByte_next (h : PagedHeap m) {k : ℕ} (hx : x + k < 0x401000)
    (hrun : Kmalloc.writeByte (wadd (vKernelHeapAddr + x) k) val m = some u) :
    SameTables directory m.phys u.phys ∧ PagedHeap u := by
  have haddr : wadd (vKernelHeapAddr + x) k = vKernelHeapAddr + (x + k) := by
    rw [wadd_of_lt, Nat.add_assoc]
    rw [vKernelHeapAddr, wordSize_eq]
    omega
  rw [haddr] at hrun
  have hsame := h.writeByte hx hrun
  have hrest := HeapBooks.writeByte_phys hrun
  refine ⟨hsame, h.rewrite hsame ?_ ?_ ?_⟩
  · rw [hrest]
  · rw [hrest]
  · rw [hrest]
    exact h.limit

theorem PagedHeap.writeDword (h : PagedHeap m) (hx : x + 4 ≤ 0x401000)
    (hrun : Kmalloc.writeDword (vKernelHeapAddr + x) val m = some u) :
    SameTables directory m.phys u.phys ∧ PagedHeap u := by
  obtain ⟨a, ha, hrun⟩ := Option.bind_eq_some_iff.mp hrun
  obtain ⟨b, hb, hrun⟩ := Option.bind_eq_some_iff.mp hrun
  obtain ⟨c, hc, hd⟩ := Option.bind_eq_some_iff.mp hrun
  have hzero : wadd (vKernelHeapAddr + x) 0 = vKernelHeapAddr + x := by
    rw [wadd_of_lt, Nat.add_zero]
    rw [vKernelHeapAddr, wordSize_eq]
    omega
  rw [← hzero] at ha
  obtain ⟨hma, h1⟩ := h.writeByte_next (by omega) ha
  obtain ⟨hmb, h2⟩ := h1.writeByte_next (by omega) hb
  obtain ⟨hmc, h3⟩ := h2.writeByte_next (by omega) hc
  obtain ⟨hmd, h4⟩ := h3.writeByte_next (by omega) hd
  exact ⟨((hma.trans hmb).trans hmc).trans hmd, h4⟩

theorem PagedHeap.memsetd (h : PagedHeap m) (hx : x + 4 * count ≤ 0x401000)
    (hrun : Kmalloc.memsetd (vKernelHeapAddr + x) val count m = some u) :
    SameTables directory m.phys u.phys ∧ PagedHeap u := by
  induction count generalizing m x with
  | zero =>
    cases hrun
    exact ⟨SameTables.refl _, h⟩
  | succ count ih =>
    obtain ⟨w, hw, hrest⟩ := Option.bind_eq_some_iff.mp hrun
    have hnext : wadd (vKernelHeapAddr + x) 4 = vKernelHeapAddr + (x + 4) := by
      rw [wadd_of_lt, Nat.add_assoc]
      rw [vKernelHeapAddr, wordSize_eq]
      omega
    rw [hnext] at hrest
    obtain ⟨hmw, hpaged⟩ := h.writeDword (by omega) hw
    obtain ⟨hwu, hend⟩ := ih hpaged (by omega) hrest
    exact ⟨hmw.trans hwu, hend⟩

end Clear

section Request
variable {m u : Memory} {nbytes : ℕ}

/-- What a request that comes back leaves of the list and the heap's table. -/
structure Requested (nbytes : ℕ) (m u : Memory) : Prop where
  paged : PagedHeap u
  free : u.freeBytes = 0
  start : u.pFreeMemoryStart = m.pFreeMemoryStart
  entries : u.pages.freePageListEntries + passes m.vHeapMappedLimit nbytes = m.pages.freePageListEntries
  below : ∀ k ≤ u.pages.freePageListEntries, u.pages.freePageList k = m.pages.freePageList k
  kept : ∀ j < 1024, m.vHeapMappedLimit + nbytes ≤ vKernelHeapAddr + 4096 * j →
    entryAt u.phys heapTableFrame j = entryAt m.phys heapTableFrame j

theorem Requested.rewrite {w : Memory} (h : Requested nbytes m w) (hsame : SameTables directory w.phys u.phys)
    (hu : PagedHeap u) (hpages : u.pages = w.pages) (hstart : u.pFreeMemoryStart = w.pFreeMemoryStart)
    (hfree : u.freeBytes = 0) : Requested nbytes m u := by
  refine ⟨hu, hfree, hstart.trans h.start, ?_, ?_, fun j hj hout => ?_⟩
  · rw [hpages]
    exact h.entries
  · rw [hpages]
    exact h.below
  · rw [h.paged.tables.heap_same hsame hj]
    exact h.kept j hj hout

theorem sbrk_requested (h : PagedHeap m) (hfree : m.freeBytes = 0) {used : ℕ}
    (hlimit : m.vHeapMappedLimit = vKernelHeapAddr + used) (hused : used ≤ 0x401000)
    (hspare : Spare (passes m.vHeapMappedLimit nbytes) m) {fuel p : ℕ}
    (hrun : sbrk fuel nbytes m = some (p, u)) : used + nbytes ≤ 0x401000 ∧ Requested nbytes m u := by
  have hpasses : passes m.vHeapMappedLimit nbytes = passes used nbytes := passes_limit hlimit
  rw [hpasses] at hspare
  obtain ⟨hfits, s, hs, hi, rfl⟩ := sbrk_growing h hlimit hused hspare hrun
  obtain ⟨_, hstart, hkept⟩ := hs.variables
  refine ⟨hfits, hs.paged.rewrite (SameTables.refl _) rfl rfl ⟨used + nbytes, hfits, ?_⟩,
    hkept.trans hfree, hstart, ?_, hs.below, fun j hj hout => hs.kept j hj ?_⟩
  · dsimp only
    rw [hlimit, Nat.add_assoc]
  · rw [hpasses, ← hi]
    exact hs.entries
  · rw [hlimit] at hout
    rw [hi, passes]
    omega

/-- Each request that comes back, wherever it starts and ends, keeps the heap's page table when the pages
that it takes lie above the kernel. -/
theorem PagedHeap.kmalloc (h : PagedHeap m) (hfree : m.freeBytes = 0)
    (hspare : Spare (passes m.vHeapMappedLimit nbytes) m) {fuel p : ℕ}
    (hrun : Kmalloc.kmalloc fuel nbytes m = some (p, u)) : Requested nbytes m u := by
  obtain ⟨used, hused, hlimit⟩ := h.limit
  rcases Nat.eq_zero_or_pos nbytes with rfl | hpos
  · obtain _ | fuel := fuel
    · cases hrun
    · rw [Kmalloc.kmalloc, if_pos (Nat.zero_le _)] at hrun
      obtain ⟨_, rfl⟩ := Prod.mk.inj (Option.some.inj hrun)
      refine ⟨h.rewrite (SameTables.refl _) rfl rfl h.limit, ?_, rfl, ?_, fun _ _ => rfl, fun _ _ _ => rfl⟩
      · dsimp only
        rw [hfree]
        rfl
      · rw [passes, Nat.add_zero, Nat.sub_self]
        rfl
  · obtain ⟨_, w, hs, ⟨_, _, rfl⟩ | ⟨rfl, hclear⟩⟩ := kmalloc_cases hfree hpos hrun
    · exact (sbrk_requested h hfree hlimit hused hspare hs).2
    · obtain ⟨hfits, hw⟩ := sbrk_requested h hfree hlimit hused hspare hs
      have hbytes : used + 4 * (nbytes >>> 2) ≤ 0x401000 := by
        rw [Nat.shiftRight_eq_div_pow]
        omega
      have honly := HeapBooks.memsetd_phys hclear
      rw [hlimit] at hclear
      obtain ⟨hsame, hu⟩ := PagedHeap.memsetd
        (by exact hw.paged.rewrite (SameTables.refl _) rfl rfl hw.paged.limit) hbytes hclear
      exact hw.rewrite hsame hu (by rw [honly]) (by rw [honly]) (by rw [honly])

end Request

section Boot
variable {ram : Phys} {b : Memory}

theorem heapInstalled_tables (hlo : kernelPhysAddr < b.pFreeMemoryStart) (hhi : b.pFreeMemoryStart ≤ 0x400000)
    (hphys : b.phys = bootTables ram b.pFreeMemoryStart) :
    KernelTables b.pFreeMemoryStart (heapInstalled b).phys := by
  have hframe : heapTableFrame = 7 := rfl
  refine ⟨fun d hd => ?_, fun j hj => ?_, fun j hj => ?_⟩
  · rw [heapInstalled_directory hlo hhi hphys hd, hphys]
    exact congrArg _ (congrArg _ (bootTables_directory hlo hhi hd))
  · rw [heapInstalled_other hj (by decide) (by rw [hframe]; decide), hphys, bootTables_identity hlo hhi hj,
      AddressSpace.missingEntry_eq, AddressSpace.presentEntry_eq rfl, ascending, Nat.zero_add]
    rw [wordSize_eq]
    omega
  · rw [heapInstalled_other hj (by decide) (by rw [hframe]; decide), hphys,
      AddressSpace.bootTables_kernel hlo hhi hj, AddressSpace.missingEntry_eq,
      AddressSpace.presentEntry_eq rfl, ascending]
    rw [kernelPhysAddr, wordSize_eq]
    omega

theorem heapInstalled_first (hlo : kernelPhysAddr < b.pFreeMemoryStart) (hhi : b.pFreeMemoryStart ≤ 0x400000)
    (hphys : b.phys = bootTables ram b.pFreeMemoryStart) (hclean : CleanHeapTable ram) {j : ℕ} (hj : j < 1024)
    (hp : present (entryAt (heapInstalled b).phys heapTableFrame j)) : j = 0 := by
  by_contra h0
  rw [heapInstalled_table hj, if_neg h0, hphys, bootTables_untouched hlo hhi hj (by decide)] at hp
  exact hclean j (Nat.one_le_iff_ne_zero.mpr h0) hj hp

theorem heapInstalled_pagedHeap (hlo : kernelPhysAddr < b.pFreeMemoryStart)
    (hhi : b.pFreeMemoryStart ≤ 0x400000) (hphys : b.phys = bootTables ram b.pFreeMemoryStart)
    (hlimit : b.vHeapMappedLimit = vKernelHeapAddr)
    (hstack : FreePageStack b.pages.freePageListEntries b.pages) (hspare : Spare 1 b)
    (hclean : CleanHeapTable ram) : PagedHeap (heapInstalled b) := by
  have honly : ∀ j < 1024, present (entryAt (heapInstalled b).phys heapTableFrame j) → j = 0 :=
    fun j hj => heapInstalled_first hlo hhi hphys hclean hj
  refine ⟨hlo, hhi, ⟨0, Nat.zero_le _, hlimit⟩, heapInstalled_tables hlo hhi hphys, hstack.after_allocPage,
    fun j hj hp => ?_, fun j hj k hk hpj hpk _ => (honly j hj hpj).trans (honly k hk hpk).symm⟩
  obtain rfl := honly j hj hp
  obtain ⟨haligned, habove, hoff⟩ := hspare.takenPage hstack
  refine ⟨_, ?_, haligned, habove, hoff⟩
  rw [heapInstalled_table hj, if_pos rfl, allocPage_top hstack hspare.enough, (stack_entry hstack le_rfl).1]

end Boot

/-- The heap that `init_heap` leaves. The pages that are left are, from the top down, those below its first. -/
structure FreshHeap (sysInfo : SystemInfo) (m : Memory) : Prop where
  paged : PagedHeap m
  books : HeapBooks.HeapStart m
  start : m.pFreeMemoryStart = virt2Phys sysInfo.kernelEnd + sysInfo.totalMemory / 1024
  first : ∀ j < 1024, present (entryAt m.phys heapTableFrame j) → j = 0
  list : ∀ k a, 0x100000 ≤ a → a + 4096 * (k + 1) + 4096 = sysInfo.totalMemory →
    k ≤ m.pages.freePageListEntries ∧ m.pages.freePageList (m.pages.freePageListEntries - k) = a

theorem initHeap_freshHeap {sysInfo : SystemInfo} (h : Admissible sysInfo)
    (hfits : virt2Phys sysInfo.kernelEnd + sysInfo.totalMemory / 1024 ≤ 0x400000)
    (hpage : virt2Phys sysInfo.kernelEnd + sysInfo.totalMemory / 1024 + pageSize ≤ sysInfo.totalMemory)
    {ram : Phys} (hclean : CleanHeapTable ram) (list : ℕ → ℕ) :
    ∃ b m, initVirtMem wordSize sysInfo (staticMemory ram list) = some b ∧ initHeap b = some m ∧
      FreshHeap sysInfo m := by
  obtain ⟨s, haddr, hs, hrun⟩ := initVirtMem_eq h (staticMemory ram list) (le_refl wordSize)
  have hP := h.freeMemoryStart (staticMemory ram list)
  have hkernel := h.above_kernel
  have hlo : kernelPhysAddr < (markKernelEnd sysInfo (staticMemory ram list)).pFreeMemoryStart := by
    rw [hP]
    omega
  have hlow := hlo
  rw [kernelPhysAddr] at hlow
  rw [pageSize] at hpage
  have hstack := hs.stack (m := pagingEnabled sysInfo (staticMemory ram list)) haddr hlow
    (by rw [hP]; exact h.fits) h.totalMemory_aligned h.totalMemory_word rfl
  have hentries : (markFreePages (pagingEnabled sysInfo (staticMemory ram list)) s).pages.freePageListEntries =
      s.i - 1 := hstack.entries
  rw [← hentries] at hstack
  have haligned := h.totalMemory_aligned
  rw [pageSize] at haligned
  have hfrom := fun k a => listing_fromTop hs haddr hlow (k := k) (a := a)
  obtain ⟨hsecond, _⟩ := hfrom 1 (sysInfo.totalMemory - 8192) (by omega) (by omega)
  obtain ⟨_, htop⟩ := hfrom 0 (sysInfo.totalMemory - 4096) (by omega) (by omega)
  have hspare : Spare 1 (markFreePages (pagingEnabled sysInfo (staticMemory ram list)) s) := by
    refine ⟨by omega, fun k hk => ?_⟩
    obtain rfl : k = 0 := by omega
    rw [hentries]
    change (markKernelEnd sysInfo (staticMemory ram list)).pFreeMemoryStart ≤ s.freePageList _
    omega
  obtain ⟨hkept, hbelow⟩ := allocPage_rest hstack
  rw [← hP] at hfits
  have hphys : (markFreePages (pagingEnabled sysInfo (staticMemory ram list)) s).phys =
      bootTables ram (markKernelEnd sysInfo (staticMemory ram list)).pFreeMemoryStart := rfl
  have hpaged := heapInstalled_pagedHeap (b := markFreePages (pagingEnabled sysInfo (staticMemory ram list)) s)
    hlo hfits hphys rfl hstack hspare hclean
  have hfirst := fun j (hj : j < 1024) => heapInstalled_first
    (b := markFreePages (pagingEnabled sysInfo (staticMemory ram list)) s) hlo hfits hphys hclean hj
  have hinit := initHeap_eq (m := markFreePages (pagingEnabled sysInfo (staticMemory ram list)) s)
    hlo hfits hphys
  obtain ⟨hstart, hlist⟩ := initHeap_list h (hP ▸ hfits) hrun hinit
  exact ⟨_, _, hrun, hinit, hpaged, ⟨rfl, rfl, rfl⟩, hstart, hfirst, hlist⟩

end Ktux.HeapPaging
