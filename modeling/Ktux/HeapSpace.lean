import Ktux.AddressSpace
import Ktux.Heap

set_option autoImplicit false

/-!
# The address space after `init_heap`

The heap's table lies in a frame that nothing has cleared: `init_heap` sets its first entry only.
-/
namespace Ktux.HeapSpace
open Words MemoryLayout PageAllocator Loops TwoLevelPaging KernelMemory FreePageList MapPage Heap

/-- The frame of `P_PAGE_TABLE_HEAP_1`. -/
def heapTableFrame : ℕ := pPageTableHeap1 / pageSize

/-- What `init_heap` adds to the address space: the first page of the heap,
and the window to the page tables. -/
structure HeapAddressSpace (page : ℕ) (before after : Phys) : Prop where
  first : ∀ o < pageSize,
    TwoLevelPaging.translate after directory (vKernelHeapAddr + o) = some (frame page * pageSize + o)
  only : ∀ v, vKernelHeapAddr + pageSize ≤ v → v < vKernelDriverHeap →
    TwoLevelPaging.translate after directory v = none
  window : ∀ d < 1024, ∀ o < pageSize,
    TwoLevelPaging.translate after directory (vKernelPageTable1 + pageSize * d + o) =
    if present (entryAt after directory d) then some (frame (entryAt after directory d) * pageSize + o)
    else none
  others : ∀ v < wordSize, v < vKernelHeapAddr ∨ vKernelDriverHeap ≤ v →
    v < vKernelPageTable1 ∨ vKernelPageTable1 + 0x400000 ≤ v → walk after directory v = walk before directory v

/-- No entry of the table but the first is present. -/
def CleanHeapTable (ram : Phys) : Prop := ∀ j, 1 ≤ j → j < 1024 → ¬ present (entryAt ram heapTableFrame j)

section Installed
variable {ram : Phys} {limit : ℕ} {b : Memory}

theorem bootTables_untouched (hlo : kernelPhysAddr < limit) (hhi : limit ≤ 0x400000) {t j : ℕ}
    (hj : j < 1024) (ht : 6 < t) : entryAt (bootTables ram limit) t j = entryAt ram t j := by
  have hkernel : limit ≤ kernelPhysAddr + 0x400000 := hhi.trans (by decide)
  have hpos : 0 < limit := (by decide : 0 < kernelPhysAddr).trans hlo
  rw [bootTables_other hlo hhi hj (by omega), mappedTable_other 6 kernelPhysAddr hlo hkernel hj (by omega),
    mappedTable_other 5 0 hpos (by omega) hj (by omega)]

/-- The memory that `init_heap` leaves. -/
def heapInstalled (b : Memory) : Memory := windowInstalled (firstPageInstalled (heapTableInstalled b))

theorem heapInstalled_table {j : ℕ} (hj : j < 1024) : entryAt (heapInstalled b).phys heapTableFrame j =
    if j = 0 then makePTEphys (allocPage b.pages).1 mappedFlags else entryAt b.phys heapTableFrame j := by
  have hframe : heapTableFrame = 7 := rfl
  rw [heapInstalled, windowInstalled, hframe, entryAt_update_frame _ (by decide) hj (by decide),
    firstPageInstalled]
  by_cases h0 : j = 0
  · rw [h0, if_pos rfl, entryAt_update_same]
    rfl
  · rw [if_neg h0, entryAt_update_index _ (by decide) hj h0, heapTableInstalled,
      entryAt_update_frame _ (by decide) hj (by decide)]

theorem heapInstalled_other {t j : ℕ} (hj : j < 1024) (hdir : t ≠ directory) (htable : t ≠ heapTableFrame) :
    entryAt (heapInstalled b).phys t j = entryAt b.phys t j := by
  have hframe : heapTableFrame = 7 := rfl
  rw [hframe] at htable
  rw [heapInstalled, windowInstalled, entryAt_update_frame _ (by decide) hj hdir, firstPageInstalled,
    entryAt_update_frame _ (by decide) hj htable, heapTableInstalled,
    entryAt_update_frame _ (by decide) hj hdir]

theorem heapInstalled_directory (hlo : kernelPhysAddr < limit) (hhi : limit ≤ 0x400000)
    (hphys : b.phys = bootTables ram limit) {d : ℕ} (hd : d < 1024) :
    entryAt (heapInstalled b).phys directory d =
      if d = windowSlot then 0x4003 else if d = heapSlot then 0x7003 else entryAt b.phys directory d := by
  rw [heapInstalled, heapReady_directory hlo hhi hphys hd, hphys]
  exact congrArg _ (congrArg _ (bootTables_directory hlo hhi hd).symm)

theorem heapInstalled_walk_heap (hlo : kernelPhysAddr < limit) (hhi : limit ≤ 0x400000)
    (hphys : b.phys = bootTables ram limit) {v : ℕ} (hd : dirIndex v = heapSlot) :
    walk (heapInstalled b).phys directory v =
      if present (entryAt (heapInstalled b).phys heapTableFrame (pageIndex v)) then
        some (0x7003, entryAt (heapInstalled b).phys heapTableFrame (pageIndex v))
      else none := by
  have hentry : entryAt (heapInstalled b).phys directory (dirIndex v) = 0x7003 := by
    rw [heapInstalled_directory hlo hhi hphys (by rw [hd]; decide), hd]
    rfl
  rw [walk_table (by rw [hentry]; decide), hentry]
  rfl

theorem heapInstalled_walk_window (hlo : kernelPhysAddr < limit) (hhi : limit ≤ 0x400000)
    (hphys : b.phys = bootTables ram limit) {v : ℕ} (hd : dirIndex v = windowSlot) :
    walk (heapInstalled b).phys directory v =
      if present (entryAt (heapInstalled b).phys directory (pageIndex v)) then
        some (0x4003, entryAt (heapInstalled b).phys directory (pageIndex v))
      else none := by
  have hentry : entryAt (heapInstalled b).phys directory (dirIndex v) = 0x4003 := by
    rw [heapInstalled_directory hlo hhi hphys (by rw [hd]; decide), hd]
    rfl
  rw [walk_table (by rw [hentry]; decide), hentry]
  rfl

/-- The boot directory names the frames 5 and 6 only. -/
theorem bootTables_frames (hlo : kernelPhysAddr < limit) (hhi : limit ≤ 0x400000) {d : ℕ} (hd : d < 1024)
    (hp : present (entryAt (bootTables ram limit) directory d)) :
    frame (entryAt (bootTables ram limit) directory d) = 5 ∨
      frame (entryAt (bootTables ram limit) directory d) = 6 := by
  have hentry : entryAt (bootTables ram limit) directory d = _ := bootTables_directory hlo hhi hd
  rw [hentry] at hp ⊢
  split_ifs at hp ⊢
  · exact Or.inl rfl
  · exact Or.inr rfl
  · exact absurd hp (by decide)

theorem heapInstalled_walk_other (hlo : kernelPhysAddr < limit) (hhi : limit ≤ 0x400000)
    (hphys : b.phys = bootTables ram limit) {v : ℕ} (hd : dirIndex v < 1024) (hheap : dirIndex v ≠ heapSlot)
    (hwindow : dirIndex v ≠ windowSlot) :
    walk (heapInstalled b).phys directory v = walk b.phys directory v := by
  refine walk_congr ?_ fun hp => ?_
  · rw [heapInstalled_directory hlo hhi hphys hd, if_neg hwindow, if_neg hheap]
  · rw [hphys] at hp
    have hframes := bootTables_frames hlo hhi hd hp
    rw [← hphys] at hframes
    refine heapInstalled_other (pageIndex_lt v) ?_ ?_
    · rcases hframes with h | h
      all_goals
        rw [h]
        decide
    · rcases hframes with h | h
      all_goals
        rw [h]
        decide

theorem bootTables_walk_heap (hlo : kernelPhysAddr < limit) (hhi : limit ≤ 0x400000) {v : ℕ}
    (hd : dirIndex v < 1024) (h0 : dirIndex v ≠ 0) (h768 : dirIndex v ≠ 768) :
    walk (bootTables ram limit) directory v = none := by
  have hentry : entryAt (bootTables ram limit) directory (dirIndex v) = _ := bootTables_directory hlo hhi hd
  refine walk_missing ?_
  rw [hentry, if_neg h0, if_neg h768]
  decide

end Installed

section Space
variable {ram : Phys} {limit : ℕ} {b : Memory}

theorem pageEntry {page : ℕ} (hpage : page < wordSize) :
    present (makePTEphys page mappedFlags) ∧ frame (makePTEphys page mappedFlags) = frame page := by
  have hflags : mappedFlags % 4096 = 3 := by decide
  rw [makePTEphys_eq mappedFlags hpage, hflags]
  unfold present frame
  omega

/-- Page `j` of the heap's table. -/
theorem heap_indices {j o : ℕ} (hj : j < 1024) (ho : o < 4096) :
    dirIndex (vKernelHeapAddr + 4096 * j + o) = heapSlot ∧ pageIndex (vKernelHeapAddr + 4096 * j + o) = j ∧
      (vKernelHeapAddr + 4096 * j + o) % 4096 = o := by
  rw [dirIndex, pageIndex, vKernelHeapAddr, heapSlot]
  omega

theorem window_indices {d o : ℕ} (hd : d < 1024) (ho : o < 4096) :
    dirIndex (vKernelPageTable1 + 4096 * d + o) = windowSlot ∧
      pageIndex (vKernelPageTable1 + 4096 * d + o) = d ∧ (vKernelPageTable1 + 4096 * d + o) % 4096 = o := by
  rw [dirIndex, pageIndex, vKernelPageTable1, windowSlot]
  omega

theorem heapInstalled_firstPage (hlo : kernelPhysAddr < limit) (hhi : limit ≤ 0x400000)
    (hphys : b.phys = bootTables ram limit) (hpage : (allocPage b.pages).1 < wordSize) {o : ℕ} (ho : o < 4096) :
    TwoLevelPaging.translate (heapInstalled b).phys directory (vKernelHeapAddr + o) =
      some (frame (allocPage b.pages).1 * 4096 + o) := by
  obtain ⟨hd, hp, ho'⟩ := heap_indices (j := 0) (by decide) ho
  rw [Nat.mul_zero, Nat.add_zero] at hd hp ho'
  obtain ⟨hpresent, hframe⟩ := pageEntry hpage
  rw [TwoLevelPaging.translate, heapInstalled_walk_heap hlo hhi hphys hd, hp, heapInstalled_table (by decide),
    if_pos rfl, if_pos hpresent, Option.map_some, hframe, ho']

theorem heapInstalled_missing (hlo : kernelPhysAddr < limit) (hhi : limit ≤ 0x400000)
    (hphys : b.phys = bootTables ram limit) (hclean : CleanHeapTable ram) {v : ℕ}
    (hlow : vKernelHeapAddr + 4096 ≤ v) (hhigh : v < vKernelDriverHeap) :
    walk (heapInstalled b).phys directory v = none := by
  rw [vKernelHeapAddr] at hlow
  rw [vKernelDriverHeap] at hhigh
  by_cases hd : dirIndex v = heapSlot
  · have hp : 1 ≤ pageIndex v := by
      rw [dirIndex, heapSlot] at hd
      rw [pageIndex]
      omega
    have habsent : ¬ present (entryAt (heapInstalled b).phys heapTableFrame (pageIndex v)) := by
      have hlt := pageIndex_lt v
      rw [heapInstalled_table hlt, if_neg (by omega), hphys, bootTables_untouched hlo hhi hlt (by decide)]
      exact hclean _ hp hlt
    rw [heapInstalled_walk_heap hlo hhi hphys hd, if_neg habsent]
  · have hrange : 832 ≤ dirIndex v ∧ dirIndex v < 896 := by
      rw [dirIndex]
      omega
    rw [heapInstalled_walk_other hlo hhi hphys (by omega) hd (by rw [windowSlot]; omega), hphys]
    exact bootTables_walk_heap hlo hhi (by omega) (by omega) (by omega)

theorem heapAddressSpace_of_clean (hlo : kernelPhysAddr < limit) (hhi : limit ≤ 0x400000)
    (hphys : b.phys = bootTables ram limit) (hpage : (allocPage b.pages).1 < wordSize)
    (hclean : CleanHeapTable ram) :
    HeapAddressSpace (allocPage b.pages).1 b.phys (heapInstalled b).phys := by
  constructor
  · exact fun o ho => heapInstalled_firstPage hlo hhi hphys hpage ho
  · intro v hlow hhigh
    rw [TwoLevelPaging.translate, heapInstalled_missing hlo hhi hphys hclean hlow hhigh, Option.map_none]
  · intro d hd o ho
    rw [pageSize] at ho ⊢
    obtain ⟨hdir, hp, ho'⟩ := window_indices hd ho
    rw [TwoLevelPaging.translate, heapInstalled_walk_window hlo hhi hphys hdir, hp]
    split_ifs
    · rw [Option.map_some, ho']
    · rfl
  · intro v hv hheap hwindow
    rw [vKernelHeapAddr, vKernelDriverHeap] at hheap
    rw [vKernelPageTable1] at hwindow
    rw [wordSize_eq] at hv
    refine heapInstalled_walk_other hlo hhi hphys ?_ ?_ ?_
    · rw [dirIndex]
      omega
    · rw [dirIndex, heapSlot]
      omega
    · rw [dirIndex, windowSlot]
      omega

theorem HeapAddressSpace.clean (hlo : kernelPhysAddr < limit) (hhi : limit ≤ 0x400000)
    (hphys : b.phys = bootTables ram limit) {page : ℕ}
    (h : HeapAddressSpace page b.phys (heapInstalled b).phys) : CleanHeapTable ram := by
  intro j hj hlt hpresent
  obtain ⟨hd, hp, -⟩ := heap_indices (o := 0) hlt (by decide)
  rw [Nat.add_zero] at hd hp
  have hnone := h.only (vKernelHeapAddr + 4096 * j) (by rw [pageSize]; omega)
    (by rw [vKernelHeapAddr, vKernelDriverHeap]; omega)
  rw [TwoLevelPaging.translate, heapInstalled_walk_heap hlo hhi hphys hd, hp, heapInstalled_table hlt,
    if_neg (Nat.ne_of_gt hj), hphys, bootTables_untouched hlo hhi hlt (by decide), if_pos hpresent] at hnone
  cases hnone

theorem allocPage_lt {a : Allocator} (h : ∀ k, a.freePageList k < wordSize) : (allocPage a).1 < wordSize := by
  have hzero : 0 < wordSize := by decide
  unfold allocPage
  dsimp only
  split_ifs
  · exact hzero
  · exact hzero
  · exact h _
  · exact h _

/-- The list holds words: those that were there and addresses. -/
theorem buildFreePageList_words {fuel : ℕ} {m u : Memory} (hlist : ∀ k, m.pages.freePageList k < wordSize)
    (hrun : buildFreePageList fuel m = some u) : ∀ k, u.pages.freePageList k < wordSize := by
  obtain ⟨s, hs, rfl⟩ := Option.map_eq_some_iff.mp hrun
  refine (whileLoop_invariant
    (fun s : PageLoop => s.address < wordSize ∧ ∀ k, s.freePageList k < wordSize) ?_
    ⟨(by decide : 0 < wordSize), hlist⟩ hs).1.2
  rintro s t ⟨haddress, hwords⟩ _ ht
  obtain rfl := Option.some.inj ht
  refine ⟨wadd_lt _ _, fun k => ?_⟩
  change (if listsPage _ _ s.address then Function.update s.freePageList s.i s.address
    else s.freePageList) k < _
  split_ifs
  · by_cases hk : k = s.i
    · rw [hk, Function.update_self]
      exact haddress
    · rw [Function.update_of_ne hk]
      exact hwords k
  · exact hwords k

/-- `init_heap` adds exactly the first page and the window when the frame of the heap's table was clean. -/
theorem heapAddressSpace_iff (kernelEnd totalMemory : ℕ) (m : Memory) (hend : kernelVirtAddr < kernelEnd)
    (hword : kernelEnd < wordSize) (htotal : totalMemory < wordSize)
    (hfits : virt2Phys kernelEnd + totalMemory / 1024 ≤ 0x400000)
    (hlist : ∀ k, m.pages.freePageList k < wordSize) :
    ∃ b u, (∀ fuel ≥ wordSize, initVirtMem fuel ⟨totalMemory, kernelEnd⟩ m = some b) ∧ initHeap b = some u ∧
      (HeapAddressSpace (allocPage b.pages).1 b.phys u.phys ↔ CleanHeapTable m.phys) := by
  have hkernel := virt2Phys_of_le hend.le hword
  have hstart := markKernelEnd_start (m := m) hend.le hword htotal
  obtain ⟨s, hs⟩ := AddressSpace.initVirtMem_returns m hend hword htotal hfits
  rw [← hstart] at hfits
  have hlo : kernelPhysAddr < (markKernelEnd ⟨totalMemory, kernelEnd⟩ m).pFreeMemoryStart := by
    rw [hstart, hkernel]
    omega
  have hphys : (markFreePages (pagingEnabled ⟨totalMemory, kernelEnd⟩ m) s).phys =
      bootTables m.phys (markKernelEnd ⟨totalMemory, kernelEnd⟩ m).pFreeMemoryStart := rfl
  obtain ⟨w, hw, hbuild⟩ := Option.bind_eq_some_iff.mp (hs wordSize (le_refl _))
  have hpages : ∀ k, w.pages.freePageList k < wordSize := by
    rw [(DetectMemory.initPageTables_sizes hw).2]
    exact hlist
  have hpage := allocPage_lt (buildFreePageList_words hpages hbuild)
  exact ⟨_, _, hs, initHeap_eq hlo hfits hphys, fun h => h.clean hlo hfits hphys,
    heapAddressSpace_of_clean hlo hfits hphys hpage⟩

end Space

theorem heapAddressSpace_zeros :
    ∃ b u, (∀ fuel ≥ wordSize, initVirtMem fuel ⟨0x4000000, 0xC0042000⟩
        (staticMemory (fun _ => 0) fun _ => 0) = some b) ∧ initHeap b = some u ∧
      (HeapAddressSpace (allocPage b.pages).1 b.phys u.phys ↔ CleanHeapTable fun _ => 0) :=
  heapAddressSpace_iff 0xC0042000 0x4000000 (staticMemory (fun _ => 0) fun _ => 0) (by decide) (by decide)
    (by decide) (by decide) fun _ => (by decide : 0 < wordSize)

theorem Listing.two_pages {P T : ℕ} {s : PageLoop} (h : Listing P T s) (hs : s.address = T)
    (hP : 0x100000 < P) (hPT : P < T) : 2 ≤ s.i := by
  obtain ⟨j, hj, hja⟩ := (h.listed 0x9000).mpr
    ⟨by decide, by omega, (listsPage_iff (by decide) hP).mpr (by omega)⟩
  obtain ⟨k, hk, hka⟩ := (h.listed 0xA000).mpr
    ⟨by decide, by omega, (listsPage_iff (by decide) hP).mpr (by omega)⟩
  by_contra hfew
  have hsame : j = k := by omega
  rw [hsame, hka] at hja
  exact absurd hja (by decide)

theorem allocPage_boot {sysInfo : SystemInfo} (h : Admissible sysInfo) (m : Memory) {s : PageLoop}
    (haddr : s.address = sysInfo.totalMemory)
    (hs : Listing (markKernelEnd sysInfo m).pFreeMemoryStart sysInfo.totalMemory s) :
    (allocPage (markFreePages (pagingEnabled sysInfo m) s).pages).1 ≠ 0 := by
  have hP := h.freeMemoryStart m
  have hlo := h.above_kernel
  have hfits := h.fits
  rw [kernelPhysAddr] at hlo
  have htwo := Listing.two_pages hs haddr (by omega) (by omega)
  have hstack := hs.stack (m := pagingEnabled sysInfo m) haddr (by omega) (by omega) h.totalMemory_aligned
    h.totalMemory_word rfl
  have htop := hstack.nonzero _ le_rfl
  have hentries := hstack.entries
  have hsmall := hstack.small
  rw [← hentries] at htop hsmall
  rw [allocPage_pop hstack.initialized (by omega) htop (by omega)]
  exact htop

/-- With ones left in the frame of the heap's table, the second page of the heap is mapped too. -/
theorem heapAddressSpace_fails :
    ∃ b u, initVirtMem wordSize ⟨0x4000000, 0xC0042000⟩ (staticMemory (fun _ => 1) fun _ => 0) = some b ∧
      initHeap b = some u ∧ (allocPage b.pages).1 ≠ 0 ∧
      ¬ HeapAddressSpace (allocPage b.pages).1 b.phys u.phys := by
  have hsizes : Admissible ⟨0x4000000, 0xC0042000⟩ :=
    ⟨by decide, by decide, by decide, by decide, by decide, by decide⟩
  obtain ⟨s, haddr, hs, hrun⟩ := initVirtMem_eq hsizes (staticMemory (fun _ => 1) fun _ => 0) (le_refl wordSize)
  have hphys : (markFreePages (pagingEnabled ⟨0x4000000, 0xC0042000⟩ (staticMemory (fun _ => 1) fun _ => 0))
      s).phys = bootTables (fun _ => 1) 0x152000 := rfl
  refine ⟨_, _, hrun, initHeap_eq (by decide) (by decide) hphys, allocPage_boot hsizes _ haddr hs, fun h => ?_⟩
  exact h.clean (by decide) (by decide) hphys 1 le_rfl (by decide) rfl

end Ktux.HeapSpace
