import Ktux.HeapPaging
import Ktux.PageFault

set_option autoImplicit false

/-!
# Demand paging of the heap

A fault below the end of the heap takes a page from the list and enters it in the table through the table's
physical address. Nothing looks at the result of `alloc_page`, nor at the directory entry.
-/
namespace Ktux.DemandPaging
open Words MemoryLayout PageAllocator Runs TwoLevelPaging KernelMemory FreePageList MapPage Heap Kmalloc
open HeapSpace HeapPaging PageFault

/-- Entry `j` of the table in directory slot `d`. -/
def tableEntry (m : Phys) (d j : ℕ) : ℕ := entryAt m (frame (entryAt m directory d)) j

structure PresentEntry (m : Phys) (d j : ℕ) : Prop where
  dir_lt : d < 1024
  page_lt : j < 1024
  table : present (entryAt m directory d)
  entry : present (tableEntry m d j)

/-- A not-present fault on an address of the heap. -/
structure HeapFault (address errorCode : ℕ) (m : Memory) : Prop where
  low : vKernelHeapAddr ≤ address
  heapEnd : address < m.kernelHeapEnd
  driverHeap : address < vKernelDriverHeap
  code : errorCode &&& pdeFlagPresent = 0
  missing : walk m.phys directory address = none

def HasTable (address : ℕ) (m : Memory) : Prop := present (entryAt m.phys directory (dirIndex address))

/-- The page of `address` is translated through `e`, to a frame of its own, and no other page changes. -/
structure PagedIn (address : ℕ) (e : ℕ × ℕ) (m u : Memory) : Prop where
  mapped : walk u.phys directory address = some e
  only : ∀ d j, PresentEntry u.phys d j → frame (tableEntry u.phys d j) = frame e.2 →
    d = dirIndex address ∧ j = pageIndex address
  off : ∀ i ≤ u.pages.freePageListEntries, u.pages.freePageList i ≠ frame e.2 * pageSize
  others : ∀ v < wordSize, v / pageSize ≠ address / pageSize →
    walk u.phys directory v = walk m.phys directory v

def NothingMapped (m u : Memory) : Prop := ∀ d j, PresentEntry u.phys d j → PresentEntry m.phys d j

/-- The fault is served, or the tables are left as they are. -/
structure FaultServed (address errorCode eip : ℕ) (m : Memory) : Prop where
  served : HasTable address m → (allocPage m.pages).1 ≠ 0 →
    ∃ u e, pageFaultHandler address errorCode eip m = some u ∧ PagedIn address e m u
  refused : (allocPage m.pages).1 = 0 ∨ ¬ HasTable address m →
    ∀ u, pageFaultHandler address errorCode eip m = some u → NothingMapped m u

/-- Where the directory has a table, the list has a page, and one that lies above the kernel and the list. -/
def PageForFault (address : ℕ) (m : Memory) : Prop := HasTable address m → Spare 1 m

inductive Event where
  | kmalloc (nbytes : ℕ)
  | pageFault (address errorCode eip : ℕ)

/-- A call or a fault that comes back. -/
def KernelStep (m : Memory) (event : Event) (u : Memory) : Prop :=
  match event with
  | .kmalloc nbytes => KmallocStep m nbytes u
  | .pageFault address errorCode eip =>
    walk m.phys directory address = none ∧ pageFaultHandler address errorCode eip m = some u

/-- The pages that the step takes lie above the kernel and the list. -/
def Supplied (m : Memory) (event : Event) : Prop :=
  match event with
  | .kmalloc nbytes => Spare (passes m.vHeapMappedLimit nbytes) m
  | .pageFault address _ _ => PageForFault address m

section Handler
variable {m u : Memory} {address errorCode eip : ℕ}

/-- The memory that the handler leaves when it returns. -/
def handled (address : ℕ) (m : Memory) : Memory :=
  { allocated m with
    phys := entryWritten m.phys address (makePTEphys (allocPage m.pages).1 mappedFlags) }

theorem pageFaultHandler_range (hrun : pageFaultHandler address errorCode eip m = some u) :
    errorCode &&& pdeFlagPresent = 0 ∧ vKernelHeapAddr ≤ address ∧ address < vKernelDriverHeap ∧
      address < m.kernelHeapEnd := by
  obtain ⟨_, _, hrun⟩ := Option.bind_eq_some_iff.mp hrun
  obtain ⟨_, _, hrun⟩ := Option.bind_eq_some_iff.mp hrun
  split_ifs at hrun with hcode hkernel hheap hdriver hend
  exact ⟨not_not.mp hcode, Nat.le_of_not_lt hheap, hdriver, hend⟩

theorem pageFaultHandler_writes (hself : IdentityMapped m.phys directory) {t : ℕ} (ht : t < 1024)
    (htable : frame (entryAt m.phys directory (virt2Dir address)) = t) (hid : IdentityMapped m.phys t)
    (hdir : t ≠ directory) (hfirst : t ≠ frame (entryAt m.phys directory 0))
    (hcode : errorCode &&& pdeFlagPresent = 0)
    (hlow : vKernelHeapAddr ≤ address) (hdriver : address < vKernelDriverHeap)
    (hend : address < m.kernelHeapEnd) :
    pageFaultHandler address errorCode eip m = some (handled address m) := by
  have hword : address < wordSize := hdriver.trans (by decide)
  have hentry : entryAt m.phys directory (virt2Dir address) &&& pdeAddrMask = t * 4096 := by
    rw [and_pdeAddrMask, ← htable, frame]
    rw [wordSize_eq]
    unfold frame at htable
    omega
  have hkept : IdentityMapped (handled address m).phys t := by
    rw [handled]
    dsimp only
    rw [entryWritten, htable]
    exact hid.congr (entryAt_update_frame _ (virt2Page_lt _) (by decide) hdir.symm)
      (entryAt_update_frame _ (virt2Page_lt _) ht hfirst.symm)
  have hstore : storeWord (allocated m) (element (t * 4096) (virt2Page address))
      (makePTEphys (allocPage m.pages).1 mappedFlags) = some (handled address m) := by
    rw [IdentityMapped.store (m := allocated m) hid ht (virt2Page_lt _), handled, entryWritten, htable]
    rfl
  have hkernel : ¬ address < kernelVirtAddr := Nat.not_lt.mpr
    ((by decide : kernelVirtAddr ≤ vKernelHeapAddr).trans hlow)
  simp only [pageFaultHandler, hself.load_directory (virt2Dir_lt hword), Option.bind_eq_bind,
    Option.bind_some, hentry,
    hid.load ht (virt2Page_lt address), hcode, ne_eq, not_true_eq_false, if_false, if_neg hkernel,
    if_neg (Nat.not_lt.mpr hlow), if_pos hdriver, if_pos hend, hstore, hkept.load ht (virt2Page_lt address),
    Option.pure_def]

theorem dirIndex_heap (hlow : vKernelHeapAddr ≤ address) (hdriver : address < vKernelDriverHeap) :
    heapSlot ≤ dirIndex address ∧ dirIndex address < windowSlot := by
  rw [vKernelHeapAddr] at hlow
  rw [vKernelDriverHeap] at hdriver
  rw [heapSlot, windowSlot, dirIndex]
  omega

theorem hasTable_iff (h : PagedHeap m) (hlow : vKernelHeapAddr ≤ address)
    (hdriver : address < vKernelDriverHeap) : HasTable address m ↔ dirIndex address = heapSlot := by
  obtain ⟨hlo, hhi⟩ := dirIndex_heap hlow hdriver
  rw [HasTable]
  constructor
  · intro hp
    by_contra hne
    rw [h.tables.missing (by omega) hhi] at hp
    exact absurd hp (by decide)
  · intro heq
    rw [heq, h.tables.heapDirectory]
    decide

theorem heapSlot_frame (h : PagedHeap m) (hslot : dirIndex address = heapSlot) :
    frame (entryAt m.phys directory (virt2Dir address)) = heapTableFrame := by
  rw [virt2Dir_dirIndex, hslot, h.tables.heapDirectory]
  rfl

/-- Without a table the handler reads and writes the physical page 0. -/
theorem table_frame (h : PagedHeap m) (hlow : vKernelHeapAddr ≤ address)
    (hdriver : address < vKernelDriverHeap) : frame (entryAt m.phys directory (virt2Dir address)) =
      if dirIndex address = heapSlot then heapTableFrame else 0 := by
  obtain ⟨hlo, hhi⟩ := dirIndex_heap hlow hdriver
  split_ifs with heq
  · exact heapSlot_frame h heq
  · rw [virt2Dir_dirIndex, h.tables.missing (by omega) hhi]
    rfl

theorem pageFaultHandler_eq (h : PagedHeap m) (hcode : errorCode &&& pdeFlagPresent = 0)
    (hlow : vKernelHeapAddr ≤ address) (hdriver : address < vKernelDriverHeap)
    (hend : address < m.kernelHeapEnd) :
    pageFaultHandler address errorCode eip m = some (handled address m) := by
  have hstart := h.start
  rw [kernelPhysAddr] at hstart
  have hfirst : frame (entryAt m.phys directory 0) = 5 := by
    rw [h.tables.dir 0 (by decide)]
    rfl
  have hself := (h.tables.selfMapped h.start).identity
  have htable := table_frame h hlow hdriver
  have hframe : heapTableFrame = 7 := rfl
  rw [hframe] at htable
  split_ifs at htable
  · exact pageFaultHandler_writes hself (by decide) htable (h.tables.identityMapped (by decide) (by omega))
      (by decide) (by rw [hfirst]; decide) hcode hlow hdriver hend
  · exact pageFaultHandler_writes hself (by decide) htable (h.tables.identityMapped (by decide) (by omega))
      (by decide) (by rw [hfirst]; decide) hcode hlow hdriver hend

/-- With a table and a page for it, the handler enters the top page of the list. -/
theorem handled_pageMapped (h : PagedHeap m) (hpos : 0 < m.pages.freePageListEntries)
    (hslot : dirIndex address = heapSlot) : handled address m = pageMapped (pageIndex address) m := by
  have htable := heapSlot_frame h hslot
  rw [handled, entryWritten, htable, virt2Page_pageIndex, allocPage_top h.stack hpos,
    (stack_entry h.stack le_rfl).1]
  rfl

/-- Without a table no table changes. -/
theorem handled_sameTables (h : PagedHeap m) (hlow : vKernelHeapAddr ≤ address)
    (hdriver : address < vKernelDriverHeap) (hslot : dirIndex address ≠ heapSlot) :
    SameTables directory m.phys (handled address m).phys := by
  have htable := table_frame h hlow hdriver
  rw [if_neg hslot] at htable
  rw [handled]
  dsimp only
  rw [entryWritten, htable]
  exact h.tables.sameTables_update (virt2Page_lt address) (Or.inr rfl)

end Handler

section Run
variable {m u : Memory} {event : Event}

/-- A fault that is served, or that finds no table, keeps the heap's page table. -/
theorem pageFault_pagedHeap (h : PagedHeap m) {address errorCode eip : ℕ} (hpage : PageForFault address m)
    (hrun : pageFaultHandler address errorCode eip m = some u) : PagedHeap u ∧ u.freeBytes = m.freeBytes := by
  obtain ⟨hcode, hlow, hdriver, hend⟩ := pageFaultHandler_range hrun
  rw [pageFaultHandler_eq h hcode hlow hdriver hend] at hrun
  obtain rfl := Option.some.inj hrun
  refine ⟨?_, rfl⟩
  by_cases hslot : dirIndex address = heapSlot
  · have hspare := hpage ((hasTable_iff h hlow hdriver).mpr hslot)
    rw [handled_pageMapped h hspare.enough hslot]
    exact h.pageMapped hspare (pageIndex_lt address)
  · exact h.allocated.rewrite (handled_sameTables h hlow hdriver hslot) rfl rfl h.limit

theorem step_pagedHeap (h : PagedHeap m) (hfree : m.freeBytes = 0) (hsupplied : Supplied m event)
    (hstep : KernelStep m event u) : PagedHeap u ∧ u.freeBytes = 0 := by
  cases event with
  | kmalloc nbytes =>
    obtain ⟨fuel, p, hrun⟩ := hstep
    have hrequested := h.kmalloc hfree hsupplied hrun
    exact ⟨hrequested.paged, hrequested.free⟩
  | pageFault address errorCode eip =>
    obtain ⟨hpaged, hkept⟩ := pageFault_pagedHeap h hsupplied hstep.2
    exact ⟨hpaged, hkept.trans hfree⟩

theorem run_pagedHeap {events : List Event} (h : PagedHeap m) (hfree : m.freeBytes = 0)
    (hsupplied : Every KernelStep (fun _ w event _ => Supplied w event) m events)
    (hrun : Run KernelStep m events u) : PagedHeap u ∧ u.freeBytes = 0 := by
  refine hrun.guarded_invariant (fun _ w => PagedHeap w ∧ w.freeBytes = 0) ⟨h, hfree⟩ ?_ hsupplied
  rintro _ w event v _ ⟨hw, hwfree⟩ hstep hs
  exact step_pagedHeap hw hwfree hs hstep

end Run

section Fault
variable {m : Memory} {address errorCode eip : ℕ}

theorem ascending_frame {first limit j : ℕ} (hfirst : first % 4096 = 0)
    (hp : present (ascending first limit j)) : frame (ascending first limit j) * pageSize < limit := by
  unfold ascending at hp ⊢
  split_ifs at hp ⊢ with hlt
  · rw [frame, pageSize]
    omega
  · exact absurd hp (by decide)

/-- The entries outside the heap's table name pages below the kernel's end or the list's. -/
theorem presentEntry_below {start d j : ℕ} {m : Phys} (h : KernelTables start m)
    (hstart : kernelPhysAddr < start) (hp : PresentEntry m d j) (hd : d ≠ heapSlot) :
    frame (tableEntry m d j) * pageSize < start := by
  have hentry := hp.entry
  rw [tableEntry] at hentry ⊢
  rcases h.slots hp.dir_lt hp.table with rfl | rfl | rfl | rfl
  · have hframe : frame (entryAt m directory windowSlot) = directory := by
      rw [h.dir windowSlot (by decide)]
      rfl
    have hsmall := h.frame_small hp.page_lt
    rw [kernelPhysAddr] at hstart
    rw [hframe, pageSize]
    omega
  · exact absurd rfl hd
  · have hframe : frame (entryAt m directory 0) = 5 := by
      rw [h.dir 0 (by decide)]
      rfl
    rw [hframe, h.identity j hp.page_lt] at hentry ⊢
    exact ascending_frame rfl hentry
  · have hframe : frame (entryAt m directory 768) = 6 := by
      rw [h.dir 768 (by decide)]
      rfl
    rw [hframe, h.kernel j hp.page_lt] at hentry ⊢
    exact ascending_frame (by decide) hentry

theorem tableEntry_heap {start j : ℕ} {m : Phys} (h : KernelTables start m) :
    tableEntry m heapSlot j = entryAt m heapTableFrame j := by
  rw [tableEntry, h.heapDirectory]
  rfl

theorem sameTables_presentEntry {m u : Phys} (h : SameTables directory m u) {d j : ℕ}
    (hp : PresentEntry u d j) : PresentEntry m d j := by
  obtain ⟨hd, hj, htable, hentry⟩ := hp
  rw [h.dir d hd] at htable
  rw [tableEntry, h.dir d hd, h.table d hd htable j hj] at hentry
  exact ⟨hd, hj, htable, hentry⟩

theorem pageMapped_walk (h : PagedHeap m) (hslot : dirIndex address = heapSlot) :
    walk (pageMapped (pageIndex address) m).phys directory address =
      some (0x7003, m.pages.freePageList m.pages.freePageListEntries + 3) := by
  have htables := h.tables.pageMapped (pageIndex_lt address)
  have hentry := pageMapped_self (m := m) (pageIndex_lt address)
  have hdir : entryAt (pageMapped (pageIndex address) m).phys directory (dirIndex address) = 0x7003 := by
    rw [hslot]
    exact htables.heapDirectory
  rw [walk_table (by rw [hdir]; decide), hdir]
  change (if present (entryAt _ heapTableFrame (pageIndex address)) then
    some (0x7003, entryAt _ heapTableFrame (pageIndex address)) else none) = _
  rw [hentry, if_pos (present_page (stack_entry h.stack le_rfl).2)]

theorem pageMapped_pagedIn (h : PagedHeap m) (hspare : Spare 1 m) (hslot : dirIndex address = heapSlot) :
    PagedIn address (0x7003, m.pages.freePageList m.pages.freePageListEntries + 3) m
      (pageMapped (pageIndex address) m) := by
  have hpaged := h.pageMapped hspare (pageIndex_lt address)
  have hnew := hspare.takenPage h.stack
  have hentry := pageMapped_self (m := m) (pageIndex_lt address)
  have hp : present (entryAt (pageMapped (pageIndex address) m).phys heapTableFrame (pageIndex address)) := by
    rw [hentry]
    exact present_page hnew.aligned
  refine ⟨pageMapped_walk h hslot, fun d j hdj hframe => ?_, fun i hi => ?_, fun v hv hpage => ?_⟩
  · by_cases hd : d = heapSlot
    · subst hd
      refine ⟨hslot.symm, ?_⟩
      have hj := hdj.entry
      rw [tableEntry_heap hpaged.tables] at hj hframe
      exact hpaged.apart j hdj.page_lt _ (pageIndex_lt address) hj hp (by rw [hframe, hentry])
    · have hbelow := presentEntry_below hpaged.tables hpaged.start hdj hd
      have habove := hnew.above
      rw [hframe, pageSize, hnew.frame_eq] at hbelow
      exact absurd hbelow (Nat.not_lt.mpr habove)
  · rw [pageSize, hnew.frame_eq]
    exact hnew.off i hi
  · have hd : dirIndex v < 1024 := by
      rw [← virt2Dir_dirIndex]
      exact virt2Dir_lt hv
    refine walk_update_table (pageIndex_lt address) hd (by decide) fun hpv hframe hindex => hpage ?_
    rw [pageSize]
    refine same_page (hslot ▸ ?_) hindex
    rcases h.tables.slots hd hpv with heq | heq | heq | heq
    · rw [heq, h.tables.dir windowSlot (by decide)] at hframe
      exact absurd hframe (by decide)
    · exact heq
    · rw [heq, h.tables.dir 0 (by decide)] at hframe
      exact absurd hframe (by decide)
    · rw [heq, h.tables.dir 768 (by decide)] at hframe
      exact absurd hframe (by decide)

theorem spare_one (hpos : 0 < m.pages.freePageListEntries)
    (habove : m.pFreeMemoryStart ≤ m.pages.freePageList m.pages.freePageListEntries) : Spare 1 m := by
  refine ⟨hpos, fun k hk => ?_⟩
  obtain rfl : k = 0 := by omega
  exact habove

/-- The list is empty: the handler enters page 0. -/
theorem empty_not_refused (h : PagedHeap m) (hfault : HeapFault address errorCode m)
    (hslot : dirIndex address = heapSlot) (hempty : m.pages.freePageListEntries = 0) :
    ¬ NothingMapped m (handled address m) := by
  intro hnothing
  have htable := heapSlot_frame h hslot
  have hphys : (handled address m).phys =
      Function.update m.phys (entryIndex heapTableFrame (pageIndex address)) (makePTEphys 0 mappedFlags) := by
    rw [handled]
    dsimp only
    rw [entryWritten, htable, virt2Page_pageIndex, allocPage_empty hempty]
  have hdir : entryAt (handled address m).phys directory heapSlot = 0x7003 := by
    rw [hphys, entryAt_update_frame _ (pageIndex_lt _) (by decide) (by decide)]
    exact h.tables.heapDirectory
  have hp : PresentEntry m.phys heapSlot (pageIndex address) := by
    refine hnothing _ _ ⟨by decide, pageIndex_lt _, by rw [hdir]; decide, ?_⟩
    rw [tableEntry, hdir]
    change present (entryAt _ heapTableFrame (pageIndex address))
    rw [hphys, entryAt_update_same]
    decide
  have hwalk := walk_of_present (m := m.phys) (D := directory) (v := address)
    (by rw [hslot]; exact hp.table) (by rw [hslot]; exact hp.entry)
  rw [hfault.missing] at hwalk
  cases hwalk

/-- The top page lies in the kernel or the list: the first four megabytes name it already. -/
theorem low_not_pagedIn (h : PagedHeap m) (hslot : dirIndex address = heapSlot) {e : ℕ × ℕ}
    (hlow : m.pages.freePageList m.pages.freePageListEntries < m.pFreeMemoryStart) :
    ¬ PagedIn address e m (pageMapped (pageIndex address) m) := by
  intro hin
  have haligned := (stack_entry h.stack (le_refl m.pages.freePageListEntries)).2
  have hfits := h.fits
  have htables := h.tables.pageMapped (j := pageIndex address) (pageIndex_lt address)
  have hmapped := hin.mapped
  rw [pageMapped_walk h hslot] at hmapped
  obtain rfl := Option.some.inj hmapped
  have hdir : entryAt (pageMapped (pageIndex address) m).phys directory 0 = 0x5003 := htables.dir 0 (by decide)
  have hentry : tableEntry (pageMapped (pageIndex address) m).phys 0
      (m.pages.freePageList m.pages.freePageListEntries / 4096) =
      m.pages.freePageList m.pages.freePageListEntries + 3 := by
    rw [tableEntry, hdir]
    change entryAt _ 5 _ = _
    rw [htables.identity _ (by omega), ascending, if_pos (by omega)]
    omega
  obtain ⟨hzero, _⟩ := hin.only 0 (m.pages.freePageList m.pages.freePageListEntries / 4096)
    ⟨by decide, by omega, by rw [hdir]; decide, by rw [hentry]; exact present_page haligned⟩ (by rw [hentry])
  rw [hslot] at hzero
  exact absurd hzero (by decide)

/-- The handler serves a fault, or leaves the tables alone, exactly when a page taken for a table that is there
is a page and lies above the kernel and the list. -/
theorem faultServed_iff (h : PagedHeap m) (hfault : HeapFault address errorCode m) (eip : ℕ) :
    FaultServed address errorCode eip m ↔ PageForFault address m := by
  have hrun : pageFaultHandler address errorCode eip m = some (handled address m) :=
    pageFaultHandler_eq h hfault.code hfault.low hfault.driverHeap hfault.heapEnd
  have htable := hasTable_iff h hfault.low hfault.driverHeap
  constructor
  · intro hserved hp
    have hslot := htable.mp hp
    rcases Nat.eq_zero_or_pos m.pages.freePageListEntries with hempty | hpos
    · have hnone : (allocPage m.pages).1 = 0 := by rw [allocPage_empty hempty]
      exact absurd (hserved.refused (Or.inl hnone) _ hrun) (empty_not_refused h hfault hslot hempty)
    · have hpage : (allocPage m.pages).1 ≠ 0 := by
        rw [allocPage_top h.stack hpos]
        exact h.stack.nonzero _ le_rfl
      obtain ⟨u, e, hu, hin⟩ := hserved.served hp hpage
      obtain rfl := Option.some.inj (hrun.symm.trans hu)
      rw [handled_pageMapped h hpos hslot] at hin
      exact spare_one hpos (Nat.le_of_not_lt fun hlow => low_not_pagedIn h hslot hlow hin)
  · intro hpage
    refine ⟨fun hp _ => ?_, fun hnone u hu => ?_⟩
    · have hspare := hpage hp
      rw [hrun, handled_pageMapped h hspare.enough (htable.mp hp)]
      exact ⟨_, _, rfl, pageMapped_pagedIn h hspare (htable.mp hp)⟩
    · have hno : ¬ HasTable address m := by
        rcases hnone with hnone | hno
        · intro hp
          rw [allocPage_top h.stack (hpage hp).enough] at hnone
          exact h.stack.nonzero _ le_rfl hnone
        · exact hno
      obtain rfl := Option.some.inj (hrun.symm.trans hu)
      exact fun d j hdj => sameTables_presentEntry
        (handled_sameTables h hfault.low hfault.driverHeap fun hslot => hno (htable.mpr hslot)) hdj

end Fault

/-- On a machine whose tables fit and whose heap table was clean, after any requests and faults that took
their pages from above the kernel and the list. -/
theorem demandPaging_iff {sysInfo : SystemInfo} (h : Admissible sysInfo)
    (hfits : virt2Phys sysInfo.kernelEnd + sysInfo.totalMemory / 1024 ≤ 0x400000)
    (hpage : virt2Phys sysInfo.kernelEnd + sysInfo.totalMemory / 1024 + pageSize ≤ sysInfo.totalMemory)
    {ram : Phys} (hclean : CleanHeapTable ram) (list : ℕ → ℕ) :
    ∃ b m, initVirtMem wordSize sysInfo (staticMemory ram list) = some b ∧ initHeap b = some m ∧
      ∀ events u, Every KernelStep (fun _ w event _ => Supplied w event) m events → Run KernelStep m events u →
        ∀ address errorCode eip, HeapFault address errorCode u →
          (FaultServed address errorCode eip u ↔ PageForFault address u) := by
  obtain ⟨b, m, hb, hm, hfresh⟩ := initHeap_freshHeap h hfits hpage hclean list
  refine ⟨b, m, hb, hm, fun events u hsupplied hrun address errorCode eip hfault => ?_⟩
  obtain ⟨hpaged, _⟩ := run_pagedHeap hfresh.paged hfresh.books.free hsupplied hrun
  exact faultServed_iff hpaged hfault eip

theorem cleanHeapTable_zeros : CleanHeapTable fun _ => 0 := fun _ _ _ => (by decide : ¬ present 0)

theorem demandPaging_twoMegabytes :
    ∃ b m, initVirtMem wordSize twoMegabytes (staticMemory (fun _ => 0) fun _ => 0) = some b ∧
      initHeap b = some m ∧ ∀ events u, Every KernelStep (fun _ w event _ => Supplied w event) m events →
        Run KernelStep m events u → ∀ address errorCode eip, HeapFault address errorCode u →
          (FaultServed address errorCode eip u ↔ PageForFault address u) :=
  demandPaging_iff twoMegabytes_admissible (by decide) (by decide)
    cleanHeapTable_zeros _

/-- Two whole pages behind the free page list, which ends inside the page `0x110000`. -/
def tightMachine : SystemInfo where
  totalMemory := 0x113000
  kernelEnd := 0xC0010000

theorem tightMachine_admissible : Admissible tightMachine :=
  ⟨by decide, by decide, by decide, by decide, by decide, by decide⟩

/-- The heap after its first request, of 2000 bytes. `kernelHeapEnd` has moved by 8000. -/
theorem tightMachine_request :
    ∃ b m u, initVirtMem wordSize tightMachine (staticMemory (fun _ => 0) fun _ => 0) = some b ∧
      initHeap b = some m ∧ Run KernelStep m [.kmalloc 2000] u ∧ PagedHeap u ∧
      u.pFreeMemoryStart = 0x11044C ∧ u.kernelHeapEnd = 0xD0001F40 ∧ 0 < u.pages.freePageListEntries ∧
      u.pages.freePageList u.pages.freePageListEntries = 0x110000 ∧
      ¬ present (entryAt u.phys heapTableFrame 1) := by
  obtain ⟨b, m, hb, hm, hfresh⟩ := initHeap_freshHeap tightMachine_admissible (by decide) (by decide)
    cleanHeapTable_zeros fun _ => 0
  obtain ⟨b', m', hb', hm', hready, hfree, _⟩ := initHeap_heapReady tightMachine_admissible (by decide)
    (fun _ => 0) fun _ => 0
  obtain rfl := Option.some.inj (hb.symm.trans hb')
  obtain rfl := Option.some.inj (hm.symm.trans hm')
  have hlimit := hfresh.books.limit
  have hpasses : passes m.vHeapMappedLimit 2000 = 1 := by
    rw [hlimit]
    decide
  have hstart : m.pFreeMemoryStart = 0x11044C := hfresh.start
  obtain ⟨_, htop⟩ := hfresh.list 0 0x111000 (by decide) rfl
  obtain ⟨hone, hnext⟩ := hfresh.list 1 0x110000 (by decide) rfl
  obtain ⟨htwo, _⟩ := hfresh.list 2 0x10F000 (by decide) rfl
  rw [Nat.sub_zero] at htop
  have hspare : Spare (passes m.vHeapMappedLimit 2000) m := by
    rw [hpasses]
    exact spare_one hone (by rw [hstart, htop]; decide)
  have hmet : CanBeMet 2000 m := by
    refine ⟨?_, Or.inl ?_, hspare.enough, hspare.above⟩
    · rw [hlimit]
      decide
    · rw [hlimit]
      decide
  obtain ⟨fuel, p, u, hrun⟩ := kmalloc_returns hready hfree hmet
  have hp := kmalloc_limit hready hfree (by decide) hrun
  rw [hlimit] at hp
  obtain ⟨_, _, _, hend⟩ := HeapBooks.kmalloc_books hfree (by decide) (by rw [hp]; decide) hrun
  have hu := hfresh.paged.kmalloc hfree hspare hrun
  have hentries := hu.entries
  rw [hpasses] at hentries
  refine ⟨b, m, u, hb, hm, .single ⟨fuel, p, hrun⟩, hu.paged, hu.start.trans hstart, ?_, by omega, ?_, ?_⟩
  · rw [hend, hp]
    decide
  · rw [hu.below _ le_rfl, ← hnext, ← hentries, Nat.add_sub_cancel]
  · rw [hu.kept 1 (by decide) (by rw [hlimit]; decide)]
    exact fun hp1 => absurd (hfresh.first 1 (by decide) hp1) (by decide)

/-- The second page of the heap is backed by the page in which the free page list ends. -/
theorem demandPaging_fails :
    ∃ b m u, initVirtMem wordSize tightMachine (staticMemory (fun _ => 0) fun _ => 0) = some b ∧
      initHeap b = some m ∧ Run KernelStep m [.kmalloc 2000] u ∧ HeapFault 0xD0001000 2 u ∧
      HasTable 0xD0001000 u ∧ (allocPage u.pages).1 = 0x110000 ∧ ¬ FaultServed 0xD0001000 2 0xC0000000 u := by
  obtain ⟨b, m, u, hb, hm, hrun, hpaged, hstart, hend, hpos, htop, hmissing⟩ := tightMachine_request
  have htable : HasTable 0xD0001000 u := (hasTable_iff hpaged (by decide) (by decide)).mpr rfl
  have hfault : HeapFault 0xD0001000 2 u := by
    refine ⟨by decide, by rw [hend]; decide, by decide, by decide, ?_⟩
    have hdir : entryAt u.phys directory (dirIndex 0xD0001000) = 0x7003 := hpaged.tables.heapDirectory
    rw [walk_table htable, hdir]
    exact if_neg hmissing
  refine ⟨b, m, u, hb, hm, hrun, hfault, htable, by rw [allocPage_top hpaged.stack hpos, htop],
    fun hserved => ?_⟩
  have hspare := (faultServed_iff hpaged hfault _).mp hserved htable
  have habove := hspare.above 0 Nat.one_pos
  rw [Nat.sub_zero, htop, hstart] at habove
  exact absurd habove (by decide)

end Ktux.DemandPaging
