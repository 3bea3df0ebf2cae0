import Ktux.Heap

set_option autoImplicit false

/-!
# The kernel allocator

`kmalloc` over `sbrk`. It has nothing to free: `freeBytes` is zero between calls, and each request moves the
end of the mapped heap. `memsetd` clears what is handed out through the page tables.
-/
namespace Ktux.Kmalloc
open Words MemoryLayout PageAllocator Loops Runs TwoLevelPaging KernelMemory MapPage FreePageList Heap

/-- A page fault does not come back here: `page_fault_handler` loops, or its stub returns elsewhere. -/
def writeByte (address x : ℕ) (m : Memory) : Option Memory :=
  (storeByte m.phys directory address x).map fun phys => { m with phys := phys }

/-- A pointer need not be aligned, so the four bytes may lie on two pages. -/
def writeDword (address val : ℕ) (m : Memory) : Option Memory := do
  let m ← writeByte address val m
  let m ← writeByte (wadd address 1) (val >>> 8) m
  let m ← writeByte (wadd address 2) (val >>> 16) m
  writeByte (wadd address 3) (val >>> 24) m

def memsetd (temp val : ℕ) : ℕ → Memory → Option Memory
  | 0, m => some m
  | count + 1, m => (writeDword temp val m).bind (memsetd (wadd temp 4) val count)

/-- `kernelHeapEnd` points to words: adding `nbytes` to it moves it by four times as many bytes. -/
def handOut (nbytes : ℕ) (m : Memory) : Option (ℕ × Memory) :=
  let p := m.kernelHeapEnd
  let m := { m with
    kernelHeapEnd := wadd m.kernelHeapEnd (4 * nbytes)
    freeBytes := wsub m.freeBytes nbytes }
  (memsetd p 0 (nbytes >>> 2) m).map fun m => (p, m)

/-- The value of `sbrk` that `kmalloc` takes for a failure. -/
def sbrkFailed : ℕ := wordSize - 1

def kmalloc : ℕ → ℕ → Memory → Option (ℕ × Memory)
  | 0, _, _ => none
  | fuel + 1, nbytes, m =>
    if nbytes ≤ m.freeBytes then handOut nbytes m
    else if pageSize < nbytes then do
      let (p, m) ← sbrk fuel nbytes m
      if p = sbrkFailed then return (0, m)
      let m ← memsetd p 0 (nbytes >>> 2) { m with kernelHeapEnd := wadd p nbytes }
      return (p, m)
    else do
      let (p, m) ← sbrk fuel nbytes m
      if p = sbrkFailed then return (0, m)
      kmalloc fuel nbytes { m with freeBytes := wadd m.freeBytes nbytes, kernelHeapEnd := p }

/-- The request needs more pages than the list holds, or it would pass the driver heap. -/
def CannotBeMet (nbytes : ℕ) (m : Memory) : Prop :=
  m.pages.freePageListEntries < passes m.vHeapMappedLimit nbytes ∨
    vKernelDriverHeap < m.vHeapMappedLimit + nbytes

/-- What a call maps in the heap is not the physical page 0. -/
def NoZeroPage (m u : Phys) : Prop :=
  ∀ a, vKernelHeapAddr ≤ a → a < vKernelDriverHeap → ∀ e, walk u directory a = some e → frame e.2 = 0 →
    walk m directory a = some e

/-- A request that cannot be met returns 0 and changes nothing, and no request maps the physical page 0. -/
structure CleanRequest (nbytes : ℕ) (m : Memory) (p : ℕ) (u : Memory) : Prop where
  refused : CannotBeMet nbytes m → p = 0 ∧ u.vHeapMappedLimit = m.vHeapMappedLimit ∧
    u.kernelHeapEnd = m.kernelHeapEnd ∧ u.freeBytes = m.freeBytes
  noZeroPage : NoZeroPage m.phys u.phys

def ServedClean (nbytes : ℕ) (m : Memory) : Prop :=
  ∃ fuel p u, kmalloc fuel nbytes m = some (p, u) ∧ CleanRequest nbytes m p u

def KmallocStep (m : Memory) (nbytes : ℕ) (u : Memory) : Prop :=
  ∃ fuel p, kmalloc fuel nbytes m = some (p, u)

/-- The request ends in the heap's first page table, it does not leave a page it starts inside, and the list
has pages for it that lie above the kernel and the list. -/
structure CanBeMet (nbytes : ℕ) (m : Memory) : Prop where
  inTable : m.vHeapMappedLimit + nbytes ≤ vKernelHeapAddr + 0x400000
  inPage : m.vHeapMappedLimit % pageSize = 0 ∨ nbytes ≤ pageSize - m.vHeapMappedLimit % pageSize
  pages : passes m.vHeapMappedLimit nbytes ≤ m.pages.freePageListEntries
  aboveKernel : ∀ k < passes m.vHeapMappedLimit nbytes,
    m.pFreeMemoryStart ≤ m.pages.freePageList (m.pages.freePageListEntries - k)

/-- The heap between two requests: its pages lie above the first megabyte, the page tables in it. -/
structure HeapReady (used : ℕ) (m : Memory) : Prop where
  heap : HeapState used m
  room : used ≤ 0x400000
  tables : ∀ d < 1024, present (entryAt m.phys directory d) → frame (entryAt m.phys directory d) < 256
  pages : ∀ j, j * 4096 < used → 256 ≤ frame (entryAt m.phys (heapTable m.phys) j)
  start : kernelPhysAddr ≤ m.pFreeMemoryStart

section Clear
variable {m u : Memory} {used : ℕ}

theorem heapTable_same {m u : Phys} (h : SameTables directory m u) : heapTable u = heapTable m :=
  congrArg frame (h.dir heapSlot (by decide))

theorem HeapReady.congr (h : HeapReady used m) (hphys : SameTables directory m.phys u.phys)
    (hlimit : u.vHeapMappedLimit = m.vHeapMappedLimit) (hpages : u.pages = m.pages)
    (hstart : u.pFreeMemoryStart = m.pFreeMemoryStart) : HeapReady used u := by
  have hslot := hphys.dir heapSlot (by decide)
  have hentry : ∀ j, j * 4096 < used → entryAt u.phys (heapTable u.phys) j =
      entryAt m.phys (heapTable m.phys) j := by
    intro j hj
    have hroom := h.room
    rw [heapTable_same hphys]
    exact hphys.table heapSlot (by decide) h.heap.table j (by omega)
  refine ⟨⟨?_, ?_, ?_, ?_, ?_⟩, h.room, ?_, ?_, ?_⟩
  · exact h.heap.paging.table_written hphys.dir
      (hphys.table 0 (by decide) h.heap.paging.identity.first directory (by decide))
  · rw [hslot]
    exact h.heap.table
  · rw [hlimit]
    exact h.heap.limit
  · rw [hpages]
    exact h.heap.stack
  · intro j hj
    rw [hentry j hj, hpages]
    exact h.heap.mapped j hj
  · intro d hd hp
    rw [hphys.dir d hd] at hp ⊢
    exact h.tables d hd hp
  · intro j hj
    rw [hentry j hj]
    exact h.pages j hj
  · rw [hstart]
    exact h.start

theorem HeapReady.walk_page (h : HeapReady used m) {x : ℕ} (hx : x < used) :
    ∃ pde pte, walk m.phys directory (vKernelHeapAddr + x) = some (pde, pte) ∧ 256 ≤ frame pte := by
  have hroom := h.room
  obtain ⟨a, ha, hentry, _⟩ := h.heap.mapped (x / 4096) (by omega)
  refine ⟨entryAt m.phys directory heapSlot, _, ?_, h.pages (x / 4096) (by omega)⟩
  rw [heap_walk h.heap.table (by omega), hentry, if_pos (present_page ha)]

theorem HeapReady.writeByte (h : HeapReady used m) {x : ℕ} (hx : x < used) (val : ℕ) :
    ∃ phys, Kmalloc.writeByte (vKernelHeapAddr + x) val m = some { m with phys := phys } ∧
      SameTables directory m.phys phys := by
  obtain ⟨pde, pte, hwalk, hframe⟩ := h.walk_page hx
  obtain ⟨w, hw⟩ := storeByte_of_walk (x := val) hwalk
  refine ⟨_, by rw [Kmalloc.writeByte, hw, Option.map_some], ?_⟩
  refine sameTables_update (by omega) (by rw [directory]; omega) fun d hd hp => ?_
  have := h.tables d hd hp
  omega

theorem HeapReady.rewrite (h : HeapReady used m) {phys : Phys} (hphys : SameTables directory m.phys phys) :
    HeapReady used { m with phys := phys } := h.congr hphys rfl rfl rfl

theorem HeapReady.writeByte_next (h : HeapReady used m) {x : ℕ} (hx : x < used) (k val : ℕ)
    (hk : k ≤ x) : ∃ phys, Kmalloc.writeByte (wadd (vKernelHeapAddr + (x - k)) k) val m =
      some { m with phys := phys } ∧ SameTables directory m.phys phys := by
  have hroom := h.room
  have haddr : wadd (vKernelHeapAddr + (x - k)) k = vKernelHeapAddr + x := by
    rw [wadd_of_lt, vKernelHeapAddr]
    · omega
    · rw [vKernelHeapAddr, wordSize_eq]
      omega
  rw [haddr]
  exact h.writeByte hx val

theorem HeapReady.writeDword (h : HeapReady used m) {x : ℕ} (hx : x + 4 ≤ used) (val : ℕ) :
    ∃ phys, Kmalloc.writeDword (vKernelHeapAddr + x) val m = some { m with phys := phys } ∧
      SameTables directory m.phys phys := by
  obtain ⟨a, ha, hma⟩ := h.writeByte (x := x) (by omega) val
  have h1 := h.rewrite hma
  obtain ⟨b, hb, hmb⟩ := h1.writeByte_next (x := x + 1) (by omega) 1 (val >>> 8) (by omega)
  have h2 := h1.rewrite hmb
  obtain ⟨c, hc, hmc⟩ := h2.writeByte_next (x := x + 2) (by omega) 2 (val >>> 16) (by omega)
  have h3 := h2.rewrite hmc
  obtain ⟨d, hd, hmd⟩ := h3.writeByte_next (x := x + 3) (by omega) 3 (val >>> 24) (by omega)
  rw [Nat.add_sub_cancel] at hb hc hd
  refine ⟨d, ?_, ((hma.trans hmb).trans hmc).trans hmd⟩
  simp only [Kmalloc.writeDword, ha, hb, hc, Option.bind_eq_bind, Option.bind_some]
  exact hd

/-- Within the pages of the heap `memsetd` meets no fault and leaves the page tables alone. -/
theorem HeapReady.memsetd (h : HeapReady used m) {x count : ℕ} (hx : x + 4 * count ≤ used) (val : ℕ) :
    ∃ phys, Kmalloc.memsetd (vKernelHeapAddr + x) val count m = some { m with phys := phys } ∧
      SameTables directory m.phys phys := by
  induction count generalizing m x with
  | zero => exact ⟨m.phys, rfl, SameTables.refl _⟩
  | succ count ih =>
    have hroom := h.room
    have hnext : wadd (vKernelHeapAddr + x) 4 = vKernelHeapAddr + (x + 4) := by
      rw [wadd_of_lt, Nat.add_assoc]
      rw [vKernelHeapAddr, wordSize_eq]
      omega
    obtain ⟨a, ha, hma⟩ := h.writeDword (x := x) (by omega) val
    obtain ⟨b, hb, hmb⟩ := ih (h.rewrite hma) (x := x + 4) (by omega)
    refine ⟨b, ?_, hma.trans hmb⟩
    rw [Kmalloc.memsetd, ha, Option.bind_some, hnext]
    exact hb

end Clear

section Request
variable {m u : Memory} {used nbytes : ℕ}

theorem passes_limit (hm : m.vHeapMappedLimit = vKernelHeapAddr + used) :
    passes m.vHeapMappedLimit nbytes = passes used nbytes := by
  rw [hm, passes, passes, vKernelHeapAddr]
  omega

theorem CanBeMet.affordable (h : CanBeMet nbytes m) (hm : m.vHeapMappedLimit = vKernelHeapAddr + used)
    (hpos : 0 < nbytes) : Affordable used nbytes m ∧
      (used % pageSize = 0 ∨ nbytes ≤ pageSize - used % pageSize) := by
  have hroom := h.inTable
  have hpage := h.inPage
  have hpages := h.pages
  rw [passes_limit hm] at hpages
  rw [hm] at hroom hpage
  have hmod : (vKernelHeapAddr + used) % pageSize = used % pageSize := by
    rw [vKernelHeapAddr, pageSize]
    omega
  rw [hmod] at hpage
  exact ⟨⟨hpos, by omega, hpages⟩, hpage⟩

theorem CanBeMet.not_cannot (h : CanBeMet nbytes m) : ¬ CannotBeMet nbytes m := by
  rintro (hpages | hroom)
  · exact absurd h.pages (by omega)
  · have := h.inTable
    rw [vKernelHeapAddr] at this
    rw [vKernelDriverHeap] at hroom
    omega

theorem frame_entry {a : ℕ} (ha : a % 4096 = 0) : frame (a + 3) = a / 4096 := by
  unfold frame
  omega

/-- The pages that the request maps are free pages from above the kernel. -/
theorem CanBeMet.new_frame (h : CanBeMet nbytes m) (hr : HeapReady used m) {k : ℕ}
    (hk : k < passes used nbytes) :
    256 ≤ frame (m.pages.freePageList (m.pages.freePageListEntries - k) + 3) := by
  have habove := h.aboveKernel k (by rwa [passes_limit hr.heap.limit])
  have hstart := hr.start
  rw [kernelPhysAddr] at hstart
  rw [frame_entry (stack_entry hr.heap.stack (Nat.sub_le _ k)).2]
  omega

theorem HeapReady.grown (h : HeapReady used m) (hmet : CanBeMet nbytes m) (hpos : 0 < nbytes) {v : Memory}
    (hg : Grown used m (passes used nbytes) v) (hstart : v.pFreeMemoryStart = m.pFreeMemoryStart) :
    HeapReady (used + nbytes) { v with vHeapMappedLimit := m.vHeapMappedLimit + nbytes } := by
  obtain ⟨hcall, hfit⟩ := hmet.affordable h.heap.limit hpos
  have hroom := hcall.inTable
  have hrange := hcall.range
  refine ⟨h.heap.grown hcall hfit hg, hroom, ?_, ?_, ?_⟩
  · intro d hd hp
    dsimp only at hp ⊢
    rw [hg.directory_eq h.heap hrange hd] at hp ⊢
    exact h.tables d hd hp
  · intro j hj
    dsimp only
    rw [(hg.table_eq h.heap hrange).2]
    rcases hg.entry_cases hcall hfit hj with ⟨hold, hkept⟩ | ⟨k, hk, hnew⟩
    · rw [hkept]
      exact h.pages j hold
    · rw [hnew]
      exact hmet.new_frame h hk
  · dsimp only
    rw [hstart]
    exact h.start

theorem HeapReady.noZeroPage (h : HeapReady used m) (hmet : CanBeMet nbytes m) (hpos : 0 < nbytes)
    {v : Memory} (hg : Grown used m (passes used nbytes) v) : NoZeroPage m.phys v.phys := by
  obtain ⟨hcall, hfit⟩ := hmet.affordable h.heap.limit hpos
  have hrange := hcall.range
  intro a hlo hhi e he hzero
  rw [vKernelHeapAddr] at hlo
  rw [vKernelDriverHeap] at hhi
  have hslot : dirIndex a < 960 := by
    unfold dirIndex
    omega
  have hdir := hg.directory_eq h.heap hrange (d := dirIndex a) (by omega)
  by_cases hnew : dirIndex a = heapSlot ∧ used / 4096 ≤ pageIndex a ∧
      pageIndex a < used / 4096 + passes used nbytes
  · obtain ⟨hd, hplo, hphi⟩ := hnew
    have hentry := hg.entry_new hplo hphi
    have hframe := hmet.new_frame h (k := pageIndex a - used / 4096) (by omega)
    have hwalk := walk_table (m := v.phys) (D := directory) (v := a) (by
      rw [hdir, hd]
      exact h.heap.table)
    rw [hdir, hd] at hwalk
    change _ = if present (entryAt v.phys (heapTable m.phys) (pageIndex a)) then
      some (_, entryAt v.phys (heapTable m.phys) (pageIndex a)) else none at hwalk
    rw [hwalk, hentry, if_pos (present_page (stack_entry h.heap.stack (Nat.sub_le _ _)).2)] at he
    rw [← Option.some.inj he] at hzero
    dsimp only at hzero
    omega
  · rw [← he]
    refine (walk_congr hdir fun hp => ?_).symm
    rw [hg.phys]
    refine entryAt_writeEntries_other _ _ hrange (pageIndex_lt a) ?_
    by_cases hd : dirIndex a = heapSlot
    · exact Or.inr (by omega)
    · refine Or.inl fun hframe => hd ?_
      exact h.heap.paging.apart _ (by omega) _ (by decide) (by rw [windowSlot]; omega) (by decide) hp
        h.heap.table hframe

/-- What a request leaves that could be met. -/
structure Served (used nbytes : ℕ) (m u : Memory) : Prop where
  ready : HeapReady (used + nbytes) u
  free : u.freeBytes = 0
  noZeroPage : NoZeroPage m.phys u.phys

theorem sbrk_ready (h : HeapReady used m) (hmet : CanBeMet nbytes m) (hpos : 0 < nbytes) {fuel p : ℕ}
    {w : Memory} (hrun : sbrk fuel nbytes m = some (p, w)) :
    p = vKernelHeapAddr + used ∧ HeapReady (used + nbytes) w ∧ w.freeBytes = m.freeBytes ∧
      NoZeroPage m.phys w.phys := by
  obtain ⟨hp, hrest⟩ := sbrk_limit hrun
  obtain ⟨_, v, hg, rfl⟩ := sbrk_spec h.heap (hmet.affordable h.heap.limit hpos).1 hrun
  have hstart := congrArg Memory.pFreeMemoryStart hrest
  have hfree := congrArg Memory.freeBytes hrest
  have hzero := h.noZeroPage hmet hpos hg
  exact ⟨hp.trans h.heap.limit, h.grown hmet hpos hg hstart, hfree, hzero⟩

theorem NoZeroPage.rewrite {m w u : Phys} (h : NoZeroPage m w) (hw : SameTables directory w u) :
    NoZeroPage m u := by
  intro a hlo hhi e he hzero
  rw [vKernelDriverHeap] at hhi
  rw [hw.walk_eq (by unfold dirIndex; omega)] at he
  exact h a hlo hhi e he hzero

/-- Clearing the bytes that the request was given. -/
theorem HeapReady.cleared (h : HeapReady (used + nbytes) u) : ∃ phys,
    Kmalloc.memsetd (vKernelHeapAddr + used) 0 (nbytes >>> 2) u = some { u with phys := phys } ∧
      SameTables directory u.phys phys := by
  refine h.memsetd ?_ 0
  rw [Nat.shiftRight_eq_div_pow]
  omega

theorem handOut_served (h : HeapReady (used + nbytes) u) (hend : u.kernelHeapEnd = vKernelHeapAddr + used)
    (hfree : u.freeBytes = nbytes) (hzero : NoZeroPage m.phys u.phys) :
    ∃ w, handOut nbytes u = some (vKernelHeapAddr + used, w) ∧ Served used nbytes m w := by
  have hroom := h.room
  have hnone : wsub u.freeBytes nbytes = 0 := by
    rw [hfree, wsub_of_le (le_refl _), Nat.sub_self]
    rw [wordSize_eq]
    omega
  have hnext : HeapReady (used + nbytes) { u with
      kernelHeapEnd := wadd u.kernelHeapEnd (4 * nbytes), freeBytes := wsub u.freeBytes nbytes } :=
    h.congr (SameTables.refl _) rfl rfl rfl
  obtain ⟨phys, hphys, htables⟩ := hnext.cleared
  refine ⟨_, ?_, hnext.rewrite htables, hnone, hzero.rewrite htables⟩
  rw [handOut, hend]
  rw [hend] at hphys
  simp only [hphys, Option.map_some]

/-- Once `sbrk` has returned, so does `kmalloc`, with the old limit. -/
theorem kmalloc_served (h : HeapReady used m) (hfree : m.freeBytes = 0) (hmet : CanBeMet nbytes m)
    (hpos : 0 < nbytes) {fuel p : ℕ} {w : Memory} (hrun : sbrk (fuel + 1) nbytes m = some (p, w)) :
    ∃ u, kmalloc (fuel + 2) nbytes m = some (vKernelHeapAddr + used, u) ∧ Served used nbytes m u := by
  have hroom := (hmet.affordable h.heap.limit hpos).1.inTable
  obtain ⟨rfl, hready, hkept, hzero⟩ := sbrk_ready h hmet hpos hrun
  have hnot : ¬ nbytes ≤ m.freeBytes := by omega
  have hok : vKernelHeapAddr + used ≠ sbrkFailed := by
    rw [vKernelHeapAddr, sbrkFailed, wordSize_eq]
    omega
  rw [kmalloc, if_neg hnot, hrun]
  simp only [Option.bind_eq_bind, Option.bind_some, if_neg hok]
  split_ifs with hlarge
  · obtain ⟨phys, hphys, htables⟩ := (hready.congr (u := { w with
      kernelHeapEnd := wadd (vKernelHeapAddr + used) nbytes }) (SameTables.refl _) rfl rfl rfl).cleared
    rw [hphys]
    exact ⟨_, rfl, hready.congr htables rfl rfl rfl, hkept.trans hfree, hzero.rewrite htables⟩
  · have hmore : wadd w.freeBytes nbytes = nbytes := by
      rw [hkept, hfree, wadd_of_lt, Nat.zero_add]
      rw [wordSize_eq]
      omega
    rw [kmalloc, if_pos (by rw [hmore])]
    exact handOut_served (hready.congr (SameTables.refl _) rfl rfl rfl) rfl hmore hzero

theorem served_nothing (h : HeapReady used m) (hfree : m.freeBytes = 0) : Served used 0 m
    { m with kernelHeapEnd := wadd m.kernelHeapEnd (4 * 0), freeBytes := wsub m.freeBytes 0 } := by
  refine ⟨h.congr (SameTables.refl _) rfl rfl rfl, ?_, fun _ _ _ _ he _ => he⟩
  dsimp only
  rw [hfree]
  rfl

/-- A call that is not served from `freeBytes` goes through `sbrk`, which needs fuel. -/
theorem kmalloc_sbrk (hnot : ¬ nbytes ≤ m.freeBytes) {fuel : ℕ} {r : ℕ × Memory}
    (hrun : kmalloc fuel nbytes m = some r) :
    ∃ rest p w, fuel = rest + 2 ∧ sbrk (rest + 1) nbytes m = some (p, w) := by
  obtain _ | fuel := fuel
  · cases hrun
  · have hsbrk : ∃ p w, sbrk fuel nbytes m = some (p, w) := by
      rw [kmalloc, if_neg hnot] at hrun
      split_ifs at hrun
      all_goals
        obtain ⟨⟨p, w⟩, hs, _⟩ := Option.bind_eq_some_iff.mp hrun
        exact ⟨p, w, hs⟩
    obtain ⟨p, w, hs⟩ := hsbrk
    obtain _ | rest := fuel
    · cases hs
    · exact ⟨rest, p, w, rfl, hs⟩

/-- What a request does that comes back: after `sbrk` the variables move, and the bytes handed out are
cleared. -/
theorem kmalloc_cases (hfree : m.freeBytes = 0) (hpos : 0 < nbytes) {fuel p : ℕ}
    (hrun : kmalloc fuel nbytes m = some (p, u)) :
    ∃ rest w, sbrk rest nbytes m = some (m.vHeapMappedLimit, w) ∧
      (m.vHeapMappedLimit = sbrkFailed ∧ p = 0 ∧ u = w ∨
        p = m.vHeapMappedLimit ∧ memsetd p 0 (nbytes >>> 2)
          { w with
            kernelHeapEnd := wadd p (if pageSize < nbytes then nbytes else 4 * nbytes)
            freeBytes := 0 } = some u) := by
  have hnot : ¬ nbytes ≤ m.freeBytes := by omega
  obtain ⟨rest, q, w, rfl, hs⟩ := kmalloc_sbrk hnot hrun
  obtain ⟨rfl, hw⟩ := sbrk_limit hs
  have hkept : w.freeBytes = 0 := (congrArg Memory.freeBytes hw).trans hfree
  refine ⟨rest + 1, w, hs, ?_⟩
  rw [kmalloc, if_neg hnot, hs] at hrun
  simp only [Option.bind_eq_bind, Option.bind_some] at hrun
  split_ifs at hrun with hlarge hfailed hfailed
  · obtain ⟨rfl, rfl⟩ := Prod.mk.inj (Option.some.inj hrun)
    exact Or.inl ⟨hfailed, rfl, rfl⟩
  · obtain ⟨v, hv, heq⟩ := Option.bind_eq_some_iff.mp hrun
    obtain ⟨rfl, rfl⟩ := Prod.mk.inj (Option.some.inj heq)
    rw [hkept] at hv
    rw [if_pos hlarge]
    exact Or.inr ⟨rfl, hv⟩
  · obtain ⟨rfl, rfl⟩ := Prod.mk.inj (Option.some.inj hrun)
    exact Or.inl ⟨hfailed, rfl, rfl⟩
  · -- the call of itself finds the bytes that were just added
    have hmore : wadd w.freeBytes nbytes = nbytes := by
      rw [hkept, wadd_of_lt, Nat.zero_add]
      rw [pageSize] at hlarge
      rw [wordSize_eq]
      omega
    have hnone : wsub (wadd w.freeBytes nbytes) nbytes = 0 := by
      rw [hmore, wsub_of_le (le_refl _), Nat.sub_self]
      rw [← hmore]
      exact wadd_lt _ _
    rw [kmalloc, if_pos hmore.ge] at hrun
    obtain ⟨v, hv, heq⟩ := Option.map_eq_some_iff.mp hrun
    obtain ⟨rfl, rfl⟩ := Prod.mk.inj heq
    dsimp only at hv
    rw [hnone] at hv
    rw [if_neg hlarge]
    exact Or.inr ⟨rfl, hv⟩

theorem kmalloc_keeps (h : HeapReady used m) (hfree : m.freeBytes = 0) (hmet : CanBeMet nbytes m)
    {fuel p : ℕ} (hrun : kmalloc fuel nbytes m = some (p, u)) : Served used nbytes m u := by
  rcases Nat.eq_zero_or_pos nbytes with rfl | hpos
  · obtain _ | fuel := fuel
    · cases hrun
    · rw [kmalloc, if_pos (Nat.zero_le _)] at hrun
      obtain ⟨_, rfl⟩ := Prod.mk.inj (Option.some.inj hrun)
      exact served_nothing h hfree
  · obtain ⟨rest, q, w, rfl, hs⟩ := kmalloc_sbrk (by omega) hrun
    obtain ⟨u', hu', hserved⟩ := kmalloc_served h hfree hmet hpos hs
    rw [hu'] at hrun
    obtain ⟨_, rfl⟩ := Prod.mk.inj (Option.some.inj hrun)
    exact hserved

theorem kmalloc_returns (h : HeapReady used m) (hfree : m.freeBytes = 0) (hmet : CanBeMet nbytes m) :
    ∃ fuel p u, kmalloc fuel nbytes m = some (p, u) := by
  rcases Nat.eq_zero_or_pos nbytes with rfl | hpos
  · exact ⟨1, _, _, if_pos (Nat.zero_le _)⟩
  · obtain ⟨fuel, p, w, hs⟩ := sbrk_returns h.heap (hmet.affordable h.heap.limit hpos).1
    obtain _ | fuel := fuel
    · cases hs
    · obtain ⟨u, hu, _⟩ := kmalloc_served h hfree hmet hpos hs
      exact ⟨_, _, u, hu⟩

theorem CanBeMet.servedClean (hmet : CanBeMet nbytes m) (h : HeapReady used m) (hfree : m.freeBytes = 0) :
    ServedClean nbytes m := by
  obtain ⟨fuel, p, u, hrun⟩ := kmalloc_returns h hfree hmet
  have hserved := kmalloc_keeps h hfree hmet hrun
  exact ⟨fuel, p, u, hrun, fun hcannot => absurd hcannot hmet.not_cannot, hserved.noZeroPage⟩

/-- `sbrk` does not fail: a call that returns hands out the old limit. -/
theorem kmalloc_limit (h : HeapReady used m) (hfree : m.freeBytes = 0) (hpos : 0 < nbytes) {fuel p : ℕ}
    (hrun : kmalloc fuel nbytes m = some (p, u)) : p = m.vHeapMappedLimit := by
  have hroom := h.room
  have hok : m.vHeapMappedLimit ≠ sbrkFailed := by
    rw [h.heap.limit, vKernelHeapAddr, sbrkFailed, wordSize_eq]
    omega
  obtain ⟨_, _, _, ⟨hfailed, _⟩ | ⟨hp, _⟩⟩ := kmalloc_cases hfree hpos hrun
  · exact absurd hfailed hok
  · exact hp

theorem CannotBeMet.positive (hcannot : CannotBeMet nbytes m) (h : HeapReady used m) : 0 < nbytes := by
  have hroom := h.room
  refine Nat.pos_of_ne_zero ?_
  rintro rfl
  rcases hcannot with hpages | hlimit
  · rw [passes, Nat.add_zero, Nat.sub_self] at hpages
    omega
  · rw [h.heap.limit, vKernelHeapAddr, vKernelDriverHeap] at hlimit
    omega

theorem CannotBeMet.not_servedClean (hcannot : CannotBeMet nbytes m) (h : HeapReady used m)
    (hfree : m.freeBytes = 0) : ¬ ServedClean nbytes m := by
  rintro ⟨fuel, p, u, hrun, hclean⟩
  have hlimit := kmalloc_limit h hfree (hcannot.positive h) hrun
  rw [(hclean.refused hcannot).1, h.heap.limit, vKernelHeapAddr] at hlimit
  omega

end Request

theorem initHeap_heapReady {sysInfo : SystemInfo} (h : Admissible sysInfo)
    (hlimit : virt2Phys sysInfo.kernelEnd + sysInfo.totalMemory / 1024 ≤ 0x400000) (ram : Phys)
    (list : ℕ → ℕ) :
    ∃ b m, initVirtMem wordSize sysInfo (staticMemory ram list) = some b ∧ initHeap b = some m ∧
      HeapReady 0 m ∧ m.freeBytes = 0 ∧ m.pages.freePageListEntries * 4096 ≤ sysInfo.totalMemory := by
  obtain ⟨b, m, hb, hm, hstate⟩ := initHeap_heapState ram h hlimit list
  obtain ⟨s, haddr, hs, hrun⟩ := initVirtMem_eq h (staticMemory ram list) (le_refl wordSize)
  obtain rfl := Option.some.inj (hb.symm.trans hrun)
  have hP := h.freeMemoryStart (staticMemory ram list)
  have hkernel := h.above_kernel
  have hfits := h.fits
  have hstart : (markKernelEnd sysInfo (staticMemory ram list)).pFreeMemoryStart ≤ 0x400000 := by
    rw [hP]
    exact hlimit
  have hlo : kernelPhysAddr < (markKernelEnd sysInfo (staticMemory ram list)).pFreeMemoryStart := by
    rw [hP]
    omega
  have hphys : (markFreePages (pagingEnabled sysInfo (staticMemory ram list)) s).phys =
      bootTables ram (markKernelEnd sysInfo (staticMemory ram list)).pFreeMemoryStart := rfl
  have hstack := hs.stack (m := pagingEnabled sysInfo (staticMemory ram list)) haddr
    (by rw [kernelPhysAddr] at hlo; exact hlo) (by rw [hP]; exact hfits) h.totalMemory_aligned
    h.totalMemory_word rfl
  obtain rfl := Option.some.inj (hm.symm.trans (initHeap_eq hlo hstart hphys))
  refine ⟨_, _, hb, hm, ⟨hstate, Nat.zero_le _, fun d hd hp => ?_, fun j hj => ?_, hlo.le⟩, rfl, ?_⟩
  · rw [heapReady_directory hlo hstart hphys hd] at hp ⊢
    split_ifs
    all_goals decide
  · exact absurd hj (Nat.not_lt_zero _)
  · have hentries := hstack.allocPage_entries_le
    have hroom := hs.room
    rw [haddr] at hroom
    exact (Nat.mul_le_mul_right 4096 (hentries.trans (Nat.sub_le _ _))).trans hroom

/-- Taking the top page leaves the rest of the list. -/
theorem allocPage_rest {m : Memory} (h : FreePageStack m.pages.freePageListEntries m.pages) :
    (allocated m).pages.freePageListEntries = m.pages.freePageListEntries - 1 ∧
      ∀ i ≤ (allocated m).pages.freePageListEntries,
        (allocated m).pages.freePageList i = m.pages.freePageList i := by
  cases hentries : m.pages.freePageListEntries with
  | zero =>
    have hsame : (allocated m).pages = m.pages := congrArg Prod.snd (allocPage_empty hentries)
    rw [hsame, hentries]
    exact ⟨rfl, fun _ _ => rfl⟩
  | succ top =>
    rw [hentries] at h
    obtain ⟨_, hrest, hbelow⟩ := h.allocPage_pop
    have htop : (allocated m).pages.freePageListEntries = top := hrest.entries
    exact ⟨htop, fun i hi => hbelow i (htop ▸ hi)⟩

/-- The pages that `init_heap` leaves: from the top down, those below the first page of the heap. -/
theorem initHeap_list {sysInfo : SystemInfo} (h : Admissible sysInfo)
    (hlimit : virt2Phys sysInfo.kernelEnd + sysInfo.totalMemory / 1024 ≤ 0x400000) {ram : Phys}
    {list : ℕ → ℕ} {b m : Memory} (hb : initVirtMem wordSize sysInfo (staticMemory ram list) = some b)
    (hm : initHeap b = some m) :
    m.pFreeMemoryStart = virt2Phys sysInfo.kernelEnd + sysInfo.totalMemory / 1024 ∧
      ∀ k a, 0x100000 ≤ a → a + 4096 * (k + 1) + 4096 = sysInfo.totalMemory →
        k ≤ m.pages.freePageListEntries ∧ m.pages.freePageList (m.pages.freePageListEntries - k) = a := by
  obtain ⟨s, haddr, hs, hrun⟩ := initVirtMem_eq h (staticMemory ram list) (le_refl wordSize)
  obtain rfl := Option.some.inj (hb.symm.trans hrun)
  have hP := h.freeMemoryStart (staticMemory ram list)
  have hkernel := h.above_kernel
  have hlo : kernelPhysAddr < (markKernelEnd sysInfo (staticMemory ram list)).pFreeMemoryStart := by
    rw [hP]
    omega
  have hlow := hlo
  rw [kernelPhysAddr] at hlow
  rw [← hP] at hlimit
  have hphys : (markFreePages (pagingEnabled sysInfo (staticMemory ram list)) s).phys =
      bootTables ram (markKernelEnd sysInfo (staticMemory ram list)).pFreeMemoryStart := rfl
  obtain rfl := Option.some.inj (hm.symm.trans (initHeap_eq hlo hlimit hphys))
  have hstack := hs.stack (m := pagingEnabled sysInfo (staticMemory ram list)) haddr hlow
    (by rw [hP]; exact h.fits) h.totalMemory_aligned h.totalMemory_word rfl
  have hentries : (markFreePages (pagingEnabled sysInfo (staticMemory ram list)) s).pages.freePageListEntries =
      s.i - 1 := hstack.entries
  rw [← hentries] at hstack
  obtain ⟨hkept, hbelow⟩ := allocPage_rest hstack
  refine ⟨hP, fun k a hfirst ha => ?_⟩
  obtain ⟨hk, hka⟩ := listing_fromTop hs haddr hlow (k := k + 1) hfirst ha
  rw [hentries] at hkept
  change k ≤ (allocated (markFreePages _ _)).pages.freePageListEntries ∧
    (allocated (markFreePages _ _)).pages.freePageList
      ((allocated (markFreePages _ _)).pages.freePageListEntries - k) = _
  rw [hbelow _ (Nat.sub_le _ _), hkept]
  refine ⟨by omega, ?_⟩
  change s.freePageList (s.i - 1 - 1 - k) = _
  rw [Nat.sub_sub (s.i - 1), Nat.add_comm 1 k]
  exact hka

theorem run_heapReady {m u : Memory} {requests : List ℕ} (h : HeapReady 0 m) (hfree : m.freeBytes = 0)
    (hmet : Every KmallocStep (fun _ u nbytes _ => CanBeMet nbytes u) m requests)
    (hrun : Run KmallocStep m requests u) : (∃ used, HeapReady used u) ∧ u.freeBytes = 0 := by
  refine hrun.guarded_invariant (fun _ u => (∃ used, HeapReady used u) ∧ u.freeBytes = 0)
    ⟨⟨0, h⟩, hfree⟩ ?_ hmet
  rintro pre u nbytes v _ ⟨⟨used, hu⟩, hufree⟩ ⟨fuel, p, hstep⟩ hcan
  have hserved := kmalloc_keeps hu hufree hcan hstep
  exact ⟨⟨_, hserved.ready⟩, hserved.free⟩

/-- After requests that could all be met, the next one is served clean if it can be met too; one that cannot
be met is never served clean. -/
theorem kmalloc_clean {sysInfo : SystemInfo} (h : Admissible sysInfo)
    (hlimit : virt2Phys sysInfo.kernelEnd + sysInfo.totalMemory / 1024 ≤ 0x400000) (ram : Phys)
    (list : ℕ → ℕ) :
    ∃ b m, initVirtMem wordSize sysInfo (staticMemory ram list) = some b ∧ initHeap b = some m ∧
      ∀ requests u, Every KmallocStep (fun _ u nbytes _ => CanBeMet nbytes u) m requests →
        Run KmallocStep m requests u → ∀ nbytes, (CanBeMet nbytes u → ServedClean nbytes u) ∧
          (CannotBeMet nbytes u → ¬ ServedClean nbytes u) := by
  obtain ⟨b, m, hb, hm, hready, hfree, _⟩ := initHeap_heapReady h hlimit ram list
  refine ⟨b, m, hb, hm, fun requests u hmet hrun nbytes => ?_⟩
  obtain ⟨⟨used, hu⟩, hufree⟩ := run_heapReady hready hfree hmet hrun
  exact ⟨fun hcan => hcan.servedClean hu hufree, fun hcannot => hcannot.not_servedClean hu hufree⟩

def twoMegabytes : SystemInfo where
  totalMemory := 0x200000
  kernelEnd := 0xC0010000

theorem twoMegabytes_admissible : Admissible twoMegabytes :=
  ⟨by decide, by decide, by decide, by decide, by decide, by decide⟩

/-- A request for 2000 bytes and one for 500 more on the same page can both be met, three megabytes cannot. -/
theorem kmalloc_clean_twoMegabytes :
    ∃ b m u, initVirtMem wordSize twoMegabytes (staticMemory (fun _ => 0) (fun _ => 0)) = some b ∧
      initHeap b = some m ∧ CanBeMet 2000 m ∧ ServedClean 2000 m ∧ Run KmallocStep m [2000] u ∧ CanBeMet 500 u ∧
        ServedClean 500 u := by
  obtain ⟨b, m, hb, hm, hclean⟩ := kmalloc_clean twoMegabytes_admissible (by decide) (fun _ => 0) (fun _ => 0)
  obtain ⟨b', m', hb', hm', hready, hfree, _⟩ :=
    initHeap_heapReady twoMegabytes_admissible (by decide) (fun _ => 0) (fun _ => 0)
  obtain rfl := Option.some.inj (hb.symm.trans hb')
  obtain rfl := Option.some.inj (hm.symm.trans hm')
  obtain ⟨hstart, hlist⟩ := initHeap_list twoMegabytes_admissible (by decide) hb hm
  obtain ⟨hone, _⟩ := hlist 1 0x1FD000 (by decide) rfl
  obtain ⟨_, htop⟩ := hlist 0 0x1FE000 (by decide) rfl
  have hlimit := hready.heap.limit
  have hpasses : passes m.vHeapMappedLimit 2000 = 1 := by
    rw [passes_limit hlimit]
    decide
  have hfirst : CanBeMet 2000 m := by
    refine ⟨?_, Or.inl ?_, hpasses.trans_le hone, fun k hk => ?_⟩
    · rw [hlimit]
      decide
    · rw [hlimit]
      decide
    · obtain rfl : k = 0 := by omega
      rw [htop, hstart]
      decide
  obtain ⟨fuel, p, u, hrun⟩ := kmalloc_returns hready hfree hfirst
  have hnext := (kmalloc_keeps hready hfree hfirst hrun).ready
  have hnone : passes u.vHeapMappedLimit 500 = 0 := by
    rw [passes_limit hnext.heap.limit]
    decide
  have hsecond : CanBeMet 500 u := by
    refine ⟨?_, Or.inr ?_, hnone.trans_le (Nat.zero_le _), fun k hk => absurd (hnone ▸ hk) (Nat.not_lt_zero k)⟩
    · rw [hnext.heap.limit]
      decide
    · rw [hnext.heap.limit]
      decide
  have hstep : Run KmallocStep m [2000] u := .single ⟨fuel, p, hrun⟩
  have hnil : Every KmallocStep (fun _ u nbytes _ => CanBeMet nbytes u) m [] := every_nil
  have hmet : Every KmallocStep (fun _ u nbytes _ => CanBeMet nbytes u) m [2000] := by
    refine every_snoc.mpr ⟨hnil, fun v w hrun' _ => ?_⟩
    cases hrun'
    exact hfirst
  exact ⟨b, m, u, hb, hm, hfirst, (hclean [] m hnil (.refl m) 2000).1 hfirst, hstep, hsecond,
    (hclean [2000] u hmet hstep 500).1 hsecond⟩

/-- Three megabytes asked of a machine that has two. -/
theorem kmalloc_not_clean :
    ∃ b m, initVirtMem wordSize twoMegabytes (staticMemory (fun _ => 0) (fun _ => 0)) = some b ∧
      initHeap b = some m ∧ CannotBeMet 0x300000 m ∧ ¬ ServedClean 0x300000 m := by
  obtain ⟨b, m, hb, hm, hready, hfree, hentries⟩ :=
    initHeap_heapReady twoMegabytes_admissible (by decide) (fun _ => 0) (fun _ => 0)
  have hcannot : CannotBeMet 0x300000 m := by
    have hpasses : passes 0 0x300000 = 768 := by decide
    refine Or.inl ?_
    rw [passes_limit hready.heap.limit, hpasses]
    rw [twoMegabytes] at hentries
    dsimp only at hentries
    omega
  exact ⟨b, m, hb, hm, hcannot, hcannot.not_servedClean hready hfree⟩

end Ktux.Kmalloc
