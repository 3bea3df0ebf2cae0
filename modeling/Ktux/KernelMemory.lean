import Ktux.Loops
import Ktux.PageAllocator
import Ktux.TwoLevelPaging

set_option autoImplicit false

/-!
# The variables of the memory manager and the boot page tables

`init_virt_mem` up to `enable_paging`: the identity table of the first 4 MB, the kernel's table and the page
directory. Paging is off here, so the tables are written at their physical addresses.
-/
namespace Ktux.KernelMemory
open Words MemoryLayout PageAllocator Loops TwoLevelPaging

structure SystemInfo where
  totalMemory : ℕ
  kernelEnd : ℕ

/-- The variables of `memory.c`, with the physical words that hold the paging structures. -/
structure Memory where
  phys : Phys
  pages : Allocator
  vKernelEndAddress : ℕ
  freePageListSize : ℕ
  pFreeMemoryStart : ℕ
  numKernelPages : ℕ
  numKernelTables : ℕ
  kernelHeapEnd : ℕ
  vHeapMappedLimit : ℕ
  freeBytes : ℕ

/-- The static initialisers, over RAM that holds anything. -/
def staticMemory (phys : Phys) (freePageList : ℕ → ℕ) : Memory where
  phys := phys
  pages :=
    { pTotalMemory := 0
      freePageList := freePageList
      freePageListEntries := 0
      usedMemory := 0
      freeMemory := 0 }
  vKernelEndAddress := kernelVirtAddr
  freePageListSize := 0
  pFreeMemoryStart := 0
  numKernelPages := 0
  numKernelTables := 0
  kernelHeapEnd := vKernelHeapAddr
  vHeapMappedLimit := vKernelHeapAddr
  freeBytes := 0

/-- `setPDEindex` is the same assignment. -/
def setPTEindex (m : Phys) (table index physAddr flags : ℕ) : Phys :=
  Function.update m (table / 4 + index) (makePTEphys physAddr flags)

def mappedFlags : ℕ := pdeFlagPresent ||| pdeFlagRw ||| pdeFlagKernel

structure TableLoop where
  i : ℕ
  address : ℕ
  phys : Phys

def mapPass (table : ℕ) (s : TableLoop) : TableLoop where
  i := s.i + 1
  address := wadd s.address pageSize
  phys := setPTEindex s.phys table s.i s.address mappedFlags

def clearPass (table : ℕ) (s : TableLoop) : TableLoop where
  i := s.i + 1
  address := wadd s.address pageSize
  phys := setPTEindex s.phys table s.i 0 pdeFlagRw

def mapBelow (limit table fuel : ℕ) (s : TableLoop) : Option TableLoop :=
  whileLoop (fun s => decide (s.address < limit)) (fun s => some (mapPass table s)) fuel s

def clearRest (table fuel : ℕ) (s : TableLoop) : Option TableLoop :=
  whileLoop (fun s => decide (0 < s.i % ptePerPt)) (fun s => some (clearPass table s)) fuel s

def ktablesPass (s : TableLoop) : TableLoop where
  i := s.i + 1
  address := wadd s.address pageSize
  phys := setPTEindex s.phys pKernelPageDirectory (s.i + virt2Dir kernelVirtAddr) s.address mappedFlags

def mapKtables (fuel numKernelTables : ℕ) (m : Phys) : Option Phys :=
  (whileLoop (fun s => decide (s.i ≤ numKernelTables)) (fun s => some (ktablesPass s)) fuel
    ⟨0, pPageTableKernel1, m⟩).map TableLoop.phys

def markKernelEnd (sysInfo : SystemInfo) (m : Memory) : Memory :=
  let freePageListSize := sysInfo.totalMemory >>> pagingEntryShift
  { m with
    pages := { m.pages with pTotalMemory := sysInfo.totalMemory }
    vKernelEndAddress := sysInfo.kernelEnd
    freePageListSize := freePageListSize
    pFreeMemoryStart := wadd (virt2Phys sysInfo.kernelEnd) freePageListSize }

def initPageTables (fuel : ℕ) (m : Memory) : Option Memory := do
  let lower ← mapBelow m.pFreeMemoryStart pPageTableFirst4mb fuel ⟨0, 0, m.phys⟩
  let lower ← clearRest pPageTableFirst4mb fuel lower
  let kernel ← mapBelow m.pFreeMemoryStart pPageTableKernel1 fuel ⟨0, kernelPhysAddr, lower.phys⟩
  let numKernelTables := wsub kernel.i 1 >>> pagingEntryShift
  let cleared ← clearRest pPageTableKernel1 fuel kernel
  let first := setPTEindex cleared.phys pKernelPageDirectory 0 pPageTableFirst4mb mappedFlags
  let directory ← clearRest pKernelPageDirectory fuel ⟨1, 0, first⟩
  let phys ← mapKtables fuel numKernelTables directory.phys
  return { m with
    phys := phys
    numKernelPages := wsub kernel.i 1
    numKernelTables := numKernelTables }

/-- The sum does not wrap: a kernel ends at most `0x40100000` above physical address zero. -/
theorem markKernelEnd_start {total kernelEnd : ℕ} {m : Memory} (hlo : kernelVirtAddr ≤ kernelEnd)
    (hhi : kernelEnd < wordSize) (htotal : total < wordSize) :
    (markKernelEnd ⟨total, kernelEnd⟩ m).pFreeMemoryStart = virt2Phys kernelEnd + total / 1024 := by
  have hshift : total >>> pagingEntryShift = total / 1024 := Nat.shiftRight_eq_div_pow _ _
  have hphys := virt2Phys_of_le hlo hhi
  change wadd (virt2Phys kernelEnd) (total >>> pagingEntryShift) = _
  rw [hshift, wadd_of_lt]
  rw [kernelVirtAddr, kernelPhysAddr, wordSize_eq] at *
  omega

def writeEntries (m : Phys) (t i n : ℕ) (g : ℕ → ℕ) : Phys :=
  fun w => if entryIndex t i ≤ w ∧ w < entryIndex t i + n then g (w - entryIndex t i) else m w

theorem writeEntries_zero (m : Phys) (t i : ℕ) (g : ℕ → ℕ) : writeEntries m t i 0 g = m := by
  funext w
  exact if_neg (by omega)

theorem writeEntries_succ (m : Phys) (t i n : ℕ) (g : ℕ → ℕ) :
    Function.update (writeEntries m t i n g) (entryIndex t i + n) (g n) =
      writeEntries m t i (n + 1) g := by
  funext w
  by_cases hw : w = entryIndex t i + n
  · subst hw
    rw [Function.update_self, writeEntries, if_pos (by omega), Nat.add_sub_cancel_left]
  · rw [Function.update_of_ne hw, writeEntries, writeEntries]
    exact if_congr (by omega) rfl rfl

theorem entryAt_writeEntries (m : Phys) {t i n j : ℕ} (g : ℕ → ℕ) (hlo : i ≤ j) (hhi : j < i + n) :
    entryAt (writeEntries m t i n g) t j = g (j - i) := by
  rw [entryAt, writeEntries, if_pos (by unfold entryIndex; omega)]
  congr 1
  unfold entryIndex
  omega

theorem entryAt_writeEntries_other (m : Phys) {t t' i n j : ℕ} (g : ℕ → ℕ) (hn : i + n ≤ 1024)
    (hj : j < 1024) (h : t' ≠ t ∨ j < i ∨ i + n ≤ j) :
    entryAt (writeEntries m t i n g) t' j = entryAt m t' j := by
  refine if_neg fun hw => ?_
  unfold entryIndex at hw
  omega

theorem setPTEindex_eq (m : Phys) (t index physAddr flags : ℕ) :
    setPTEindex m (t * 4096) index physAddr flags =
      Function.update m (entryIndex t index) (makePTEphys physAddr flags) := by
  rw [setPTEindex, entryIndex, show t * 4096 / 4 = t * 1024 by omega]

theorem next_address {address k : ℕ} (h : address + 4096 * (k + 1) < wordSize) :
    wadd (address + 4096 * k) pageSize = address + 4096 * (k + 1) := by
  rw [Nat.mul_succ, ← Nat.add_assoc] at h ⊢
  rw [pageSize, wadd_of_lt h]

theorem mapPass_iterate (t k : ℕ) (s : TableLoop) (h : s.address + 4096 * k < wordSize) :
    (mapPass (t * 4096))^[k] s =
      { i := s.i + k
        address := s.address + 4096 * k
        phys := writeEntries s.phys t s.i k fun j => makePTEphys (s.address + 4096 * j) mappedFlags } := by
  induction k with
  | zero => simp [writeEntries_zero]
  | succ k ih =>
    have hnext := next_address h
    rw [Nat.mul_succ, ← Nat.add_assoc] at h
    rw [Function.iterate_succ_apply', ih (by omega), mapPass, setPTEindex_eq, ← writeEntries_succ, hnext]
    simp only [entryIndex, Nat.add_assoc]

theorem clearPass_iterate (t k : ℕ) (s : TableLoop) :
    ((clearPass (t * 4096))^[k] s).i = s.i + k ∧
      ((clearPass (t * 4096))^[k] s).phys =
        writeEntries s.phys t s.i k fun _ => makePTEphys 0 pdeFlagRw := by
  induction k with
  | zero => simp [writeEntries_zero]
  | succ k ih =>
    obtain ⟨hi, hphys⟩ := ih
    rw [Function.iterate_succ_apply', clearPass, setPTEindex_eq, hi, hphys, ← writeEntries_succ]
    simp only [entryIndex, Nat.add_assoc, and_self]

def pagesBelow (a limit : ℕ) : ℕ := (limit - a + 4095) / 4096

theorem mapBelow_eq {limit t : ℕ} {s : TableLoop} (h : limit + 4096 < wordSize)
    (hs : s.address ≤ limit) :
    mapBelow limit (t * 4096) (pagesBelow s.address limit + 1) s = some
      { i := s.i + pagesBelow s.address limit
        address := s.address + 4096 * pagesBelow s.address limit
        phys := writeEntries s.phys t s.i (pagesBelow s.address limit)
          fun j => makePTEphys (s.address + 4096 * j) mappedFlags } := by
  have hend : s.address + 4096 * pagesBelow s.address limit < wordSize := by
    unfold pagesBelow
    omega
  rw [mapBelow, whileLoop_iterate (mapPass (t * 4096)) (fun _ => rfl) (pagesBelow s.address limit) s,
    mapPass_iterate t _ s hend]
  · intro j hj
    have hj' := hj
    unfold pagesBelow at hj'
    rw [mapPass_iterate t j s (by omega)]
    exact decide_eq_true (by dsimp only; omega)
  · rw [mapPass_iterate t _ s hend]
    refine decide_eq_false ?_
    dsimp only
    unfold pagesBelow
    omega

def entriesLeft (i : ℕ) : ℕ := (1024 - i % 1024) % 1024

theorem clearRest_eq (t : ℕ) (s : TableLoop) :
    ∃ u, clearRest (t * 4096) (entriesLeft s.i + 1) s = some u ∧
      u.phys = writeEntries s.phys t s.i (entriesLeft s.i) fun _ => makePTEphys 0 pdeFlagRw := by
  refine ⟨_, whileLoop_iterate (clearPass (t * 4096)) (fun _ => rfl) (entriesLeft s.i) s ?_ ?_,
    (clearPass_iterate t _ s).2⟩
  · intro j hj
    unfold entriesLeft at hj
    refine decide_eq_true ?_
    rw [(clearPass_iterate t j s).1, ptePerPt]
    omega
  · refine decide_eq_false ?_
    rw [(clearPass_iterate t _ s).1, ptePerPt]
    unfold entriesLeft
    omega

theorem ktablesPass_iterate (k : ℕ) (s : TableLoop) (h : s.address + 4096 * k < wordSize) :
    ktablesPass^[k] s =
      { i := s.i + k
        address := s.address + 4096 * k
        phys := writeEntries s.phys 4 (s.i + 768) k
          fun j => makePTEphys (s.address + 4096 * j) mappedFlags } := by
  induction k with
  | zero => simp [writeEntries_zero]
  | succ k ih =>
    have hnext := next_address h
    rw [Nat.mul_succ, ← Nat.add_assoc] at h
    have hindex : entryIndex 4 (s.i + k + virt2Dir kernelVirtAddr) = entryIndex 4 (s.i + 768) + k := by
      change 4 * 1024 + (s.i + k + 768) = 4 * 1024 + (s.i + 768) + k
      omega
    have hlo : s.address + 4096 * k < wordSize := (Nat.le_add_right _ _).trans_lt h
    rw [Function.iterate_succ_apply', ih hlo, ktablesPass, pKernelPageDirectory,
      show (0x4000 : ℕ) = 4 * 4096 from rfl, setPTEindex_eq, hindex, writeEntries_succ, hnext,
      Nat.add_assoc]

theorem mapKtables_eq {n : ℕ} (m : Phys) (h : pPageTableKernel1 + 4096 * (n + 1) < wordSize) :
    mapKtables (n + 2) n m = some (writeEntries m 4 768 (n + 1)
      fun j => makePTEphys (pPageTableKernel1 + 4096 * j) mappedFlags) := by
  let start : TableLoop := ⟨0, pPageTableKernel1, m⟩
  have hpasses : ∀ j ≤ n + 1, (ktablesPass^[j] start).i = j ∧ (ktablesPass^[j] start).phys =
      writeEntries m 4 768 j fun j => makePTEphys (pPageTableKernel1 + 4096 * j) mappedFlags := by
    intro j hj
    have hle : pPageTableKernel1 + 4096 * j ≤ pPageTableKernel1 + 4096 * (n + 1) :=
      Nat.add_le_add_left (Nat.mul_le_mul_left _ hj) _
    rw [ktablesPass_iterate j start (hle.trans_lt h)]
    exact ⟨Nat.zero_add j, rfl⟩
  have hloop := whileLoop_iterate (c := fun s => decide (s.i ≤ n)) ktablesPass
    (fun _ => rfl) (n + 1) start
  rw [mapKtables, hloop, Option.map_some, (hpasses (n + 1) (le_refl _)).2]
  · intro j hj
    exact decide_eq_true (by rw [(hpasses j hj.le).1]; omega)
  · exact decide_eq_false (by rw [(hpasses (n + 1) (le_refl _)).1]; omega)

theorem mapKtables_mono {fuel fuel' n : ℕ} {m u : Phys} (hle : fuel ≤ fuel')
    (h : mapKtables fuel n m = some u) : mapKtables fuel' n m = some u := by
  obtain ⟨s, hs, rfl⟩ := Option.map_eq_some_iff.mp h
  rw [mapKtables, whileLoop_mono hle hs, Option.map_some]

def presentEntry (first j : ℕ) : ℕ := makePTEphys (first + 4096 * j) mappedFlags
def missingEntry (_j : ℕ) : ℕ := makePTEphys 0 pdeFlagRw

/-- The table in frame `t` after a mapping loop from `first` up to `limit` and a clearing loop. -/
def mappedTable (m : Phys) (t first limit : ℕ) : Phys :=
  writeEntries (writeEntries m t 0 (pagesBelow first limit) (presentEntry first)) t
    (pagesBelow first limit) (entriesLeft (pagesBelow first limit)) missingEntry

/-- The paging structures that `init_virt_mem` leaves when free memory starts at `limit`. -/
def bootTables (m : Phys) (limit : ℕ) : Phys :=
  let tables := mappedTable (mappedTable m 5 0 limit) 6 kernelPhysAddr limit
  let first := Function.update tables (entryIndex 4 0) (makePTEphys pPageTableFirst4mb mappedFlags)
  writeEntries (writeEntries first 4 1 1023 missingEntry) 4 768
    ((pagesBelow kernelPhysAddr limit - 1) / 1024 + 1) (presentEntry pPageTableKernel1)

theorem mappedTable_loops {t first limit fuel : ℕ} (m : Phys) (hfuel : wordSize ≤ fuel)
    (hfirst : first ≤ limit) (hlimit : limit + 4096 < wordSize) :
    ∃ s u, mapBelow limit (t * 4096) fuel ⟨0, first, m⟩ = some s ∧
      s.i = pagesBelow first limit ∧ clearRest (t * 4096) fuel s = some u ∧
      u.phys = mappedTable m t first limit := by
  have hmap := mapBelow_eq (t := t) (s := ⟨0, first, m⟩) hlimit hfirst
  obtain ⟨u, hu, hphys⟩ := clearRest_eq t
    { i := 0 + pagesBelow first limit
      address := first + 4096 * pagesBelow first limit
      phys := writeEntries m t 0 (pagesBelow first limit) (presentEntry first) }
  rw [wordSize_eq] at *
  have hpasses : pagesBelow first limit + 1 ≤ fuel := by
    unfold pagesBelow
    omega
  have hleft : entriesLeft (0 + pagesBelow first limit) + 1 ≤ fuel := by
    unfold entriesLeft
    omega
  refine ⟨_, u, whileLoop_mono hpasses hmap, Nat.zero_add _, whileLoop_mono hleft hu, ?_⟩
  rw [hphys, Nat.zero_add]
  rfl

theorem initPageTables_eq {fuel : ℕ} (m : Memory) (hfuel : wordSize ≤ fuel)
    (hlo : kernelPhysAddr < m.pFreeMemoryStart) (hhi : m.pFreeMemoryStart + 4096 < wordSize) :
    initPageTables fuel m = some { m with
      phys := bootTables m.phys m.pFreeMemoryStart
      numKernelPages := pagesBelow kernelPhysAddr m.pFreeMemoryStart - 1
      numKernelTables := (pagesBelow kernelPhysAddr m.pFreeMemoryStart - 1) / 1024 } := by
  obtain ⟨s, u, hs, _, hu, hlower⟩ :=
    mappedTable_loops (t := 5) m.phys hfuel (Nat.zero_le m.pFreeMemoryStart) hhi
  obtain ⟨s', u', hs', hi', hu', hkernel⟩ := mappedTable_loops (t := 6) u.phys hfuel hlo.le hhi
  obtain ⟨d, hd, hdirectory⟩ := clearRest_eq 4
    ⟨1, 0, setPTEindex u'.phys pKernelPageDirectory 0 pPageTableFirst4mb mappedFlags⟩
  have hpages : 0 < s'.i ∧ s'.i < wordSize := by
    rw [hi', pagesBelow]
    rw [kernelPhysAddr, wordSize_eq] at *
    omega
  have hcount : wsub s'.i 1 = pagesBelow kernelPhysAddr m.pFreeMemoryStart - 1 := by
    rw [wsub_of_le hpages.1 hpages.2, hi']
  have htables : wsub s'.i 1 >>> pagingEntryShift =
      (pagesBelow kernelPhysAddr m.pFreeMemoryStart - 1) / 1024 := by
    rw [hcount, Nat.shiftRight_eq_div_pow]
    rfl
  have hdir : (pagesBelow kernelPhysAddr m.pFreeMemoryStart - 1) / 1024 + 1 ≤ 1024 := by
    rw [pagesBelow]
    rw [kernelPhysAddr, wordSize_eq] at *
    omega
  have hk := mapKtables_eq d.phys
    ((Nat.add_le_add_left (Nat.mul_le_mul_left 4096 hdir) pPageTableKernel1).trans_lt (by decide))
  have hktables : mapKtables fuel (wsub s'.i 1 >>> pagingEntryShift) d.phys =
      some (bootTables m.phys m.pFreeMemoryStart) := by
    have hleft : entriesLeft 1 = 1023 := by decide
    rw [htables, mapKtables_mono _ hk, hdirectory, hkernel, hlower]
    · simp only [hleft, setPTEindex, pKernelPageDirectory]
      rfl
    · rw [wordSize_eq] at hfuel
      omega
  have hmap : mapBelow m.pFreeMemoryStart pPageTableFirst4mb fuel ⟨0, 0, m.phys⟩ = some s := hs
  have hmap' : mapBelow m.pFreeMemoryStart pPageTableKernel1 fuel ⟨0, kernelPhysAddr, u.phys⟩ =
    some s' := hs'
  have hclear : clearRest pPageTableFirst4mb fuel s = some u := hu
  have hclear' : clearRest pPageTableKernel1 fuel s' = some u' := hu'
  have hclear'' : clearRest pKernelPageDirectory fuel
      ⟨1, 0, setPTEindex u'.phys pKernelPageDirectory 0 pPageTableFirst4mb mappedFlags⟩ = some d := by
    have hleft : entriesLeft 1 + 1 ≤ wordSize := by decide
    exact whileLoop_mono (hleft.trans hfuel) hd
  simp only [initPageTables, Option.bind_eq_bind, Option.pure_def, hmap, hclear, hmap', hclear',
    hclear'', hktables, Option.bind_some]
  rw [htables, hcount]

section BootTables
variable {m : Phys} {limit : ℕ}

/-- One table holds the pages that are mapped and the entries that are cleared. -/
theorem table_counts {first : ℕ} (hlo : first < limit) (hhi : limit ≤ first + 0x400000) :
    0 < pagesBelow first limit ∧ pagesBelow first limit ≤ 1024 ∧
      entriesLeft (pagesBelow first limit) = 1024 - pagesBelow first limit := by
  unfold entriesLeft pagesBelow
  omega

theorem mappedTable_entry (t first : ℕ) (hlo : first < limit) (hhi : limit ≤ first + 0x400000) {j : ℕ}
    (hj : j < 1024) : entryAt (mappedTable m t first limit) t j =
      if first + 4096 * j < limit then presentEntry first j else missingEntry j := by
  obtain ⟨hpos, hle, hleft⟩ := table_counts hlo hhi
  have hiff : first + 4096 * j < limit ↔ j < pagesBelow first limit := by
    unfold pagesBelow
    omega
  rw [mappedTable, hleft]
  by_cases hp : j < pagesBelow first limit
  · rw [if_pos (hiff.mpr hp), entryAt_writeEntries_other _ _ (by omega) hj (by omega),
      entryAt_writeEntries _ _ (by omega) (by omega)]
    rfl
  · rw [if_neg (fun h => hp (hiff.mp h)), entryAt_writeEntries _ _ (by omega) (by omega)]
    rfl

theorem mappedTable_other (t first : ℕ) {t' j : ℕ} (hlo : first < limit)
    (hhi : limit ≤ first + 0x400000) (hj : j < 1024) (ht : t' ≠ t) :
    entryAt (mappedTable m t first limit) t' j = entryAt m t' j := by
  obtain ⟨hpos, hle, hleft⟩ := table_counts hlo hhi
  rw [mappedTable, hleft, entryAt_writeEntries_other _ _ (by omega) hj (Or.inl ht),
    entryAt_writeEntries_other _ _ (by omega) hj (Or.inl ht)]

theorem bootTables_one (hlo : kernelPhysAddr < limit) (hhi : limit ≤ 0x400000) :
    (pagesBelow kernelPhysAddr limit - 1) / 1024 + 1 = 1 := by
  unfold pagesBelow
  rw [kernelPhysAddr] at *
  omega

/-- The boot directory: the first 4 MB, the kernel's table, and nothing else. -/
theorem bootTables_directory (hlo : kernelPhysAddr < limit) (hhi : limit ≤ 0x400000) {d : ℕ}
    (hd : d < 1024) : entryAt (bootTables m limit) 4 d =
      if d = 0 then 0x5003 else if d = 768 then 0x6003 else 0x2 := by
  rw [bootTables, bootTables_one hlo hhi]
  by_cases h768 : d = 768
  · subst h768
    rw [entryAt_writeEntries _ _ (le_refl _) (by omega)]
    rfl
  · rw [entryAt_writeEntries_other _ _ (by omega) hd (by omega), if_neg h768]
    by_cases h0 : d = 0
    · subst h0
      rw [entryAt_writeEntries_other _ _ (by omega) hd (by omega), entryAt_update_same]
      rfl
    · rw [entryAt_writeEntries _ _ (by omega) (by omega), if_neg h0]
      rfl

theorem bootTables_other (hlo : kernelPhysAddr < limit) (hhi : limit ≤ 0x400000) {t j : ℕ}
    (hj : j < 1024) (ht : t ≠ 4) : entryAt (bootTables m limit) t j =
      entryAt (mappedTable (mappedTable m 5 0 limit) 6 kernelPhysAddr limit) t j := by
  rw [bootTables, bootTables_one hlo hhi]
  rw [entryAt_writeEntries_other _ _ (by omega) hj (Or.inl ht),
    entryAt_writeEntries_other _ _ (by omega) hj (Or.inl ht),
    entryAt_update_frame _ (by omega) hj ht]

theorem bootTables_identity (hlo : kernelPhysAddr < limit) (hhi : limit ≤ 0x400000) {j : ℕ}
    (hj : j < 1024) : entryAt (bootTables m limit) 5 j =
      if 4096 * j < limit then presentEntry 0 j else missingEntry j := by
  have hkernel : limit ≤ kernelPhysAddr + 0x400000 := hhi.trans (by decide)
  have hpos : 0 < limit := (by decide : 0 < kernelPhysAddr).trans hlo
  rw [bootTables_other hlo hhi hj (by decide), mappedTable_other 6 kernelPhysAddr hlo hkernel hj (by decide),
    mappedTable_entry 5 0 hpos (by omega) hj, Nat.zero_add]

end BootTables

end Ktux.KernelMemory
