import Ktux.FreePageList

set_option autoImplicit false

/-!
# The BIOS memory map

`DetectMemory` of the loader asks the BIOS for its E820 map and keeps one number, from which
`init_virt_mem` later builds the free page list.
-/
namespace Ktux.DetectMemory
open Words MemoryLayout Loops TwoLevelPaging KernelMemory FreePageList

structure E820MemoryMap where
  base : ℕ
  length : ℕ
  type : ℕ

/-- What one call of `int 0x15` leaves: carry, three registers and the entry at `es:di`. -/
structure BiosReply where
  carry : Bool
  eax : ℕ
  ecx : ℕ
  ebx : ℕ
  entry : E820MemoryMap

def smap : ℕ := 0x534d4150

def memorymapMaxEntries : ℕ := 32

structure MemCheck where
  e820Buffer : List E820MemoryMap
  totalMemory : ℕ

/-- An available entry overwrites the total with the sum of its low words. -/
def memCheckCount (entry : E820MemoryMap) (totalMemory : ℕ) : ℕ :=
  if entry.type = 1 then wadd (entry.base % wordSize) (entry.length % wordSize) else totalMemory

/-- `none` is `kloaderFatalError`, or a map that overruns the buffer. -/
def memCheckLoop : List BiosReply → MemCheck → Option MemCheck
  | [], _ => none
  | reply :: replies, s =>
    if reply.carry then none
    else if reply.eax ≠ smap then none
    else if reply.ecx ≠ 20 then none
    else if s.e820Buffer.length = memorymapMaxEntries then none
    else
      let s := ⟨s.e820Buffer ++ [reply.entry], memCheckCount reply.entry s.totalMemory⟩
      if reply.ebx = 0 then some s else memCheckLoop replies s

def detectMemory (replies : List BiosReply) : Option MemCheck := memCheckLoop replies ⟨[], 0⟩

/-- The BIOS reports a map one entry a call; `ebx` is 0 with the last one. -/
inductive Reports : List BiosReply → List E820MemoryMap → Prop where
  | last (e : E820MemoryMap) : Reports [⟨false, smap, 20, 0, e⟩] [e]
  | more (e : E820MemoryMap) {ebx : ℕ} {replies : List BiosReply} {map : List E820MemoryMap}
      (h : ebx ≠ 0) (rest : Reports replies map) : Reports (⟨false, smap, 20, ebx, e⟩ :: replies) (e :: map)

/-- The low word of the end of the last available entry. -/
def lastAvailableEnd (map : List E820MemoryMap) : ℕ :=
  match (map.filter fun e => decide (e.type = 1)).getLast? with
  | none => 0
  | some e => (e.base + e.length) % wordSize

def Available (map : List E820MemoryMap) (x : ℕ) : Prop :=
  ∃ e ∈ map, e.type = 1 ∧ e.base ≤ x ∧ x < e.base + e.length

def pageState (m : Memory) (k : ℕ) : PageLoop :=
  (pagePass m.pFreeMemoryStart m.pages.pTotalMemory)^[k] ⟨0, 0, m.pages.freePageList⟩

/-- The directory that `init_virt_mem` has handed to the processor maps the bytes of the list's word `i`.
A store elsewhere is a fault, and as yet there is no table of interrupt gates. -/
def StoreMapped (m : Memory) (i : ℕ) : Prop :=
  ∀ b < 4, walk m.phys (frame pKernelPageDirectory) (virt2Phys m.vKernelEndAddress + 4 * i + b) ≠ none

/-- The loop comes to pass `j`, which gets over its store if it makes one. -/
structure Passes (m : Memory) (j : ℕ) : Prop where
  below : (pageState m j).address < m.pages.pTotalMemory
  mapped : listsPage m.pFreeMemoryStart m.pages.pTotalMemory (pageState m j).address = true →
    StoreMapped m (pageState m j).i

/-- Some pass of the loop writes `a` to the list. The loop need not end. -/
def Places (m : Memory) (a : ℕ) : Prop :=
  ∃ k, (∀ j ≤ k, Passes m j) ∧ (pageState m k).address = a ∧
    listsPage m.pFreeMemoryStart m.pages.pTotalMemory a = true

def PlacedOnList (sysInfo : SystemInfo) (m : Memory) (a : ℕ) : Prop :=
  ∃ fuel u, initPageTables fuel (markKernelEnd sysInfo m) = some u ∧ Places u a

/-- Every page that the kernel lists lies inside the available entries of the map. -/
def ListsOnlyAvailable (map : List E820MemoryMap) (replies : List BiosReply) (kernelEnd : ℕ) (m : Memory) :
    Prop :=
  ∃ s, detectMemory replies = some s ∧ ∀ a, PlacedOnList ⟨s.totalMemory, kernelEnd⟩ m a →
    ∀ x, a ≤ x → x < a + pageSize → Available map x

/-- The bytes of the pages that the list takes whatever the map says: all but the tables and what the tests
on the reserved regions recognise. -/
def listedRanges : List (ℕ × ℕ) :=
  [(0x9000, 0xA1000), (0xC0000, 0xC1000), (0xC8000, 0xC9000), (0xF0000, 0xF1000), (0x100000, wordSize)]

def roundUp (x : ℕ) : ℕ := (x + 4095) / 4096 * 4096

/-- The pages that the list takes before the `k`th. -/
def listedBelow (k : ℕ) : ℕ :=
  min (k - 9) 152 + (if 0xC0 < k then 1 else 0) + (if 0xC8 < k then 1 else 0) + (if 0xF0 < k then 1 else 0) +
    (k - 0x100)

/-- The address of the list's entry for the page of `x`. -/
def entryAdr (kernelEnd x : ℕ) : ℕ := virt2Phys kernelEnd + 4 * listedBelow (x / 4096)

/-- What lies in these ranges, below the last page of the last available entry, is available, as far as the
list's entries for it are in the first 4 MB, which are all that is mapped. -/
def Backed (map : List E820MemoryMap) (kernelEnd : ℕ) : Prop :=
  ∀ r ∈ listedRanges, ∀ x, r.1 ≤ x → x < r.2 → x < roundUp (lastAvailableEnd map) →
    entryAdr kernelEnd x + 4 ≤ 0x400000 → Available map x

/-- The entries for 3 GB and more do not fit behind a small kernel. -/
example : 0x400000 < entryAdr 0xC0010000 0xC0000000 + 4 := by decide

section Detect

theorem memCheckCount_eq (e : E820MemoryMap) (total : ℕ) :
    memCheckCount e total = if e.type = 1 then (e.base + e.length) % wordSize else total := by
  rw [memCheckCount, wadd, ← Nat.add_mod]

theorem memCheckLoop_reports {replies : List BiosReply} {map : List E820MemoryMap}
    (h : Reports replies map) {s : MemCheck}
    (hroom : s.e820Buffer.length + map.length ≤ memorymapMaxEntries) :
    memCheckLoop replies s = some ⟨s.e820Buffer ++ map,
      map.foldl (fun total e => memCheckCount e total) s.totalMemory⟩ := by
  induction h generalizing s with
  | last e =>
    rw [List.length_singleton] at hroom
    have hfits : s.e820Buffer.length ≠ memorymapMaxEntries := by omega
    simp [memCheckLoop, hfits]
  | more e hebx _ ih =>
    rw [List.length_cons] at hroom
    have hfits : s.e820Buffer.length ≠ memorymapMaxEntries := by omega
    simp only [memCheckLoop, hebx, hfits, if_false, ne_eq, not_true_eq_false, Bool.false_eq_true]
    rw [ih, List.append_assoc, List.singleton_append, List.foldl_cons]
    rw [List.length_append, List.length_singleton]
    omega

theorem lastAvailableEnd_append (map : List E820MemoryMap) (e : E820MemoryMap) :
    lastAvailableEnd (map ++ [e]) = memCheckCount e (lastAvailableEnd map) := by
  rw [memCheckCount_eq, lastAvailableEnd, List.filter_append]
  by_cases h : e.type = 1
  · simp [h]
  · simp [h, lastAvailableEnd]

theorem foldl_memCheckCount (map : List E820MemoryMap) :
    map.foldl (fun total e => memCheckCount e total) 0 = lastAvailableEnd map := by
  induction map using List.reverseRecOn with
  | nil => rfl
  | append_singleton map e ih =>
    rw [List.foldl_append, List.foldl_cons, List.foldl_nil, ih, lastAvailableEnd_append]

theorem detectMemory_reports {replies : List BiosReply} {map : List E820MemoryMap}
    (h : Reports replies map) (hroom : map.length ≤ memorymapMaxEntries) :
    detectMemory replies = some ⟨map, lastAvailableEnd map⟩ := by
  have hrun := memCheckLoop_reports h (s := ⟨[], 0⟩) (by simpa using hroom)
  rwa [List.nil_append, foldl_memCheckCount] at hrun

theorem lastAvailableEnd_lt (map : List E820MemoryMap) : lastAvailableEnd map < wordSize := by
  unfold lastAvailableEnd
  split
  · decide
  · exact Nat.mod_lt _ (by decide)

end Detect

section Pages
theorem pageState_address (m : Memory) (k : ℕ) : (pageState m k).address = 4096 * k % wordSize := by
  induction k with
  | zero => rfl
  | succ k ih =>
    have hnext : (pageState m (k + 1)).address = wadd (pageState m k).address pageSize := by
      rw [pageState, Function.iterate_succ_apply']
      rfl
    rw [hnext, ih, wadd, pageSize, Nat.mod_add_mod, Nat.mul_succ]

theorem pageState_next (m : Memory) (k : ℕ) : (pageState m (k + 1)).i =
    if listsPage m.pFreeMemoryStart m.pages.pTotalMemory (pageState m k).address then (pageState m k).i + 1
    else (pageState m k).i := by
  rw [pageState, Function.iterate_succ_apply']
  rfl

theorem pageState_listed {m : Memory} {k : ℕ} (hP : 0x100000 < m.pFreeMemoryStart)
    (hk : 4096 * k < wordSize) : (pageState m k).i = listedBelow k := by
  induction k with
  | zero => rfl
  | succ k ih =>
    have haddress : (pageState m k).address = 4096 * k := by
      rw [pageState_address, Nat.mod_eq_of_lt (by omega)]
    have hlists := @listsPage_iff m.pFreeMemoryStart m.pages.pTotalMemory (4096 * k)
      (Nat.mul_mod_right 4096 k) hP
    rw [pageState_next, ih (by omega), haddress, if_congr hlists rfl rfl]
    unfold listedBelow
    split_ifs <;> omega

theorem listedBelow_mono {j k : ℕ} (h : j ≤ k) : listedBelow j ≤ listedBelow k := by
  unfold listedBelow
  split_ifs <;> omega

theorem listedBelow_le (k : ℕ) : listedBelow k ≤ k - 9 := by
  unfold listedBelow
  split_ifs <;> omega

end Pages

section Mapped
variable {ram : Phys} {limit v : ℕ}

/-- The entries of the directory for the kernel start at 768, however many there are. -/
theorem bootTables_low {d : ℕ} (hd : d < 768) : entryAt (bootTables ram limit) 4 d =
    if d = 0 then 0x5003 else 0x2 := by
  have hbelow (tables : Phys) (n : ℕ) (g : ℕ → ℕ) : entryAt (writeEntries tables 4 768 n g) 4 d =
      entryAt tables 4 d := if_neg (by unfold entryIndex; omega)
  rw [bootTables, hbelow]
  by_cases h0 : d = 0
  · subst h0
    rw [entryAt_writeEntries_other _ _ (by omega) (by omega) (by omega), entryAt_update_same]
    rfl
  · rw [entryAt_writeEntries _ _ (by omega) (by omega), if_neg h0]
    rfl

/-- The table of the first 4 MB from 1 MB on, also where the loop that fills it runs past its end. -/
theorem bootTables_first {j : ℕ} (hlow : 256 ≤ j) (hj : j < 1024) (hpos : 0 < limit)
    (hlimit : limit ≤ 0x41000000) : entryAt (bootTables ram limit) 5 j =
      if 4096 * j < limit then presentEntry 0 j else missingEntry j := by
  have htables : (pagesBelow kernelPhysAddr limit - 1) / 1024 + 1 ≤ 512 := by
    unfold pagesBelow
    omega
  have hdirectory (tables : Phys) (i n : ℕ) (g : ℕ → ℕ) (hn : i + n ≤ 1280) :
      entryAt (writeEntries tables 4 i n g) 5 j = entryAt tables 5 j := if_neg (by unfold entryIndex; omega)
  have hkernel (tables : Phys) (i n : ℕ) (g : ℕ → ℕ) :
      entryAt (writeEntries tables 6 i n g) 5 j = entryAt tables 5 j := if_neg (by unfold entryIndex; omega)
  rw [bootTables, hdirectory _ _ _ _ (by omega), hdirectory _ _ _ _ (by decide),
    entryAt_update_frame _ (by decide) hj (by decide), mappedTable, hkernel, hkernel, mappedTable]
  have hiff : 4096 * j < limit ↔ j < pagesBelow 0 limit := by
    unfold pagesBelow
    omega
  by_cases hp : j < pagesBelow 0 limit
  · have hcleared (tables : Phys) (n : ℕ) (g : ℕ → ℕ) :
        entryAt (writeEntries tables 5 (pagesBelow 0 limit) n g) 5 j = entryAt tables 5 j :=
      if_neg (by unfold entryIndex; omega)
    rw [if_pos (hiff.mpr hp), hcleared, entryAt_writeEntries _ _ (Nat.zero_le j) (by omega), Nat.sub_zero]
  · have hsome : 0 < pagesBelow 0 limit := by
      unfold pagesBelow
      omega
    have hleft : j < pagesBelow 0 limit + entriesLeft (pagesBelow 0 limit) := by
      unfold entriesLeft
      omega
    rw [if_neg fun h => hp (hiff.mp h), entryAt_writeEntries _ _ (Nat.le_of_not_lt hp) hleft]
    rfl

/-- Of the addresses that the list may have, those of the first 4 MB are mapped. -/
theorem bootTables_walk (hlow : 0x100000 ≤ v) (hv : v < roundUp limit) (hlimit : limit ≤ 0x41000000) :
    walk (bootTables ram limit) 4 v ≠ none ↔ v < 0x400000 := by
  unfold roundUp at hv
  have hd : dirIndex v < 768 := by
    unfold dirIndex
    omega
  have hdirectory := @bootTables_low ram limit _ hd
  by_cases hfirst : v < 0x400000
  · have h0 : dirIndex v = 0 := by
      unfold dirIndex
      omega
    have hpage : 4096 * pageIndex v < limit ∧ 256 ≤ pageIndex v := by
      unfold pageIndex
      omega
    have hentry := @bootTables_first ram limit _ hpage.2 (pageIndex_lt v) (by omega) hlimit
    rw [if_pos hpage.1] at hentry
    rw [if_pos h0] at hdirectory
    refine iff_of_true ?_ hfirst
    have hpresent : present (presentEntry 0 (pageIndex v)) := by
      have hword := pageIndex_lt v
      rw [presentEntry, makePTEphys_eq mappedFlags (by rw [wordSize_eq]; omega)]
      change (_ + 3) % 2 = 1
      omega
    have hframe : frame 0x5003 = 5 := rfl
    rw [walk, hdirectory, if_pos (by decide), hframe, hentry, if_pos hpresent]
    exact Option.some_ne_none _
  · have h0 : dirIndex v ≠ 0 := by
      unfold dirIndex
      omega
    rw [if_neg h0] at hdirectory
    refine iff_of_false (not_not.mpr ?_) hfirst
    rw [walk, hdirectory, if_neg (by decide)]

end Mapped

section Kernel
variable {kernelEnd total : ℕ} {m : Memory}

/-- The first part of `init_virt_mem` builds tables and leaves the sizes alone. -/
theorem initPageTables_sizes {fuel : ℕ} {u : Memory} (h : initPageTables fuel m = some u) :
    u.pFreeMemoryStart = m.pFreeMemoryStart ∧ u.pages = m.pages := by
  simp only [initPageTables, Option.bind_eq_bind, Option.bind_eq_some_iff, Option.pure_def,
    Option.some.injEq] at h
  obtain ⟨_, _, _, _, _, _, _, _, _, _, _, _, rfl⟩ := h
  exact ⟨rfl, rfl⟩

theorem freeMemoryStart_bounds (hlo : kernelVirtAddr < kernelEnd) (hhi : kernelEnd < wordSize)
    (htotal : total < wordSize) :
    0x100000 < (markKernelEnd ⟨total, kernelEnd⟩ m).pFreeMemoryStart ∧
      (markKernelEnd ⟨total, kernelEnd⟩ m).pFreeMemoryStart + 4096 < wordSize := by
  rw [markKernelEnd_start hlo.le hhi htotal, virt2Phys_of_le hlo.le hhi]
  rw [kernelVirtAddr, kernelPhysAddr, wordSize_eq] at *
  omega

theorem initPageTables_mono {fuel fuel' : ℕ} {u : Memory} (hle : fuel ≤ fuel')
    (h : initPageTables fuel m = some u) : initPageTables fuel' m = some u := by
  simp only [initPageTables, Option.bind_eq_bind, Option.bind_eq_some_iff] at h ⊢
  obtain ⟨lower, hlower, cleared, hcleared, kernel, hkernel, rest, hrest, dir, hdir, phys, hphys, hu⟩ := h
  exact ⟨lower, whileLoop_mono hle hlower, cleared, whileLoop_mono hle hcleared, kernel,
    whileLoop_mono hle hkernel, rest, whileLoop_mono hle hrest, dir, whileLoop_mono hle hdir, phys,
    mapKtables_mono hle hphys, hu⟩

theorem storeMapped_iff (hP : m.pFreeMemoryStart ≤ 0x41000000) (hlow : 0x100000 ≤ virt2Phys m.vKernelEndAddress)
    {ram : Phys} (hphys : m.phys = bootTables ram m.pFreeMemoryStart) {i : ℕ}
    (hend : virt2Phys m.vKernelEndAddress + 4 * i + 4 ≤ m.pFreeMemoryStart) :
    StoreMapped m i ↔ virt2Phys m.vKernelEndAddress + 4 * i + 4 ≤ 0x400000 := by
  have hwalk (b : ℕ) (hb : b < 4) := @bootTables_walk ram m.pFreeMemoryStart
    (virt2Phys m.vKernelEndAddress + 4 * i + b) (by omega) (by unfold roundUp; omega) hP
  unfold StoreMapped
  rw [hphys]
  constructor
  · intro h
    have hlast := (hwalk 3 (by decide)).mp (h 3 (by decide))
    omega
  · intro h b hb
    exact (hwalk b hb).mpr (by omega)

structure ListReady (m : Memory) : Prop where
  start : m.pFreeMemoryStart = virt2Phys m.vKernelEndAddress + m.pages.pTotalMemory / 1024
  low : 0x100000 < virt2Phys m.vKernelEndAddress
  high : m.pFreeMemoryStart ≤ 0x41000000
  total : m.pages.pTotalMemory < wordSize
  tables : ∃ ram, m.phys = bootTables ram m.pFreeMemoryStart

theorem ListReady.listed (h : ListReady m) {k : ℕ}
    (hlists : listsPage m.pFreeMemoryStart m.pages.pTotalMemory (4096 * k) = true) : 0x9000 ≤ 4096 * k ∧
      (4096 * k ≤ 0xA0000 ∨ 0x100000 ≤ 4096 * k ∨ 4096 * k = 0xC0000 ∨ 4096 * k = 0xC8000 ∨
        4096 * k = 0xF0000) := by
  have hstart := h.start
  have hlow := h.low
  exact (listsPage_iff (Nat.mul_mod_right 4096 k) (by omega)).mp hlists

theorem ListReady.passes_iff (h : ListReady m) {k : ℕ} (hk : 4096 * k < m.pages.pTotalMemory) : Passes m k ↔
    (listsPage m.pFreeMemoryStart m.pages.pTotalMemory (4096 * k) = true →
      virt2Phys m.vKernelEndAddress + 4 * listedBelow k + 4 ≤ 0x400000) := by
  have hstart := h.start
  have hlow := h.low
  have htotal := h.total
  obtain ⟨ram, hphys⟩ := h.tables
  have haddress : (pageState m k).address = 4096 * k := by
    rw [pageState_address, Nat.mod_eq_of_lt (by omega)]
  have hindex := @pageState_listed m k (by omega) (by omega)
  have hmapped (hlists : listsPage m.pFreeMemoryStart m.pages.pTotalMemory (4096 * k) = true) :
      StoreMapped m (listedBelow k) ↔ virt2Phys m.vKernelEndAddress + 4 * listedBelow k + 4 ≤ 0x400000 := by
    have hfirst := (h.listed hlists).1
    have hle := listedBelow_le k
    exact storeMapped_iff h.high hlow.le hphys (by omega)
  constructor
  · rintro ⟨-, hdone⟩ hlists
    rw [haddress, hindex] at hdone
    exact (hmapped hlists).mp (hdone hlists)
  · intro hfits
    refine ⟨haddress ▸ hk, fun hlists => ?_⟩
    rw [haddress] at hlists
    rw [hindex]
    exact (hmapped hlists).mpr (hfits hlists)

theorem places_iff (h : ListReady m) {a : ℕ} :
    Places m a ↔ a % 4096 = 0 ∧ a < m.pages.pTotalMemory ∧ 0x9000 ≤ a ∧
      (a ≤ 0xA0000 ∨ 0x100000 ≤ a ∨ a = 0xC0000 ∨ a = 0xC8000 ∨ a = 0xF0000) ∧
      entryAdr m.vKernelEndAddress a + 4 ≤ 0x400000 := by
  have hstart := h.start
  have hlow := h.low
  have htotal := h.total
  rw [wordSize_eq] at htotal
  constructor
  · rintro ⟨k, hpasses, rfl, hlists⟩
    rw [pageState_address, wordSize_eq] at hlists ⊢
    -- the page is met in the first lap already
    have hfirst := hpasses ((4096 * k % 2 ^ 32) / 4096) (by omega)
    have hround : 4096 * ((4096 * k % 2 ^ 32) / 4096) = 4096 * k % 2 ^ 32 := by omega
    have hbelow := (hpasses k le_rfl).below
    rw [pageState_address, wordSize_eq] at hbelow
    have hfits := (h.passes_iff (by omega)).mp hfirst
    rw [hround] at hfits
    obtain ⟨hbottom, hrange⟩ := (listsPage_iff (by omega) (by omega)).mp hlists
    exact ⟨by omega, hbelow, hbottom, hrange, hfits hlists⟩
  · rintro ⟨haligned, hbelow, hbottom, hrange, hfits⟩
    have hpage : 4096 * (a / 4096) = a := by omega
    refine ⟨a / 4096, fun j hj => (h.passes_iff (by omega)).mpr fun _ => ?_, ?_, ?_⟩
    · have hmono := listedBelow_mono hj
      unfold entryAdr at hfits
      omega
    · rw [pageState_address, hpage, Nat.mod_eq_of_lt (by rw [wordSize_eq]; omega)]
    · exact (listsPage_iff haligned (by omega)).mpr ⟨hbottom, hrange⟩

theorem placedOnList_iff (hlo : kernelVirtAddr < kernelEnd) (hhi : kernelEnd < wordSize)
    (htotal : total < wordSize) {a : ℕ} :
    PlacedOnList ⟨total, kernelEnd⟩ m a ↔ a % 4096 = 0 ∧ a < total ∧ 0x9000 ≤ a ∧
      (a ≤ 0xA0000 ∨ 0x100000 ≤ a ∨ a = 0xC0000 ∨ a = 0xC8000 ∨ a = 0xF0000) ∧
      entryAdr kernelEnd a + 4 ≤ 0x400000 := by
  obtain ⟨hP, hend⟩ := freeMemoryStart_bounds (m := m) hlo hhi htotal
  have htables := initPageTables_eq (markKernelEnd ⟨total, kernelEnd⟩ m) (le_refl wordSize)
    (by rw [kernelPhysAddr]; exact hP) hend
  have hstart := markKernelEnd_start (m := m) hlo.le hhi htotal
  have hphys := virt2Phys_of_le hlo.le hhi
  have hready : ListReady (pagingEnabled ⟨total, kernelEnd⟩ m) := by
    refine ⟨hstart, ?_, ?_, htotal, m.phys, rfl⟩
    · change _ < virt2Phys kernelEnd
      rw [hphys, kernelPhysAddr]
      omega
    · change (markKernelEnd ⟨total, kernelEnd⟩ m).pFreeMemoryStart ≤ _
      rw [hstart, hphys]
      rw [kernelVirtAddr, kernelPhysAddr, wordSize_eq] at *
      omega
  have hplaces := places_iff hready (a := a)
  refine ⟨?_, fun h => ⟨wordSize, _, htables, hplaces.mpr h⟩⟩
  rintro ⟨fuel, u, hu, hplaced⟩
  have hsame := (initPageTables_mono (Nat.le_max_left fuel wordSize) hu).symm.trans
    (initPageTables_mono (Nat.le_max_right fuel wordSize) htables)
  cases hsame
  exact hplaces.mp hplaced

end Kernel

/-- The pages listed are available ones exactly when the map backs all that the list takes. -/
theorem listsOnlyAvailable_iff {map : List E820MemoryMap} {replies : List BiosReply}
    (h : Reports replies map) (hroom : map.length ≤ 31) {kernelEnd : ℕ} (hlo : kernelVirtAddr < kernelEnd)
    (hhi : kernelEnd < wordSize) (m : Memory) :
    ListsOnlyAvailable map replies kernelEnd m ↔ Backed map kernelEnd := by
  have hdetect := detectMemory_reports h (hroom.trans (by decide))
  have hplaced : ∀ a, PlacedOnList ⟨lastAvailableEnd map, kernelEnd⟩ m a ↔ _ :=
    fun _ => placedOnList_iff hlo hhi (lastAvailableEnd_lt map)
  have hentry (x : ℕ) : entryAdr kernelEnd (x / 4096 * 4096) = entryAdr kernelEnd x := by
    unfold entryAdr
    rw [Nat.mul_div_cancel _ (by decide)]
  constructor
  · rintro ⟨s, hs, hlisted⟩ r hr x hlow hhigh hbelow hfits
    obtain rfl := Option.some.inj (hdetect.symm.trans hs)
    refine hlisted (x / 4096 * 4096) ((hplaced _).mpr ?_) x (by omega) (by rw [pageSize]; omega)
    rw [hentry]
    unfold roundUp at hbelow
    simp only [listedRanges, List.mem_cons, List.not_mem_nil, or_false] at hr
    rcases hr with rfl | rfl | rfl | rfl | rfl
    all_goals
      dsimp only at hlow hhigh
      omega
  · intro hbacked
    refine ⟨_, hdetect, fun a ha x hlow hhigh => ?_⟩
    obtain ⟨haligned, hbelow, hfirst, hrange, hfits⟩ := (hplaced a).mp ha
    rw [pageSize] at hhigh
    have hx : x < roundUp (lastAvailableEnd map) := by
      unfold roundUp
      omega
    have hword := lastAvailableEnd_lt map
    have hin : ∃ r ∈ listedRanges, r.1 ≤ x ∧ x < r.2 := by
      simp only [listedRanges, List.mem_cons, List.not_mem_nil, or_false, exists_eq_or_imp, exists_eq_left]
      rw [wordSize_eq] at *
      omega
    obtain ⟨r, hr, hrlow, hrhigh⟩ := hin
    have hpage : x / 4096 * 4096 = a := by omega
    rw [← hpage, hentry] at hfits
    exact hbacked r hr x hrlow hrhigh hx hfits

/-- Sixteen megabytes without a hole. -/
theorem listsOnlyAvailable_flat :
    ListsOnlyAvailable [⟨0, 0x1000000, 1⟩] [⟨false, smap, 20, 0, ⟨0, 0x1000000, 1⟩⟩] 0xC0010000
      (staticMemory (fun _ => 0) (fun _ => 0)) := by
  refine (listsOnlyAvailable_iff (.last _) (by decide) (by decide) (by decide) _).mpr ?_
  intro r _ x _ _ hbelow _
  exact ⟨_, List.mem_singleton_self _, rfl, Nat.zero_le x, hbelow⟩

def holedMap : List E820MemoryMap :=
  [⟨0, 0x9FC00, 1⟩, ⟨0x100000, 0xE00000, 1⟩, ⟨0xF00000, 0x100000, 2⟩, ⟨0x1000000, 0x1000000, 1⟩]

theorem holedMap_listed : ∃ replies, Reports replies holedMap ∧
    ¬ ListsOnlyAvailable holedMap replies 0xC0010000 (staticMemory (fun _ => 0) (fun _ => 0)) := by
  have hreports := Reports.more ⟨0, 0x9FC00, 1⟩ one_ne_zero (.more ⟨0x100000, 0xE00000, 1⟩ one_ne_zero
    (.more ⟨0xF00000, 0x100000, 2⟩ one_ne_zero (.last ⟨0x1000000, 0x1000000, 1⟩)))
  refine ⟨_, hreports, ?_⟩
  rintro ⟨s, hs, hlisted⟩
  obtain rfl := Option.some.inj ((detectMemory_reports hreports (by decide)).symm.trans hs)
  obtain ⟨e, he, htype, hlow, hhigh⟩ := hlisted 0xF00000
    ((placedOnList_iff (by decide) (by decide) (by decide)).mpr (by decide)) 0xF00000 (le_refl _) (by decide)
  simp only [holedMap, List.mem_cons, List.not_mem_nil, or_false] at he
  rcases he with rfl | rfl | rfl | rfl
  · exact absurd hhigh (by decide)
  · exact absurd hhigh (by decide)
  · exact absurd htype (by decide)
  · exact absurd hlow (by decide)

end Ktux.DetectMemory
