import Ktux.AddressSpace

set_option autoImplicit false

/-!
# The stores of `init_virt_mem`

The indices at which its loops fill the tables of the first 4 MB and of the kernel, and the addresses at which
it stores the free page list.
-/
namespace Ktux.InitBounds
open Words MemoryLayout Loops TwoLevelPaging KernelMemory FreePageList DetectMemory AddressSpace

/-- The element lies in the page of the table. -/
def InPage (table i : ℕ) : Prop := table ≤ table + 4 * i ∧ table + 4 * i + 4 ≤ table + pageSize

/-- The loop that maps pages below `limit` and the one that clears the rest store inside the page of `table`. -/
structure FillsInside (limit table first : ℕ) (phys : Phys) : Prop where
  mapped : ∀ k, Makes (fun s => decide (s.address < limit)) (mapPass table) ⟨0, first, phys⟩ k →
    InPage table ((mapPass table)^[k] ⟨0, first, phys⟩).i
  cleared : ∀ fuel s, mapBelow limit table fuel ⟨0, first, phys⟩ = some s → ∀ k,
    Makes (fun s => decide (0 < s.i % ptePerPt)) (clearPass table) s k →
      InPage table ((clearPass table)^[k] s).i

/-- The word `i` of the list is below its size, and the directory in force maps its bytes to themselves. -/
def StoresToList (m : Memory) (i : ℕ) : Prop :=
  i < m.freePageListSize / 4 ∧
    ∀ b < 4, MapsTo m.phys (virt2Phys m.vKernelEndAddress + 4 * i + b)
      (virt2Phys m.vKernelEndAddress + 4 * i + b)

/-- `init_virt_mem` returns, and each pass of its loops stores where it may. -/
structure InBounds (sysInfo : SystemInfo) (m : Memory) : Prop where
  returns : ∃ fuel u, initVirtMem fuel sysInfo m = some u
  lower : ∀ phys, FillsInside (markKernelEnd sysInfo m).pFreeMemoryStart pPageTableFirst4mb 0 phys
  kernel : ∀ phys, FillsInside (markKernelEnd sysInfo m).pFreeMemoryStart pPageTableKernel1 kernelPhysAddr phys
  list : ∀ fuel u, initPageTables fuel (markKernelEnd sysInfo m) = some u → ∀ k,
    Makes (fun s => decide (s.address < u.pages.pTotalMemory))
      (pagePass u.pFreeMemoryStart u.pages.pTotalMemory) ⟨0, 0, u.pages.freePageList⟩ k →
    listsPage u.pFreeMemoryStart u.pages.pTotalMemory (pageState u k).address = true →
      StoresToList u (pageState u k).i

/-- The sizes that the loader may report: a page-aligned kernel below 3 MB, and memory behind the list. -/
structure SizesAllowed (sysInfo : SystemInfo) : Prop where
  aligned : sysInfo.kernelEnd % pageSize = 0
  kernelEnd_ge : kernelVirtAddr ≤ sysInfo.kernelEnd
  image : sysInfo.kernelEnd < kernelVirtAddr + 0x300000
  total_word : sysInfo.totalMemory < wordSize
  free : virt2Phys sysInfo.kernelEnd + sysInfo.totalMemory / 1024 < sysInfo.totalMemory

section Tables
variable {limit t first k : ℕ} {phys : Phys}

theorem inPage_iff (table i : ℕ) : InPage table i ↔ i < 1024 := by
  rw [InPage, pageSize]
  omega

theorem mapPass_index (table k : ℕ) (s : TableLoop) : ((mapPass table)^[k] s).i = s.i + k := by
  induction k with
  | zero => rfl
  | succ k ih =>
    rw [Function.iterate_succ_apply', mapPass, ih, Nat.add_assoc]

theorem mapPass_address (hlast : first + 4096 * k < wordSize) :
    ((mapPass (t * 4096))^[k] ⟨0, first, phys⟩).address = first + 4096 * k := by
  rw [mapPass_iterate t k ⟨0, first, phys⟩ hlast]

/-- Pass 1024 is made exactly when the table would have to map more than 4 MB. -/
theorem fillsInside (hfirst : first ≤ limit) (hroom : limit ≤ first + 0x400000)
    (hword : first + 0x400000 + 4096 < wordSize) : FillsInside limit (t * 4096) first phys := by
  have hfull : pagesBelow first limit ≤ 1024 := by
    unfold pagesBelow
    omega
  constructor
  · intro k hk
    rw [inPage_iff, mapPass_index, Nat.zero_add]
    by_contra hlarge
    have hlast := of_decide_eq_true (hk 1024 (Nat.le_of_not_lt hlarge))
    rw [mapPass_address (by omega)] at hlast
    omega
  · intro fuel s hs k hk
    rw [whileLoop_unique hs (mapBelow_eq (t := t) (s := ⟨0, first, phys⟩) (by omega) hfirst)] at hk ⊢
    rw [inPage_iff, (clearPass_iterate t k _).1]
    dsimp only at hk ⊢
    rw [Nat.zero_add]
    by_contra hlarge
    have hlast := of_decide_eq_true (hk (1024 - pagesBelow first limit) (by omega))
    rw [(clearPass_iterate t _ _).1, ptePerPt] at hlast
    dsimp only at hlast
    omega

theorem not_fillsInside (hlarge : 0x400000 < limit) : ¬ FillsInside limit (t * 4096) 0 phys := by
  intro h
  have hmakes : Makes (fun s => decide (s.address < limit)) (mapPass (t * 4096)) ⟨0, 0, phys⟩ 1024 := by
    intro j hj
    refine decide_eq_true ?_
    rw [mapPass_address (by rw [wordSize_eq]; omega)]
    omega
  have hin := h.mapped 1024 hmakes
  rw [inPage_iff, mapPass_index] at hin
  dsimp only at hin
  omega

end Tables

section List
variable {m : Memory} {k : ℕ}

/-- No page below `P_START_FREE_RAM` is on the list, so its first nine pages leave room. -/
theorem pageState_index (hP : 0x100000 < m.pFreeMemoryStart) (hk : 4096 * k < wordSize) :
    (pageState m k).i ≤ k - 9 := by
  induction k with
  | zero => exact Nat.le_refl 0
  | succ k ih =>
    have hprev := ih (by omega)
    have haddress : (pageState m k).address = 4096 * k := by
      rw [pageState_address, Nat.mod_eq_of_lt (by omega)]
    have hnext : (pageState m (k + 1)).i =
        if listsPage m.pFreeMemoryStart m.pages.pTotalMemory (pageState m k).address then
          (pageState m k).i + 1 else (pageState m k).i := by
      rw [pageState, Function.iterate_succ_apply']
      rfl
    rw [hnext]
    split_ifs with hlists
    · have hlow := ((listsPage_iff (by rw [haddress]; omega) hP).mp hlists).1
      rw [haddress] at hlow
      omega
    · omega

/-- The list ends where free memory starts, so the identity table that reaches that far covers it. -/
theorem storesToList (hP : 0x100000 < m.pFreeMemoryStart)
    (hstart : m.pFreeMemoryStart = virt2Phys m.vKernelEndAddress + m.pages.pTotalMemory / 1024)
    (hsize : m.freePageListSize = m.pages.pTotalMemory / 1024) (hT : m.pages.pTotalMemory + 4096 < wordSize)
    (hspace : BootAddressSpace m.pFreeMemoryStart m.phys)
    (hk : Makes (fun s => decide (s.address < m.pages.pTotalMemory))
      (pagePass m.pFreeMemoryStart m.pages.pTotalMemory) ⟨0, 0, m.pages.freePageList⟩ k)
    (hlists : listsPage m.pFreeMemoryStart m.pages.pTotalMemory (pageState m k).address = true) :
    StoresToList m (pageState m k).i := by
  have hbelow : 4096 * k < m.pages.pTotalMemory := by
    by_contra hlarge
    -- the first pass whose page would start at the end of memory or behind it
    have hpass : (m.pages.pTotalMemory + 4095) / 4096 ≤ k := by omega
    have hlast := of_decide_eq_true (hk _ hpass)
    change (pageState m _).address < _ at hlast
    rw [pageState_address, Nat.mod_eq_of_lt (by omega)] at hlast
    omega
  have haddress : (pageState m k).address = 4096 * k := by
    rw [pageState_address, Nat.mod_eq_of_lt (by omega)]
  have hindex := pageState_index (k := k) hP (by omega)
  rw [haddress] at hlists
  have hlow := ((listsPage_iff (Nat.mul_mod_right 4096 k) hP).mp hlists).1
  have hlist : (pageState m k).i < m.freePageListSize / 4 := by
    rw [hsize]
    omega
  refine ⟨hlist, fun b hb => hspace.identity _ ?_⟩
  rw [hstart]
  rw [hsize] at hlist
  unfold roundUp
  omega

end List

section Sizes
variable {sysInfo : SystemInfo} {m : Memory}

theorem SizesAllowed.start (h : SizesAllowed sysInfo) (m : Memory) :
    (markKernelEnd sysInfo m).pFreeMemoryStart =
      virt2Phys sysInfo.kernelEnd + sysInfo.totalMemory / 1024 := by
  have himage := h.image
  rw [kernelVirtAddr] at himage
  exact markKernelEnd_start h.kernelEnd_ge (by rw [wordSize_eq]; omega) h.total_word

theorem SizesAllowed.bounds (h : SizesAllowed sysInfo) :
    0x100000 ≤ virt2Phys sysInfo.kernelEnd ∧
      0x100000 < virt2Phys sysInfo.kernelEnd + sysInfo.totalMemory / 1024 ∧
      virt2Phys sysInfo.kernelEnd + sysInfo.totalMemory / 1024 < 0x800000 := by
  have himage := h.image
  have hge := h.kernelEnd_ge
  have hword := h.total_word
  have hfree := h.free
  have hphys := virt2Phys_of_le hge (by rw [kernelVirtAddr] at himage; rw [wordSize_eq]; omega)
  rw [kernelVirtAddr, kernelPhysAddr] at hphys
  rw [kernelVirtAddr] at himage hge
  rw [wordSize_eq] at hword
  omega

theorem SizesAllowed.inBounds (h : SizesAllowed sysInfo)
    (hfits : virt2Phys sysInfo.kernelEnd + sysInfo.totalMemory / 1024 ≤ 0x400000) (m : Memory) :
    InBounds sysInfo m := by
  obtain ⟨hphys, hlow, hhigh⟩ := h.bounds
  have hstart := h.start m
  have htables := initPageTables_eq (markKernelEnd sysInfo m) (le_refl wordSize)
    (by rw [hstart, kernelPhysAddr]; exact hlow) (by rw [hstart, wordSize_eq]; omega)
  have hroom : (pagingEnabled sysInfo m).pages.pTotalMemory + 4096 < wordSize := by
    change sysInfo.totalMemory + 4096 < wordSize
    rw [wordSize_eq]
    omega
  obtain ⟨s, hs⟩ := buildFreePageList_returns hroom
  refine ⟨⟨wordSize, markFreePages (pagingEnabled sysInfo m) s, ?_⟩, fun phys => ?_, fun phys => ?_,
    fun fuel u hu k hk hlists => ?_⟩
  · rw [initVirtMem, htables, Option.bind_some]
    exact hs wordSize (le_refl wordSize)
  · exact fillsInside (t := 5) (Nat.zero_le _) (by rw [hstart]; omega) (by decide)
  · refine fillsInside (t := 6) ?_ ?_ (by decide)
    · rw [hstart, kernelPhysAddr]
      omega
    · rw [hstart, kernelPhysAddr]
      omega
  · have hsame := (initPageTables_mono (Nat.le_max_left fuel wordSize) hu).symm.trans
      (initPageTables_mono (Nat.le_max_right fuel wordSize) htables)
    cases hsame
    rw [← hstart] at hlow hfits
    exact storesToList (m := pagingEnabled sysInfo m) hlow hstart (Nat.shiftRight_eq_div_pow _ _) hroom
      (bootTables_addressSpace hlow hfits) hk hlists

/-- The stores stay in bounds exactly when the kernel and the list end in the first 4 MB. -/
theorem inBounds_iff (sysInfo : SystemInfo) (m : Memory) (h : SizesAllowed sysInfo) :
    InBounds sysInfo m ↔ virt2Phys sysInfo.kernelEnd + sysInfo.totalMemory / 1024 ≤ 0x400000 := by
  constructor
  · intro hbounds
    by_contra hlarge
    have hlower := hbounds.lower m.phys
    rw [h.start m] at hlower
    exact not_fillsInside (t := 5) (Nat.lt_of_not_le hlarge) hlower
  · exact fun hfits => h.inBounds hfits m

theorem inBounds_small : InBounds smallMachine (staticMemory (fun _ => 0) (fun _ => 0)) ↔
    virt2Phys smallMachine.kernelEnd + smallMachine.totalMemory / 1024 ≤ 0x400000 :=
  inBounds_iff smallMachine _ ⟨by decide, by decide, by decide, by decide, by decide⟩

/-- Three gigabytes and a kernel of 264 KB. -/
def largeMachine : SystemInfo where
  totalMemory := 0xC0000000
  kernelEnd := 0xC0042000

theorem inBounds_fails : SizesAllowed largeMachine ∧
    ¬ InBounds largeMachine (staticMemory (fun _ => 0) (fun _ => 0)) := by
  have hsizes : SizesAllowed largeMachine := ⟨by decide, by decide, by decide, by decide, by decide⟩
  refine ⟨hsizes, fun hbounds => ?_⟩
  have hlower := hbounds.lower fun _ => 0
  rw [hsizes.start] at hlower
  exact not_fillsInside (t := 5) (by decide) hlower

end Sizes

end Ktux.InitBounds
