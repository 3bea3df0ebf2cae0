import Ktux.DetectMemory
import Ktux.MapPage

set_option autoImplicit false

/-!
# The address space after boot

What the page directory of `init_virt_mem` maps, for every address and every size of kernel and memory that
one table can hold.
-/
namespace Ktux.AddressSpace
open Words MemoryLayout TwoLevelPaging KernelMemory FreePageList DetectMemory MapPage Loops

/-- Bit 1 of an entry. -/
def writable (e : ℕ) : Prop := e / 2 % 2 = 1

/-- Bit 2 of an entry, the user flag, is clear. -/
def supervisorOnly (e : ℕ) : Prop := e / 4 % 2 = 0

/-- The walk of `v` ends at `p`, and both entries let the kernel write and users do nothing. -/
def MapsTo (m : Phys) (v p : ℕ) : Prop :=
  ∃ pde pte, walk m directory v = some (pde, pte) ∧ frame pte * 4096 + v % 4096 = p ∧
    writable pde ∧ writable pte ∧ supervisorOnly pde ∧ supervisorOnly pte

/-- The first bytes of memory and of the kernel's space, up to the page in which free memory starts, and
nothing else. -/
structure BootAddressSpace (start : ℕ) (m : Phys) : Prop where
  identity : ∀ v < roundUp start, MapsTo m v v
  kernel : ∀ k < roundUp (start - kernelPhysAddr), MapsTo m (kernelVirtAddr + k) (kernelPhysAddr + k)
  missing : ∀ v < wordSize, roundUp start ≤ v →
    (∀ k < roundUp (start - kernelPhysAddr), v ≠ kernelVirtAddr + k) → walk m directory v = none

section Entries
variable {m : Phys} {limit : ℕ}

theorem bootTables_kernel (hlo : kernelPhysAddr < limit) (hhi : limit ≤ 0x400000) {j : ℕ}
    (hj : j < 1024) : entryAt (bootTables m limit) 6 j =
      if kernelPhysAddr + 4096 * j < limit then presentEntry kernelPhysAddr j else missingEntry j := by
  rw [bootTables_other hlo hhi hj (by decide),
    mappedTable_entry 6 kernelPhysAddr hlo (hhi.trans (by decide)) hj]

theorem presentEntry_eq {first j : ℕ} (hfirst : first % 4096 = 0) (h : first + 4096 * j < wordSize) :
    presentEntry first j = first + 4096 * j + 3 := by
  rw [presentEntry, makePTEphys_eq _ h]
  change _ + 3 = _
  omega

theorem missingEntry_eq (j : ℕ) : missingEntry j = 2 := by
  rw [missingEntry]
  decide

/-- The walk through a directory entry whose table maps ascending pages from `first` up to `limit`. -/
theorem walk_mapped {t first v : ℕ} (hdir : entryAt m directory (dirIndex v) = t * 4096 + 3)
    (htable : entryAt m t (pageIndex v) =
      if first + 4096 * pageIndex v < limit then first + 4096 * pageIndex v + 3 else 2)
    (hfirst : first % 4096 = 0) :
    walk m directory v =
      if first + 4096 * pageIndex v < limit then some (t * 4096 + 3, first + 4096 * pageIndex v + 3)
      else none := by
  have hpresent : present (entryAt m directory (dirIndex v)) := by
    rw [hdir, present]
    omega
  have hframe : frame (entryAt m directory (dirIndex v)) = t := by
    rw [hdir, frame]
    omega
  rw [walk, if_pos hpresent, hframe, hdir, htable]
  by_cases h : first + 4096 * pageIndex v < limit
  · rw [if_pos h, if_pos h, if_pos (by rw [present]; omega)]
  · rw [if_neg h, if_neg h, if_neg (by rw [present]; decide)]

end Entries

section Walk
variable {m : Phys} {limit v k : ℕ}

theorem walk_identity (hlo : kernelPhysAddr < limit) (hhi : limit ≤ 0x400000) (hv : v < 0x400000) :
    walk (bootTables m limit) directory v =
      if v < roundUp limit then some (0x5003, v / 4096 * 4096 + 3) else none := by
  have hd : dirIndex v = 0 := by
    unfold dirIndex
    omega
  have hp : 4096 * pageIndex v = v / 4096 * 4096 := by
    unfold pageIndex
    omega
  have htable : entryAt (bootTables m limit) 5 (pageIndex v) =
      if 0 + 4096 * pageIndex v < limit then 0 + 4096 * pageIndex v + 3 else 2 := by
    rw [bootTables_identity hlo hhi (pageIndex_lt v), missingEntry_eq, presentEntry_eq rfl, Nat.zero_add]
    rw [wordSize_eq]
    omega
  have hdir : entryAt (bootTables m limit) directory (dirIndex v) = 5 * 4096 + 3 := by
    rw [hd]
    exact bootTables_directory hlo hhi (by decide)
  rw [walk_mapped hdir htable rfl, Nat.zero_add, hp]
  refine if_congr ?_ rfl rfl
  unfold roundUp
  omega

theorem walk_kernel (hlo : kernelPhysAddr < limit) (hhi : limit ≤ 0x400000) (hk : k < 0x400000) :
    walk (bootTables m limit) directory (kernelVirtAddr + k) =
      if k < roundUp (limit - kernelPhysAddr) then some (0x6003, kernelPhysAddr + k / 4096 * 4096 + 3)
      else none := by
  have hd : dirIndex (kernelVirtAddr + k) = 768 := by
    rw [dirIndex, kernelVirtAddr]
    omega
  have hp : 4096 * pageIndex (kernelVirtAddr + k) = k / 4096 * 4096 := by
    rw [pageIndex, kernelVirtAddr]
    omega
  have htable : entryAt (bootTables m limit) 6 (pageIndex (kernelVirtAddr + k)) =
      if kernelPhysAddr + 4096 * pageIndex (kernelVirtAddr + k) < limit then
        kernelPhysAddr + 4096 * pageIndex (kernelVirtAddr + k) + 3 else 2 := by
    rw [bootTables_kernel hlo hhi (pageIndex_lt _), missingEntry_eq, presentEntry_eq rfl]
    rw [hp, kernelPhysAddr, wordSize_eq]
    omega
  have hdir : entryAt (bootTables m limit) directory (dirIndex (kernelVirtAddr + k)) = 6 * 4096 + 3 := by
    rw [hd]
    exact bootTables_directory hlo hhi (by decide)
  rw [walk_mapped hdir htable rfl, hp]
  refine if_congr ?_ rfl rfl
  rw [kernelPhysAddr] at *
  unfold roundUp
  omega

theorem walk_elsewhere (hlo : kernelPhysAddr < limit) (hhi : limit ≤ 0x400000) (hv : v < wordSize)
    (h0 : dirIndex v ≠ 0) (h768 : dirIndex v ≠ 768) : walk (bootTables m limit) directory v = none := by
  have hd : dirIndex v < 1024 := by
    rw [← virt2Dir_dirIndex]
    exact virt2Dir_lt hv
  have hdir : entryAt (bootTables m limit) directory (dirIndex v) = 2 := by
    refine (bootTables_directory hlo hhi hd).trans ?_
    rw [if_neg h0, if_neg h768]
  exact walk_missing (by rw [hdir]; decide)

theorem mapsTo_of_walk {pde page p : ℕ} (hwalk : walk m directory v = some (pde, page * 4096 + 3))
    (hpde : pde % 8 = 3) (hp : page * 4096 + v % 4096 = p) : MapsTo m v p := by
  have hframe : frame (page * 4096 + 3) = page := by
    unfold frame
    omega
  refine ⟨pde, page * 4096 + 3, hwalk, by rw [hframe, hp], ?_, ?_, ?_, ?_⟩
  · unfold writable
    omega
  · unfold writable
    omega
  · unfold supervisorOnly
    omega
  · unfold supervisorOnly
    omega

theorem bootTables_addressSpace (hlo : kernelPhysAddr < limit) (hhi : limit ≤ 0x400000) :
    BootAddressSpace limit (bootTables m limit) where
  identity v hv := by
    have hfirst : v < 0x400000 := by
      unfold roundUp at hv
      omega
    have hwalk := walk_identity (m := m) hlo hhi hfirst
    rw [if_pos hv] at hwalk
    exact mapsTo_of_walk hwalk (by decide) (by omega)
  kernel k hk := by
    have hfirst : k < 0x400000 := by
      unfold roundUp at hk
      omega
    have hwalk := walk_kernel (m := m) hlo hhi hfirst
    have hpage : kernelPhysAddr + k / 4096 * 4096 = (256 + k / 4096) * 4096 := by
      rw [kernelPhysAddr]
      omega
    rw [if_pos hk, hpage] at hwalk
    refine mapsTo_of_walk hwalk (by decide) ?_
    rw [kernelPhysAddr, kernelVirtAddr]
    omega
  missing v hv hidentity hkernel := by
    by_cases h0 : dirIndex v = 0
    · have hfirst : v < 0x400000 := by
        unfold dirIndex at h0
        omega
      rw [walk_identity hlo hhi hfirst, if_neg (by omega)]
    · by_cases h768 : dirIndex v = 768
      · obtain ⟨k, rfl⟩ : ∃ k, v = kernelVirtAddr + k := ⟨v - kernelVirtAddr, by
          rw [kernelVirtAddr]
          unfold dirIndex at h768
          omega⟩
        have hfirst : k < 0x400000 := by
          rw [dirIndex, kernelVirtAddr] at h768
          omega
        rw [walk_kernel hlo hhi hfirst, if_neg fun hk => hkernel k hk rfl]
      · exact walk_elsewhere hlo hhi hv h0 h768

end Walk

section Boot
variable {sysInfo : SystemInfo} {m : Memory}

/-- The loop over all pages ends and leaves the paging structures alone. -/
theorem buildFreePageList_returns (hroom : m.pages.pTotalMemory + 4096 < wordSize) :
    ∃ s, ∀ fuel ≥ wordSize, buildFreePageList fuel m = some (markFreePages m s) := by
  obtain ⟨s, hs, -⟩ := whileLoop_total
    (c := fun s => decide (s.address < m.pages.pTotalMemory))
    (b := fun s => some (pagePass m.pFreeMemoryStart m.pages.pTotalMemory s))
    (fun k s => m.pages.pTotalMemory ≤ s.address + 4096 * k ∧
      s.address + 4096 * k < m.pages.pTotalMemory + 4096)
    (fun k s h => by
      have hnext : (pagePass m.pFreeMemoryStart m.pages.pTotalMemory s).address = s.address + 4096 :=
        wadd_of_lt (by rw [pageSize]; omega)
      exact ⟨decide_eq_true (by omega), _, rfl, by omega, by omega⟩)
    (fun s h => decide_eq_false (by omega))
    (k := (m.pages.pTotalMemory + 4095) / 4096) (s := ⟨0, 0, m.pages.freePageList⟩)
    ⟨by dsimp only; omega, by dsimp only; omega⟩
  refine ⟨s, fun fuel hfuel => ?_⟩
  have hpasses : (m.pages.pTotalMemory + 4095) / 4096 + 1 ≤ fuel := by
    rw [wordSize_eq] at *
    omega
  rw [buildFreePageList, whileLoop_mono hpasses hs, Option.map_some]

theorem initVirtMem_returns {kernelEnd totalMemory : ℕ} (m : Memory) (hend : kernelVirtAddr < kernelEnd)
    (hword : kernelEnd < wordSize) (htotal : totalMemory < wordSize)
    (hfits : virt2Phys kernelEnd + totalMemory / 1024 ≤ 0x400000) :
    ∃ s, ∀ fuel ≥ wordSize, initVirtMem fuel ⟨totalMemory, kernelEnd⟩ m =
      some (markFreePages (pagingEnabled ⟨totalMemory, kernelEnd⟩ m) s) := by
  have hphys := virt2Phys_of_le hend.le hword
  have hstart := markKernelEnd_start (m := m) hend.le hword htotal
  have hlo : kernelPhysAddr < (markKernelEnd ⟨totalMemory, kernelEnd⟩ m).pFreeMemoryStart := by
    rw [hstart, hphys]
    omega
  have hhi : (markKernelEnd ⟨totalMemory, kernelEnd⟩ m).pFreeMemoryStart + 4096 < wordSize := by
    rw [hstart, wordSize_eq]
    omega
  have hroom : (pagingEnabled ⟨totalMemory, kernelEnd⟩ m).pages.pTotalMemory + 4096 < wordSize := by
    change totalMemory + 4096 < wordSize
    rw [hphys, kernelPhysAddr] at hfits
    rw [wordSize_eq]
    omega
  obtain ⟨s, hs⟩ := buildFreePageList_returns hroom
  refine ⟨s, fun fuel hfuel => ?_⟩
  rw [initVirtMem, initPageTables_eq _ hfuel hlo hhi, Option.bind_some]
  exact hs fuel hfuel

/-- `init_virt_mem` returns, and the directory that it hands to the processor maps exactly that. -/
theorem initVirtMem_addressSpace (kernelEnd totalMemory : ℕ) (m : Memory)
    (hend : kernelVirtAddr < kernelEnd) (hword : kernelEnd < wordSize) (htotal : totalMemory < wordSize)
    (hfits : virt2Phys kernelEnd + totalMemory / 1024 ≤ 0x400000) :
    ∃ u, (∀ fuel ≥ wordSize, initVirtMem fuel ⟨totalMemory, kernelEnd⟩ m = some u) ∧
      BootAddressSpace (virt2Phys kernelEnd + totalMemory / 1024) u.phys := by
  have hphys := virt2Phys_of_le hend.le hword
  have hstart := markKernelEnd_start (m := m) hend.le hword htotal
  obtain ⟨s, hs⟩ := initVirtMem_returns m hend hword htotal hfits
  refine ⟨_, hs, ?_⟩
  rw [← hstart]
  refine bootTables_addressSpace ?_ (by rw [hstart]; exact hfits)
  rw [hstart, hphys]
  omega

theorem initVirtMem_addressSpace_small :
    ∃ u, (∀ fuel ≥ wordSize, initVirtMem fuel ⟨0x4000000, 0xC0042000⟩
        (staticMemory (fun _ => 0xFFFFFFFF) fun _ => 0) = some u) ∧
      BootAddressSpace (virt2Phys 0xC0042000 + 0x4000000 / 1024) u.phys :=
  initVirtMem_addressSpace 0xC0042000 0x4000000 _ (by decide) (by decide) (by decide) (by decide)

end Boot

end Ktux.AddressSpace
