import Ktux.KernelMemory

set_option autoImplicit false

/-!
# The free page list

The second half of `init_virt_mem`: one loop over all pages decides from the first byte of each whether it
goes on the list.
-/
namespace Ktux.FreePageList
open Words MemoryLayout PageAllocator Loops TwoLevelPaging KernelMemory

/-- `stop` is the field `end`, the last byte of the region. -/
structure RsvdMem where
  start : ℕ
  stop : ℕ

def reservedX86Regions : List RsvdMem :=
  [ ⟨0x00000000, 0x000004FF⟩,
    ⟨0x0009FC00, 0x0009FFFF⟩,
    ⟨0x000A0000, 0x000BFFFF⟩,
    ⟨0x000C0000, 0x000C7FFF⟩,
    ⟨0x000C8000, 0x000EFFFF⟩,
    ⟨0x000F0000, 0x000FFFFF⟩,
    ⟨0, 0⟩ ]

def knownRegions : List RsvdMem := reservedX86Regions.takeWhile fun r => decide (0 < r.stop)

def lastReservedRegion : ℕ := knownRegions.length - 1

def inReservedRegion (address : ℕ) : Bool :=
  decide (address < (reservedX86Regions.getD lastReservedRegion ⟨0, 0⟩).stop) &&
    knownRegions.any fun r => decide (r.start < address) && decide (address < r.stop - 1)

/-- Whether the body of the loop reaches `freePageList[i++] = address`. -/
def listsPage (pFreeMemoryStart pTotalMemory address : ℕ) : Bool :=
  if pFreeMemoryStart < address ∧ address < wsub pTotalMemory 1 then true
  else if pKernelStackAddr < address ∧ address < pKernelStackAddr + kernelStackSize - 1 then false
  else if address < pStartFreeRam then false
  else !inReservedRegion address

structure PageLoop where
  i : ℕ
  address : ℕ
  freePageList : ℕ → ℕ

def pagePass (pFreeMemoryStart pTotalMemory : ℕ) (s : PageLoop) : PageLoop where
  i := if listsPage pFreeMemoryStart pTotalMemory s.address then s.i + 1 else s.i
  address := wadd s.address pageSize
  freePageList :=
    if listsPage pFreeMemoryStart pTotalMemory s.address then
      Function.update s.freePageList s.i s.address
    else s.freePageList

def markFreePages (m : Memory) (s : PageLoop) : Memory :=
  let freePageListEntries := wsub s.i 1
  let freeMemory := freePageListEntries <<< pageSizeShift % wordSize
  { m with pages :=
    { m.pages with
      freePageList := s.freePageList
      freePageListEntries := freePageListEntries
      freeMemory := freeMemory
      usedMemory := wsub m.pages.pTotalMemory freeMemory } }

def buildFreePageList (fuel : ℕ) (m : Memory) : Option Memory :=
  (whileLoop (fun s => decide (s.address < m.pages.pTotalMemory))
    (fun s => some (pagePass m.pFreeMemoryStart m.pages.pTotalMemory s)) fuel
    ⟨0, 0, m.pages.freePageList⟩).map (markFreePages m)

/-- The stores to the list are taken to succeed. Those past the first 4 MB, of a kernel of 3 MB or a list for
much RAM, are faults in the code: `DetectMemory.Passes`. -/
def initVirtMem (fuel : ℕ) (sysInfo : SystemInfo) (m : Memory) : Option Memory :=
  (initPageTables fuel (markKernelEnd sysInfo m)).bind (buildFreePageList fuel)

/-- The sizes `init_virt_mem` is called with. -/
structure Admissible (sysInfo : SystemInfo) : Prop where
  kernelEnd_aligned : sysInfo.kernelEnd % pageSize = 0
  kernelEnd_above : kernelVirtAddr < sysInfo.kernelEnd
  kernelEnd_word : sysInfo.kernelEnd < wordSize
  totalMemory_aligned : sysInfo.totalMemory % pageSize = 0
  totalMemory_word : sysInfo.totalMemory < wordSize
  fits : virt2Phys sysInfo.kernelEnd + sysInfo.totalMemory / 1024 < sysInfo.totalMemory

section Loop
variable {P T : ℕ}

/-- After some passes the list holds the pages below `address` that the test admits, in ascending order. -/
structure Listing (P T : ℕ) (s : PageLoop) : Prop where
  aligned : s.address % 4096 = 0
  room : s.i * 4096 ≤ s.address
  sorted : ∀ j k, j < k → k < s.i → s.freePageList j < s.freePageList k
  listed : ∀ a, (∃ k < s.i, s.freePageList k = a) ↔
    a % 4096 = 0 ∧ a < s.address ∧ listsPage P T a = true

theorem listing_start (list : ℕ → ℕ) : Listing P T ⟨0, 0, list⟩ := by
  refine ⟨rfl, by simp, fun j k _ hk => absurd hk (Nat.not_lt_zero k), fun a => ?_⟩
  simp

theorem Listing.pass {s : PageLoop} (h : Listing P T s) (hroom : s.address + 4096 < wordSize) :
    Listing P T (pagePass P T s) := by
  have haligned := h.aligned
  have hnext : (pagePass P T s).address = s.address + 4096 := wadd_of_lt hroom
  have hlast : ∀ a, a % 4096 = 0 ∧ a < s.address + 4096 ∧ listsPage P T a = true ↔
      (a = s.address ∧ listsPage P T s.address = true) ∨
        a % 4096 = 0 ∧ a < s.address ∧ listsPage P T a = true := by
    intro a
    constructor
    · rintro ⟨ha, hlt, hl⟩
      by_cases heq : a = s.address
      · exact Or.inl ⟨heq, heq ▸ hl⟩
      · exact Or.inr ⟨ha, by omega, hl⟩
    · rintro (⟨rfl, hl⟩ | ⟨ha, hlt, hl⟩)
      · exact ⟨haligned, by omega, hl⟩
      · exact ⟨ha, by omega, hl⟩
  by_cases hl : listsPage P T s.address = true
  · have hi : (pagePass P T s).i = s.i + 1 := if_pos hl
    have hlist : (pagePass P T s).freePageList = Function.update s.freePageList s.i s.address :=
      if_pos hl
    refine ⟨by rw [hnext]; omega, ?_, ?_, ?_⟩
    · rw [hi, hnext, Nat.succ_mul]
      exact Nat.add_le_add_right h.room 4096
    · intro j k hjk hk
      rw [hi] at hk
      rw [hlist, Function.update_of_ne (by omega : j ≠ s.i)]
      by_cases hki : k = s.i
      · rw [hki, Function.update_self]
        exact ((h.listed _).mp ⟨j, by omega, rfl⟩).2.1
      · rw [Function.update_of_ne hki]
        exact h.sorted j k hjk (by omega)
    · intro a
      rw [hnext, hlast, ← h.listed, hi, hlist]
      constructor
      · rintro ⟨k, hk, rfl⟩
        by_cases hki : k = s.i
        · exact Or.inl ⟨by rw [hki, Function.update_self], hl⟩
        · exact Or.inr ⟨k, by omega, (Function.update_of_ne hki _ _).symm⟩
      · rintro (⟨rfl, _⟩ | ⟨k, hk, rfl⟩)
        · exact ⟨s.i, by omega, Function.update_self _ _ _⟩
        · exact ⟨k, by omega, Function.update_of_ne (by omega) _ _⟩
  · have hi : (pagePass P T s).i = s.i := if_neg hl
    have hlist : (pagePass P T s).freePageList = s.freePageList := if_neg hl
    refine ⟨by rw [hnext]; omega, ?_, ?_, ?_⟩
    · rw [hi, hnext]
      exact h.room.trans (Nat.le_add_right _ _)
    · rw [hi, hlist]
      exact h.sorted
    · intro a
      rw [hnext, hlast, ← h.listed, hi, hlist]
      simp [hl]

theorem listing_ends {fuel : ℕ} (list : ℕ → ℕ) (hT : T % 4096 = 0) (hword : T < wordSize)
    (hfuel : wordSize ≤ fuel) :
    ∃ s, whileLoop (fun s => decide (s.address < T)) (fun s => some (pagePass P T s)) fuel
        ⟨0, 0, list⟩ = some s ∧ s.address = T ∧ Listing P T s := by
  rw [wordSize_eq] at hword hfuel
  obtain ⟨s, hs, haddr, hlisting⟩ := whileLoop_total
    (c := fun s => decide (s.address < T)) (b := fun s => some (pagePass P T s))
    (fun k s => s.address + 4096 * k = T ∧ Listing P T s)
    (fun k s h => by
      have hroom : s.address + 4096 < wordSize := by
        rw [wordSize_eq]
        omega
      refine ⟨decide_eq_true (by omega), _, rfl, ?_, h.2.pass hroom⟩
      have hnext : (pagePass P T s).address = s.address + 4096 := wadd_of_lt hroom
      omega)
    (fun s h => decide_eq_false (by omega))
    (k := T / 4096) (s := ⟨0, 0, list⟩) ⟨by dsimp only; omega, listing_start list⟩
  exact ⟨s, whileLoop_mono (by omega) hs, haddr, hlisting⟩

theorem knownRegions_eq : knownRegions =
    [⟨0x00000000, 0x000004FF⟩, ⟨0x0009FC00, 0x0009FFFF⟩, ⟨0x000A0000, 0x000BFFFF⟩,
      ⟨0x000C0000, 0x000C7FFF⟩, ⟨0x000C8000, 0x000EFFFF⟩, ⟨0x000F0000, 0x000FFFFF⟩] := by
  simp [knownRegions, reservedX86Regions]

theorem inReservedRegion_iff (a : ℕ) (ha : a % 4096 = 0) : inReservedRegion a = true ↔
    0xA0000 < a ∧ a < 0x100000 ∧ a ≠ 0xC0000 ∧ a ≠ 0xC8000 ∧ a ≠ 0xF0000 := by
  have hlast : (reservedX86Regions.getD lastReservedRegion ⟨0, 0⟩).stop = 0xFFFFF := by
    rw [lastReservedRegion, knownRegions_eq]
    rfl
  rw [inReservedRegion, hlast, knownRegions_eq]
  simp only [List.any_cons, List.any_nil, Bool.and_eq_true, Bool.or_eq_true, decide_eq_true_eq,
    Bool.false_eq_true, or_false]
  omega

/-- Which pages the test admits. Below 1 MB it keeps the page that holds the start of the EBDA and the
first page of each later reserved region; above it keeps the pages of the kernel image and of the list. -/
theorem listsPage_iff {a : ℕ} (ha : a % 4096 = 0) (hP : 0x100000 < P) :
    listsPage P T a = true ↔ 0x9000 ≤ a ∧
      (a ≤ 0xA0000 ∨ 0x100000 ≤ a ∨ a = 0xC0000 ∨ a = 0xC8000 ∨ a = 0xF0000) := by
  have hscan := inReservedRegion_iff a ha
  unfold listsPage
  rw [pKernelStackAddr, kernelStackSize, pStartFreeRam]
  split_ifs with hfree hstack hlow
  · simp only [true_iff]
    omega
  · omega
  · simp only [false_iff]
    omega
  · rw [Bool.not_eq_true', ← Bool.not_eq_true, hscan]
    omega

theorem Listing.nonempty {s : PageLoop} (h : Listing P T s) (hs : s.address = T)
    (hP : 0x100000 < P) (hPT : P < T) : 0 < s.i := by
  obtain ⟨k, hk, _⟩ := (h.listed 0x9000).mpr
    ⟨by decide, by omega, (listsPage_iff (by decide) hP).mpr (by omega)⟩
  omega

/-- From the top down the list holds every page to one megabyte. -/
theorem listing_fromTop {P T : ℕ} {s : PageLoop} (h : Listing P T s) (hs : s.address = T) (hP : 0x100000 < P)
    {k a : ℕ} (hlo : 0x100000 ≤ a) (ha : a + 4096 * k + 4096 = T) :
    k < s.i ∧ s.freePageList (s.i - 1 - k) = a := by
  have haligned := h.aligned
  rw [hs] at haligned
  have hbelow : ∀ j < s.i, s.freePageList j % 4096 = 0 ∧ s.freePageList j < T := by
    intro j hj
    obtain ⟨ha, hlt, _⟩ := (h.listed _).mp ⟨j, hj, rfl⟩
    exact ⟨ha, hs ▸ hlt⟩
  obtain ⟨j, hj, hja⟩ := (h.listed a).mpr ⟨by omega, by omega, (listsPage_iff (by omega) hP).mpr (by omega)⟩
  induction k generalizing a j with
  | zero =>
    have hlast := hbelow (s.i - 1) (by omega)
    refine ⟨by omega, ?_⟩
    rcases (show j ≤ s.i - 1 by omega).eq_or_lt with heq | hlt
    · rw [Nat.sub_zero, ← heq, hja]
    · have := h.sorted j _ hlt (by omega)
      omega
  | succ k ih =>
    obtain ⟨i, hi, hia⟩ := (h.listed (a + 4096)).mpr
      ⟨by omega, by omega, (listsPage_iff (by omega) hP).mpr (by omega)⟩
    obtain ⟨hki, hkt⟩ := ih (a := a + 4096) (by omega) (by omega) i hi hia
    have hbefore : j < s.i - 1 - k := by
      by_contra hnot
      rcases (show s.i - 1 - k ≤ j by omega).eq_or_lt with heq | hlt
      · rw [heq, hja] at hkt
        omega
      · have := h.sorted _ j hlt hj
        omega
    refine ⟨by omega, ?_⟩
    rcases (show j ≤ s.i - 1 - (k + 1) by omega).eq_or_lt with heq | hlt
    · rw [← heq, hja]
    · have hlow := h.sorted j _ hlt (by omega)
      have hhigh := h.sorted (s.i - 1 - (k + 1)) (s.i - 1 - k) (by omega) (by omega)
      have hpage := hbelow (s.i - 1 - (k + 1)) (by omega)
      omega

theorem Listing.stack {s : PageLoop} (h : Listing P T s) (hs : s.address = T)
    (hP : 0x100000 < P) (hPT : P < T) (hT : T % 4096 = 0) (hword : T < wordSize) {m : Memory}
    (hm : m.pages.pTotalMemory = T) : FreePageStack (s.i - 1) (markFreePages m s).pages := by
  have hpos := h.nonempty hs hP hPT
  have hroom := h.room
  have hcount : s.i < wordSize := by omega
  have hentry : ∀ k ≤ s.i - 1, s.freePageList k % 4096 = 0 ∧ 0x9000 ≤ s.freePageList k := by
    intro k hk
    obtain ⟨ha, hlt, hl⟩ := (h.listed _).mp ⟨k, by omega, rfl⟩
    exact ⟨ha, ((listsPage_iff ha hP).mp hl).1⟩
  refine ⟨?_, wsub_of_le hpos hcount, by omega, ?_, ?_, ?_, ?_⟩
  · change m.pages.pTotalMemory ≠ 0
    omega
  · intro j k hj hk heq
    rcases Nat.lt_trichotomy j k with hlt | rfl | hlt
    · exact absurd heq (h.sorted j k hlt (by omega)).ne
    · rfl
    · exact absurd heq.symm (h.sorted k j hlt (by omega)).ne
  · intro k hk
    have := (hentry k hk).2
    change s.freePageList k ≠ 0
    omega
  · intro k hk
    change s.freePageList k &&& 0xFFF = 0
    rw [show (0xFFF : ℕ) = 2 ^ 12 - 1 from rfl, and_lowMask]
    exact (hentry k hk).1
  · intro k hk
    obtain ⟨_, hlt, _⟩ := (h.listed _).mp ⟨k, Nat.lt_of_le_pred hpos hk, rfl⟩
    exact (hs ▸ hlt).trans hword

end Loop

section Sizes
variable {sysInfo : SystemInfo}

theorem Admissible.virt2Phys_eq (h : Admissible sysInfo) :
    virt2Phys sysInfo.kernelEnd = sysInfo.kernelEnd - kernelVirtAddr + kernelPhysAddr :=
  virt2Phys_of_le h.kernelEnd_above.le h.kernelEnd_word

theorem Admissible.freeMemoryStart (h : Admissible sysInfo) (m : Memory) :
    (markKernelEnd sysInfo m).pFreeMemoryStart =
      virt2Phys sysInfo.kernelEnd + sysInfo.totalMemory / 1024 :=
  markKernelEnd_start h.kernelEnd_above.le h.kernelEnd_word h.totalMemory_word

theorem Admissible.above_kernel (h : Admissible sysInfo) :
    kernelPhysAddr < virt2Phys sysInfo.kernelEnd := by
  have := h.kernelEnd_above
  rw [h.virt2Phys_eq]
  omega

theorem buildFreePageList_eq {fuel : ℕ} (m : Memory) (hT : m.pages.pTotalMemory % 4096 = 0)
    (hword : m.pages.pTotalMemory < wordSize) (hfuel : wordSize ≤ fuel) :
    ∃ s, s.address = m.pages.pTotalMemory ∧ Listing m.pFreeMemoryStart m.pages.pTotalMemory s ∧
      buildFreePageList fuel m = some (markFreePages m s) := by
  obtain ⟨s, hs, haddr, hlisting⟩ := listing_ends (P := m.pFreeMemoryStart) m.pages.freePageList hT
    hword hfuel
  exact ⟨s, haddr, hlisting, by rw [buildFreePageList, hs, Option.map_some]⟩

def pagingEnabled (sysInfo : SystemInfo) (m : Memory) : Memory :=
  let limit := (markKernelEnd sysInfo m).pFreeMemoryStart
  { markKernelEnd sysInfo m with
    phys := bootTables m.phys limit
    numKernelPages := pagesBelow kernelPhysAddr limit - 1
    numKernelTables := (pagesBelow kernelPhysAddr limit - 1) / 1024 }

/-- `init_virt_mem` returns: the boot tables, and the list that its loop leaves. -/
theorem initVirtMem_eq (h : Admissible sysInfo) (m : Memory) {fuel : ℕ} (hfuel : wordSize ≤ fuel) :
    ∃ s, s.address = sysInfo.totalMemory ∧
      Listing (markKernelEnd sysInfo m).pFreeMemoryStart sysInfo.totalMemory s ∧
      initVirtMem fuel sysInfo m = some (markFreePages (pagingEnabled sysInfo m) s) := by
  have hP := h.freeMemoryStart m
  have hlo := h.above_kernel
  have hfits := h.fits
  have haligned := h.totalMemory_aligned
  have hword := h.totalMemory_word
  have hhi : (markKernelEnd sysInfo m).pFreeMemoryStart + 4096 < wordSize := by
    rw [pageSize] at haligned
    rw [wordSize_eq] at hword ⊢
    omega
  have htables := initPageTables_eq (markKernelEnd sysInfo m) hfuel (by omega) hhi
  obtain ⟨s, haddr, hlisting, hlist⟩ := buildFreePageList_eq (pagingEnabled sysInfo m) haligned hword
    hfuel
  refine ⟨s, haddr, hlisting, ?_⟩
  rw [initVirtMem, htables, Option.bind_some]
  exact hlist

section Stored
variable {m : Memory} {s : PageLoop}

end Stored

end Sizes

def smallMachine : SystemInfo where
  totalMemory := 0x1000000
  kernelEnd := 0xC0010000

theorem smallMachine_admissible : Admissible smallMachine :=
  ⟨by decide, by decide, by decide, by decide, by decide, by decide⟩

end Ktux.FreePageList
