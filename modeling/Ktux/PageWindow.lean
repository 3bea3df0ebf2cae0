import Ktux.MapPage

set_option autoImplicit false

/-!
# The page-table window

The linear address at which the paging macros find the page table entry of an address, under any directory
whose entry for `V_KERNEL_PAGE_TABLE_1` names the directory itself.
-/
namespace Ktux.PageWindow
open Words MemoryLayout TwoLevelPaging MapPage

/-- `&((unsigned *)virt2Map(virt))[virt2Page(virt)]` -/
def windowPointer (virt : ℕ) : ℕ := element (virt2Map virt) (virt2Page virt)

/-- The physical address of the page table entry that translates `virt`. -/
def entryAddress (m : Phys) (D virt : ℕ) : ℕ :=
  4 * entryIndex (frame (entryAt m D (virt2Dir virt))) (virt2Page virt)

/-- The window shows the page table entry that the walk of `virt` uses. -/
structure ShowsEntry (m : Phys) (D virt : ℕ) : Prop where
  translates : translate m D (windowPointer virt) = some (entryAddress m D virt)
  used : walk m D virt = if present (m (entryAddress m D virt / 4)) then
    some (entryAt m D (virt2Dir virt), m (entryAddress m D virt / 4)) else none

section Window
variable {m : Phys} {D v w : ℕ}

theorem windowSlot_eq : virt2Dir vKernelPageTable1 = windowSlot := by decide

theorem entryAddress_word (m : Phys) (D virt : ℕ) : entryAddress m D virt / 4 =
    entryIndex (frame (entryAt m D (virt2Dir virt))) (virt2Page virt) :=
  Nat.mul_div_cancel_left _ (by decide)

theorem windowPointer_translate (hself : present (entryAt m D windowSlot))
    (hframe : frame (entryAt m D windowSlot) = D) (hv : v < wordSize) (hp : present (entryAt m D (virt2Dir v))) :
    translate m D (windowPointer v) = some (entryAddress m D v) := by
  have hi := virt2Page_lt v
  rw [windowPointer, element_window hv hi, window_translate hself hframe (virt2Dir_lt hv) hi hp, entryAddress]

theorem walk_entry (hp : present (entryAt m D (virt2Dir v))) :
    walk m D v = if present (m (entryAddress m D v / 4)) then
      some (entryAt m D (virt2Dir v), m (entryAddress m D v / 4)) else none := by
  rw [entryAddress_word, virt2Page_pageIndex]
  rw [virt2Dir_dirIndex] at hp ⊢
  exact walk_table hp

theorem entryAddress_ne (hpage : v / 4096 ≠ w / 4096)
    (hapart : virt2Dir v = virt2Dir w ∨
      frame (entryAt m D (virt2Dir v)) ≠ frame (entryAt m D (virt2Dir w))) :
    entryAddress m D v ≠ entryAddress m D w := by
  intro heq
  obtain ⟨hframe, hindex⟩ :=
    entryIndex_inj (virt2Page_lt v) (virt2Page_lt w) (Nat.eq_of_mul_eq_mul_left (by decide) heq)
  have hdir := hapart.resolve_right (not_not.mpr hframe)
  rw [virt2Dir_dirIndex, virt2Dir_dirIndex] at hdir
  rw [virt2Page_pageIndex, virt2Page_pageIndex] at hindex
  exact hpage (same_page hdir hindex)

end Window

theorem windowPointer_shows {m : Phys} {D : ℕ} (hself : present (entryAt m D (virt2Dir vKernelPageTable1)))
    (hframe : frame (entryAt m D (virt2Dir vKernelPageTable1)) = D) :
    (∀ virt < wordSize, present (entryAt m D (virt2Dir virt)) → ShowsEntry m D virt) ∧
    ∀ v < wordSize, ∀ w < wordSize, v / 4096 ≠ w / 4096 → present (entryAt m D (virt2Dir v)) →
      present (entryAt m D (virt2Dir w)) → (virt2Dir v = virt2Dir w ∨
        frame (entryAt m D (virt2Dir v)) ≠ frame (entryAt m D (virt2Dir w))) →
      entryAddress m D v ≠ entryAddress m D w := by
  rw [windowSlot_eq] at hself hframe
  exact ⟨fun virt hv hp => ⟨windowPointer_translate hself hframe hv hp, walk_entry hp⟩,
    fun v _ w _ hpage _ _ hapart => entryAddress_ne hpage hapart⟩

/-- A directory in frame 4 with its own entry and a table in frame 5 for the first 4 MB: the entry of the
page at 0x1000, and of the window's own first page, which is the first directory entry. -/
def selfMapped : Phys := fun k =>
  if k = 4 * 1024 then 5 * 4096 + 3 else if k = 4 * 1024 + 960 then 4 * 4096 + 3 else 0

theorem windowPointer_shows_two : translate selfMapped 4 (windowPointer 0x1000) = some 0x5004 ∧
    translate selfMapped 4 (windowPointer 0xF0000000) = some 0x4000 := by
  have h := (windowPointer_shows (m := selfMapped) (D := 4) (by decide) (by decide)).1
  exact ⟨(h 0x1000 (by decide) (by decide)).translates, (h 0xF0000000 (by decide) (by decide)).translates⟩

end Ktux.PageWindow
