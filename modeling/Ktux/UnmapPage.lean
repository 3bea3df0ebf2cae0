import Ktux.MapPage

set_option autoImplicit false

/-!
# Unmapping a page

`unmap_page_helper` takes the physical address in the directory entry for a pointer, where `map_page_helper`
goes through the window.
-/
namespace Ktux.UnmapPage
open Words MemoryLayout TwoLevelPaging KernelMemory MapPage

/-- The pointer to `pageTable[virt2Page(virt)]`. -/
def entryPointer (pageDirEntry virt : ℕ) : ℕ := element (pageDirEntry &&& pdeAddrMask) (virt2Page virt)

def unmapPageHelper (pageDir virt : ℕ) (m : Memory) : Option Memory := do
  let pageDirEntry ← loadWord m (element pageDir (virt2Dir virt))
  storeWord m (entryPointer pageDirEntry virt) (makePTEphys 0 pdeFlagRw)

section Property
variable (virt : ℕ) (m : Memory)

def dirEntry : ℕ := entryAt m.phys directory (virt2Dir virt)

/-- The physical word that `map_page_helper` writes for `virt`. -/
def tableWord : ℕ := entryIndex (frame (dirEntry virt m)) (virt2Page virt)

/-- Mapping `virt` and unmapping it again, whatever it is mapped to in between. -/
structure RoundTrip : Prop where
  same_entry : translate m.phys directory (entryPointer (dirEntry virt m) virt) =
    translate m.phys directory (element (virt2Map virt) (virt2Page virt))
  undone : ∀ physAddr flags, ∃ fuel u w,
    mapPageHelper pKernelPageDirectory virt physAddr flags fuel m = some u ∧
    unmapPageHelper pKernelPageDirectory virt u = some w ∧ walk w.phys directory virt = none ∧
    ∀ v < wordSize, v / 4096 ≠ virt / 4096 → walk w.phys directory v = walk m.phys directory v

/-- What unmapping is for: it undoes the mapping, and without a table it does nothing. -/
def UnmapUndoesMap : Prop :=
  if present (dirEntry virt m) then RoundTrip virt m
  else ∀ w, unmapPageHelper pKernelPageDirectory virt m = some w → w.phys = m.phys

/-- The page that has the number of the table's frame is mapped to that frame, and `virt` lies neither in
this page nor in the directory's. No other page that translates shares the entry of `virt`. -/
structure TableInPlace : Prop where
  identity : ∃ pde pte, walk m.phys directory (frame (dirEntry virt m) * 4096) = some (pde, pte) ∧
    frame pte = frame (dirEntry virt m)
  ne_directory : virt / 4096 ≠ directory
  ne_table : virt / 4096 ≠ frame (dirEntry virt m)
  unshared : ∀ v < wordSize, v / 4096 ≠ virt / 4096 → Consults m.phys directory v (tableWord virt m) →
    walk m.phys directory v = none

def Undoable : Prop :=
  if present (dirEntry virt m) then TableInPlace virt m
  else ∀ x, loadWord m (entryPointer (dirEntry virt m) virt) = some x → x = makePTEphys 0 pdeFlagRw

end Property

section Calls
variable {m : Memory} {virt : ℕ}

theorem frame_lt {e : ℕ} (he : e < wordSize) : frame e < 1048576 := by
  rw [wordSize_eq] at he
  unfold frame
  omega

theorem entryPointer_eq {e : ℕ} (he : e < wordSize) :
    entryPointer e virt = frame e * 4096 + 4 * virt2Page virt := by
  have hi := virt2Page_lt virt
  have hf := frame_lt he
  rw [entryPointer, and_pdeAddrMask e he, element, wadd_of_lt]
  · rfl
  · rw [wordSize_eq]
    unfold frame at hf
    omega

theorem entryPointer_page {e : ℕ} (he : e < wordSize) : entryPointer e virt / 4096 = frame e := by
  have hi := virt2Page_lt virt
  rw [entryPointer_eq he]
  omega

theorem entryPointer_offset {e : ℕ} (he : e < wordSize) : entryPointer e virt % 4096 = 4 * virt2Page virt := by
  have hi := virt2Page_lt virt
  rw [entryPointer_eq he]
  omega

theorem entryPointer_walk (m : Phys) {e : ℕ} (he : e < wordSize) :
    walk m directory (entryPointer e virt) = walk m directory (frame e * 4096) := by
  apply walk_same_page
  rw [entryPointer_page he]
  omega

theorem directory_page {d : ℕ} (hd : d < 1024) : element pKernelPageDirectory d / 4096 = directory := by
  have heq : element pKernelPageDirectory d = _ := element_identity (t := directory) (by decide) hd
  rw [heq]
  omega

theorem element_directory_lt {d : ℕ} (hd : d < 1024) : element pKernelPageDirectory d < wordSize := by
  have heq : element pKernelPageDirectory d = _ := element_identity (t := directory) (by decide) hd
  rw [heq, directory, wordSize_eq]
  omega

/-- The directory is read as before when its own page does not rest on the changed word. -/
theorem load_directory_unread (hid : IdentityMapped m.phys directory) {d k : ℕ} (x : ℕ) (hd : d < 1024)
    (hread : ¬ Consults m.phys directory (element pKernelPageDirectory d) k) (hk : entryIndex directory d ≠ k) :
    loadWord { m with phys := Function.update m.phys k x } (element pKernelPageDirectory d) =
      some (entryAt m.phys directory d) := by
  have hwalk : walk m.phys directory (element pKernelPageDirectory d) = _ := hid.walk_page (by decide) hd
  have hsame := walk_update_unread hread x
  have hindex := identity_index (t := directory) (by decide) hd hid.entry_frame
  change _ + element pKernelPageDirectory d % 4096 / 4 = _ at hindex
  rw [loadWord, load_of_walk (hsame.trans hwalk), hindex]
  exact congrArg some (Function.update_of_ne hk _ _)

/-- A store through the page that has the number of the table's frame. -/
theorem store_table (m : Memory) (virt : ℕ) {e pde pte : ℕ} (he : e < wordSize)
    (hwalk : walk m.phys directory (frame e * 4096) = some (pde, pte)) (hframe : frame pte = frame e) (x : ℕ) :
    storeWord m (entryPointer e virt) x =
      some { m with phys := Function.update m.phys (entryIndex (frame e) (virt2Page virt)) x } := by
  have hindex : frame pte * 1024 + entryPointer e virt % 4096 / 4 = entryIndex (frame e) (virt2Page virt) := by
    rw [hframe, entryPointer_offset he, entryIndex]
    omega
  rw [storeWord, store_of_walk ((entryPointer_walk m.phys he).trans hwalk), hindex]
  rfl

theorem consults_self (hp : present (dirEntry virt m)) {v : ℕ} (hpage : v / 4096 = virt / 4096) :
    Consults m.phys directory v (tableWord virt m) := by
  have hd : dirIndex v = virt2Dir virt := by
    rw [virt2Dir_dirIndex]
    unfold dirIndex
    omega
  have hi : pageIndex v = virt2Page virt := by
    rw [virt2Page_pageIndex]
    unfold pageIndex
    rw [hpage]
  refine Or.inr ?_
  rw [hd, hi]
  exact ⟨hp, rfl⟩

/-- The memory after `map_page_helper` has written `x` for `virt`. -/
def mapped (virt : ℕ) (m : Memory) (x : ℕ) : Memory :=
  { m with phys := Function.update m.phys (tableWord virt m) x }

end Calls

section SelfMap
variable {m u : Memory} {virt physAddr flags fuel : ℕ} (hid : IdentityMapped m.phys directory)
  (hwindow : Window m.phys) (hv : virt < wordSize) (hp : present (dirEntry virt m))
include hid

theorem walk_directory_page {d : ℕ} (hd : d < 1024) :
    walk m.phys directory (element pKernelPageDirectory d) ≠ none := by
  have hwalk : walk m.phys directory (element pKernelPageDirectory d) = _ := hid.walk_page (by decide) hd
  rw [hwalk]
  exact Option.some_ne_none _

include hwindow hv hp

theorem mapPageHelper_mapped : mapPageHelper pKernelPageDirectory virt physAddr flags (fuel + 1) m =
    some (mapped virt m (makePTEphys physAddr flags)) := mapPageHelper_present hid hwindow hv hp fuel

theorem mapped_of_returns (h : mapPageHelper pKernelPageDirectory virt physAddr flags fuel m = some u) :
    u = mapped virt m (makePTEphys physAddr flags) := by
  cases fuel with
  | zero => cases h
  | succ fuel => exact (Option.some.inj ((mapPageHelper_mapped hid hwindow hv hp).symm.trans h)).symm

end SelfMap

section InPlace
variable {m : Memory} {virt : ℕ} (hid : IdentityMapped m.phys directory) (hv : virt < wordSize)
  (hin : TableInPlace virt m)
include hin

theorem TableInPlace.unread {v : ℕ} (hlt : v < wordSize) (hpage : v / 4096 ≠ virt / 4096)
    (hwalk : walk m.phys directory v ≠ none) : ¬ Consults m.phys directory v (tableWord virt m) :=
  fun hread => hwalk (hin.unshared v hlt hpage hread)

include hid hv

omit hv in
theorem TableInPlace.directory_unread {d : ℕ} (hd : d < 1024) :
    ¬ Consults m.phys directory (element pKernelPageDirectory d) (tableWord virt m) := by
  refine hin.unread (element_directory_lt hd) ?_ (walk_directory_page hid hd)
  rw [directory_page hd]
  exact hin.ne_directory.symm

/-- An entry that is its own directory entry would be shared by the whole table. -/
theorem TableInPlace.entry_apart (hwindow : Window m.phys) (hp : present (dirEntry virt m)) :
    entryIndex directory (virt2Dir virt) ≠ tableWord virt m := by
  intro heq
  have hd := virt2Dir_lt hv
  obtain ⟨hframe, hi⟩ := entryIndex_inj hd (virt2Page_lt virt) heq
  -- the window's slot and the first one are present, and `virt` has at most one of the two indices
  obtain ⟨j, hj, hne, hpj⟩ : ∃ j < 1024, j ≠ virt2Page virt ∧ present (entryAt m.phys directory j) := by
    by_cases h0 : virt2Page virt = 0
    · exact ⟨windowSlot, by decide, by rw [h0]; decide, hwindow.entry⟩
    · exact ⟨0, by decide, Ne.symm h0, hid.first⟩
  obtain ⟨v, hlt, hvd, hvp⟩ := exists_address hd hj
  have hpage : v / 4096 ≠ virt / 4096 := by
    intro hsame
    rw [← hvp, virt2Page_eq, virt2Page_eq, hsame] at hne
    exact hne rfl
  have hdv : dirIndex v = virt2Dir virt := (virt2Dir_dirIndex v).symm.trans hvd
  refine hin.unread hlt hpage ?_ (Or.inl (by rw [hdv]; exact heq))
  have hdir : entryAt m.phys directory (dirIndex v) = dirEntry virt m := by
    rw [hdv]
    rfl
  rw [walk_table (by rwa [hdir]), hdir, ← hframe, ← virt2Page_pageIndex, hvp, if_pos hpj]
  exact Option.some_ne_none _

theorem TableInPlace.unmap (hwindow : Window m.phys) (hwords : ∀ w, m.phys w < wordSize)
    (hp : present (dirEntry virt m)) (x : ℕ) :
    unmapPageHelper pKernelPageDirectory virt (mapped virt m x) =
      some (mapped virt m (makePTEphys 0 pdeFlagRw)) := by
  have hd := virt2Dir_lt hv
  have he : dirEntry virt m < wordSize := hwords _
  have hload := load_directory_unread hid x hd (hin.directory_unread hid hd) (hin.entry_apart hid hv hwindow hp)
  obtain ⟨pde, pte, hwalk, hframe⟩ := hin.identity
  have hread := hin.unread (v := frame (dirEntry virt m) * 4096) (by
    have hf := frame_lt he
    rw [wordSize_eq]
    omega) (by
    rw [Nat.mul_div_cancel _ (by decide)]
    exact hin.ne_table.symm) (by
    rw [hwalk]
    exact Option.some_ne_none _)
  have htable := (walk_update_unread hread x).trans hwalk
  have hstore := store_table (mapped virt m x) virt he htable hframe (makePTEphys 0 pdeFlagRw)
  change (loadWord (mapped virt m x) _).bind _ = _
  have hload' : loadWord (mapped virt m x) (element pKernelPageDirectory (virt2Dir virt)) =
    some (dirEntry virt m) := hload
  rw [hload', Option.bind_some, hstore]
  change some { m with phys := Function.update (Function.update m.phys (tableWord virt m) x) _ _ } = _
  rw [← tableWord, Function.update_idem]
  rfl

end InPlace

section Exact
variable {m : Memory} {virt : ℕ}

theorem written_not_present : ¬ present (makePTEphys 0 pdeFlagRw) := by decide

theorem pointer_translate (m : Phys) {e : ℕ} (he : e < wordSize) :
    translate m directory (entryPointer e virt) =
      (walk m directory (frame e * 4096)).map fun q => frame q.2 * 4096 + 4 * virt2Page virt := by
  rw [TwoLevelPaging.translate, entryPointer_walk m he, entryPointer_offset he]

theorem window_translate (hwindow : Window m.phys) (hv : virt < wordSize) (hp : present (dirEntry virt m)) :
    translate m.phys directory (element (virt2Map virt) (virt2Page virt)) =
      some (frame (dirEntry virt m) * 4096 + 4 * virt2Page virt) := by
  have hi := virt2Page_lt virt
  have hbytes : 4 * entryIndex (frame (dirEntry virt m)) (virt2Page virt) =
      frame (dirEntry virt m) * 4096 + 4 * virt2Page virt := by
    unfold entryIndex
    omega
  rw [element_window hv hi, ← hbytes]
  exact TwoLevelPaging.window_translate hwindow.entry hwindow.entry_frame (virt2Dir_lt hv) hi hp

theorem roundTrip_of_inPlace (hid : IdentityMapped m.phys directory) (hwindow : Window m.phys)
    (hwords : ∀ w, m.phys w < wordSize) (hv : virt < wordSize) (hp : present (dirEntry virt m))
    (hin : TableInPlace virt m) : RoundTrip virt m := by
  have he : dirEntry virt m < wordSize := hwords _
  constructor
  · obtain ⟨pde, pte, hwalk, hframe⟩ := hin.identity
    rw [window_translate hwindow hv hp, pointer_translate _ he, hwalk, Option.map_some, hframe]
  · intro physAddr flags
    refine ⟨1, _, _, mapPageHelper_mapped hid hwindow hv hp, hin.unmap hid hv hwindow hwords hp _, ?_, ?_⟩
    · exact walk_update_cleared (consults_self hp rfl) written_not_present
    · intro v hlt hpage
      by_cases hread : Consults m.phys directory v (tableWord virt m)
      · rw [hin.unshared v hlt hpage hread]
        exact walk_update_cleared hread written_not_present
      · exact walk_update_unread hread _

theorem makePTEphys_self {e : ℕ} (he : e < wordSize) : makePTEphys e e = e := by
  rw [makePTEphys_eq e he]
  omega

/-- A page that rests on the cleared entry cannot be accessed. -/
theorem walk_cleared {address : ℕ} (hread : Consults m.phys directory address (tableWord virt m)) :
    walk (mapped virt m 0).phys directory address = none := walk_update_cleared hread (by decide)

theorem load_cleared {address : ℕ} (hread : Consults m.phys directory address (tableWord virt m)) :
    loadWord (mapped virt m 0) address = none := by
  rw [loadWord, load, TwoLevelPaging.translate, walk_cleared hread]
  rfl

theorem store_cleared {address x : ℕ} (hread : Consults m.phys directory address (tableWord virt m)) :
    storeWord (mapped virt m 0) address x = none := by
  rw [storeWord, store_fault (walk_cleared hread)]
  rfl

theorem inPlace_of_roundTrip (hid : IdentityMapped m.phys directory) (hwindow : Window m.phys)
    (hwords : ∀ w, m.phys w < wordSize) (hv : virt < wordSize) (hp : present (dirEntry virt m))
    (h : RoundTrip virt m) : TableInPlace virt m := by
  have hd := virt2Dir_lt hv
  have he : dirEntry virt m < wordSize := hwords _
  obtain ⟨pde, pte, hwalk, hframe⟩ : ∃ pde pte, walk m.phys directory (frame (dirEntry virt m) * 4096) =
      some (pde, pte) ∧ frame pte = frame (dirEntry virt m) := by
    have hsame := h.same_entry
    rw [window_translate hwindow hv hp, pointer_translate _ he] at hsame
    obtain ⟨⟨pde, pte⟩, hwalk, hword⟩ := Option.map_eq_some_iff.mp hsame
    dsimp only at hword
    exact ⟨pde, pte, hwalk, by omega⟩
  -- unmapping after the entry was cleared in between
  obtain ⟨fuel, u, w, hmap, hunmap, -, -⟩ := h.undone 0 0
  obtain rfl : u = mapped virt m 0 := mapped_of_returns hid hwindow hv hp hmap
  obtain ⟨entry, hload, hstore⟩ := Option.bind_eq_some_iff.mp hunmap
  have hunread : ¬ Consults m.phys directory (element pKernelPageDirectory (virt2Dir virt))
      (tableWord virt m) := by
    intro hread
    rw [load_cleared hread] at hload
    cases hload
  have hdirectory : virt / 4096 ≠ directory :=
    fun heq => hunread (consults_self hp (by rw [directory_page hd, heq]))
  refine ⟨⟨pde, pte, hwalk, hframe⟩, hdirectory, fun htable => ?_, fun v hlt hpage hread => ?_⟩
  · have happart : entryIndex directory (virt2Dir virt) ≠ tableWord virt m :=
      fun heq => hdirectory (htable.trans (entryIndex_inj hd (virt2Page_lt virt) heq).1.symm)
    obtain rfl : dirEntry virt m = entry :=
      Option.some.inj ((load_directory_unread hid 0 hd hunread happart).symm.trans hload)
    rw [store_cleared (consults_self hp (by rw [entryPointer_page he, htable]))] at hstore
    cases hstore
  · -- unmapping after the entry was written back unchanged
    obtain ⟨fuel, u, w, hmap, hunmap, -, hother⟩ :=
      h.undone (m.phys (tableWord virt m)) (m.phys (tableWord virt m))
    have hsame : mapped virt m (m.phys (tableWord virt m)) = m := by
      rw [mapped, Function.update_eq_self]
    rw [mapped_of_returns hid hwindow hv hp hmap, makePTEphys_self (hwords _), hsame, unmapPageHelper,
      hid.load_directory hd, Option.bind_eq_bind, Option.bind_some] at hunmap
    have hstored := (store_table m virt he hwalk hframe _).symm.trans hunmap
    rw [← hother v hlt hpage, ← Option.some.inj hstored]
    exact walk_update_cleared hread written_not_present

theorem unchanged_iff (hid : IdentityMapped m.phys directory) (hv : virt < wordSize) :
    (∀ w, unmapPageHelper pKernelPageDirectory virt m = some w → w.phys = m.phys) ↔
      ∀ x, loadWord m (entryPointer (dirEntry virt m) virt) = some x → x = makePTEphys 0 pdeFlagRw := by
  have hrun : unmapPageHelper pKernelPageDirectory virt m =
      storeWord m (entryPointer (dirEntry virt m) virt) (makePTEphys 0 pdeFlagRw) := by
    rw [unmapPageHelper, hid.load_directory (virt2Dir_lt hv)]
    rfl
  rw [hrun]
  cases hwalk : walk m.phys directory (entryPointer (dirEntry virt m) virt) with
  | none =>
    rw [storeWord, store_fault hwalk, loadWord, load, TwoLevelPaging.translate, hwalk]
    constructor
    · intro _ x hx
      cases hx
    · intro _ w hw
      cases hw
  | some e =>
    obtain ⟨pde, pte⟩ := e
    rw [storeWord, store_of_walk hwalk, loadWord, load_of_walk hwalk]
    constructor
    · intro h x hx
      rw [← Option.some.inj hx, ← h _ rfl]
      exact Function.update_self _ _ _
    · intro h w hw
      rw [← Option.some.inj hw, ← h _ rfl]
      exact Function.update_eq_self _ _

/-- Unmapping undoes mapping exactly when the table's physical address, used as a pointer, reaches the
table before and after the entry changes. Without a table the word at the stale address must not change. -/
theorem unmapUndoesMap_iff (hid : IdentityMapped m.phys directory) (hwindow : Window m.phys)
    (hwords : ∀ w, m.phys w < wordSize) (hv : virt < wordSize) :
    UnmapUndoesMap virt m ↔ Undoable virt m := by
  unfold UnmapUndoesMap Undoable
  split_ifs with hp
  · exact ⟨inPlace_of_roundTrip hid hwindow hwords hv hp, roundTrip_of_inPlace hid hwindow hwords hv hp⟩
  · exact unchanged_iff hid hv

end Exact

/-- The kernel of three pages with a second heap table in the last frame below 16 MB. -/
def highTable : Memory :=
  { smallKernel with phys := Function.update smallKernel.phys (entryIndex directory 833) 0xFFF003 }

theorem highTable_identity : IdentityMapped highTable.phys directory :=
  smallKernel_selfMapped.identity.update_directory (by decide) (by decide) (by decide) (by decide) _

theorem highTable_window : Window highTable.phys := ⟨by decide, by decide⟩

theorem highTable_words (w : ℕ) : highTable.phys w < wordSize := by
  change Function.update smallKernel.phys (entryIndex directory 833) 0xFFF003 w < _
  rw [Function.update_apply]
  split_ifs
  · decide
  · change (if w = 4 * 1024 then _ else if w = 4 * 1024 + 832 then _ else if w = 4 * 1024 + 960 then _
      else if w = 5 * 1024 + 4 then _ else _) < _
    split_ifs <;> decide

theorem unmapUndoesMap_highTable : UnmapUndoesMap 0xD0001000 highTable ↔ Undoable 0xD0001000 highTable :=
  unmapUndoesMap_iff highTable_identity highTable_window highTable_words (by decide)

/-- Page 5 of that table: the first 4 MB do not reach it, and the pointer made of its address faults. -/
theorem unmapUndoesMap_fails : IdentityMapped highTable.phys directory ∧ Window highTable.phys ∧
    (∀ w, highTable.phys w < wordSize) ∧ present (dirEntry 0xD0405000 highTable) ∧
    unmapPageHelper pKernelPageDirectory 0xD0405000 highTable = none ∧
    ¬ UnmapUndoesMap 0xD0405000 highTable := by
  have hload := highTable_identity.load_directory (virt2Dir_lt (v := 0xD0405000) (by decide))
  refine ⟨highTable_identity, highTable_window, highTable_words, by decide, ?_, fun h => ?_⟩
  · rw [unmapPageHelper, hload, Option.bind_eq_bind, Option.bind_some, storeWord, store_fault (by decide)]
    rfl
  · rw [UnmapUndoesMap, if_pos (by decide)] at h
    exact absurd h.same_entry (by decide)

end Ktux.UnmapPage
