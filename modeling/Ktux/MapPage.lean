import Ktux.KernelMemory

set_option autoImplicit false

/-!
# Mapping a page

`map_page_helper` and `create_new_table` with paging on: the directory is read and written through the
identity map of the first 4 MB, a page table through the window that the directory's own entry opens.
-/
namespace Ktux.MapPage
open Words MemoryLayout PageAllocator TwoLevelPaging KernelMemory

/-- Frame of `P_KERNEL_PAGE_DIRECTORY`, which CR3 holds. -/
def directory : ℕ := 4

/-- Directory slot of `V_KERNEL_PAGE_TABLE_1`. -/
def windowSlot : ℕ := 960

def element (p i : ℕ) : ℕ := wadd p (4 * i)

/-- A fault on one of these accesses ends in the endless loop of `page_fault_handler`. -/
def loadWord (m : Memory) (address : ℕ) : Option ℕ := load m.phys directory address

def storeWord (m : Memory) (address x : ℕ) : Option Memory :=
  (store m.phys directory address x).map fun phys => { m with phys := phys }

def allocated (m : Memory) : Memory := { m with pages := (allocPage m.pages).2 }

/-- The directory entry is written with `setPTEaddr`, that is in slot `virt2Page(virt)`. -/
def createNewTable (pageDir virt : ℕ) (m : Memory) : Option (ℕ × Memory) := do
  let pageTableP := (allocPage m.pages).1
  let pageTableV := virt2Map virt
  let m ← storeWord (allocated m) (element pageDir (virt2Page virt))
    (makePTEphys pageTableP mappedFlags)
  return (pageTableV, m)

/-- The recursion has no bound in the source; running out of fuel is not returning. -/
def mapPageHelper (pageDir virt physAddr flags : ℕ) : ℕ → Memory → Option Memory
  | 0, _ => none
  | fuel + 1, m => do
    let pageDirEntry ← loadWord m (element pageDir (virt2Dir virt))
    let pageTable := virt2Map virt
    if pageDirEntry &&& pdeFlagPresent = 0 then
      let (_, m) ← createNewTable pageDir virt m
      let _ ← loadWord m (element pageDir (virt2Dir virt))
      mapPageHelper pageDir virt physAddr flags fuel m
    else storeWord m (element pageTable (virt2Page virt)) (makePTEphys physAddr flags)

/-- `u` is `m` but for the physical words and the page allocator. -/
def OnlyPaging (m u : Memory) : Prop := u = { m with phys := u.phys, pages := u.pages }

/-- The first 4 MB have a table, and it maps page `t` to itself. -/
structure IdentityMapped (m : Phys) (t : ℕ) : Prop where
  first : present (entryAt m directory 0)
  entry : present (entryAt m (frame (entryAt m directory 0)) t)
  entry_frame : frame (entryAt m (frame (entryAt m directory 0)) t) = t

/-- The kernel directory after `init_heap`: its own entry, the identity map of its page, and page tables
that are apart from it and from each other. -/
structure SelfMapped (m : Phys) : Prop where
  identity : IdentityMapped m directory
  self : entryAt m directory windowSlot = makePTEphys pKernelPageDirectory mappedFlags
  tables : ∀ d < 1024, d ≠ windowSlot → present (entryAt m directory d) →
    frame (entryAt m directory d) ≠ directory
  apart : ∀ d < 1024, ∀ e < 1024, d ≠ windowSlot → e ≠ windowSlot → present (entryAt m directory d) →
    present (entryAt m directory e) → frame (entryAt m directory d) = frame (entryAt m directory e) →
    d = e

/-- `alloc_page` supplies the frame `f`, which no directory entry uses. -/
structure Supplies (m : Memory) (f : ℕ) : Prop where
  page : (allocPage m.pages).1 = f * 4096
  nonzero : f ≠ 0
  word : f * 4096 < wordSize
  unused : ∀ d < 1024, present (entryAt m.phys directory d) → frame (entryAt m.phys directory d) ≠ f

/-- What one call of `map_page_helper` is for: the page is mapped, and no other page outside the window
changes. -/
def MapsExactly (virt physAddr flags : ℕ) (m : Memory) : Prop :=
  ∃ fuel u, mapPageHelper pKernelPageDirectory virt physAddr flags fuel m = some u ∧
    (∃ pde pte, walk u.phys directory virt = some (pde, pte) ∧ frame pte * 4096 = physAddr ∧
      pte % 4096 = flags % 4096) ∧
    ∀ v < wordSize, virt2Dir v ≠ windowSlot → v / 4096 ≠ virt / 4096 →
      walk u.phys directory v = walk m.phys directory v

/-- The frame that a new page table would get has no entry that is already present but for the entry
`i`. -/
def CleanBut (m : Phys) (f i : ℕ) : Prop := ∀ j < 1024, j ≠ i → ¬ present (entryAt m f j)

theorem virt2Dir_dirIndex (v : ℕ) : virt2Dir v = dirIndex v := virt2Dir_eq v

theorem virt2Page_pageIndex (v : ℕ) : virt2Page v = pageIndex v := virt2Page_eq v

theorem present_iff (e : ℕ) : present e ↔ ¬ e &&& pdeFlagPresent = 0 := by
  rw [pdeFlagPresent, and_one, present]
  omega

theorem element_identity {t i : ℕ} (ht : t < 1024) (hi : i < 1024) :
    element (t * 4096) i = t * 4096 + 4 * i := by
  rw [element, wadd_of_lt]
  rw [wordSize_eq]
  omega

theorem element_window {virt i : ℕ} (hv : virt < wordSize) (hi : i < 1024) :
    element (virt2Map virt) i = windowAddress windowSlot (virt2Dir virt) i := by
  have hd := virt2Dir_lt hv
  rw [virt2Map_eq hv, element, vKernelPageTable1, wadd_of_lt, windowAddress, windowSlot]
  · omega
  · rw [wordSize_eq]
    omega

section Frame
variable {m u w : Memory}

theorem OnlyPaging.trans (h : OnlyPaging m u) (h' : OnlyPaging u w) : OnlyPaging m w := by
  unfold OnlyPaging at *
  rw [h', h]

theorem storeWord_onlyPaging {address x : ℕ} (h : storeWord m address x = some u) : OnlyPaging m u := by
  obtain ⟨phys, _, rfl⟩ := Option.map_eq_some_iff.mp h
  rfl

theorem allocated_onlyPaging : OnlyPaging m (allocated m) := rfl

theorem mapPageHelper_onlyPaging {pageDir virt physAddr flags fuel : ℕ}
    (h : mapPageHelper pageDir virt physAddr flags fuel m = some u) : OnlyPaging m u := by
  induction fuel generalizing m with
  | zero => cases h
  | succ fuel ih =>
    obtain ⟨pageDirEntry, _, h⟩ := Option.bind_eq_some_iff.mp h
    dsimp only at h
    split_ifs at h
    · obtain ⟨⟨pageTableV, v⟩, hnew, h⟩ := Option.bind_eq_some_iff.mp h
      obtain ⟨w, hstore, hw⟩ := Option.bind_eq_some_iff.mp hnew
      obtain ⟨_, rfl⟩ := Prod.mk.inj (Option.some.inj hw)
      obtain ⟨_, _, h⟩ := Option.bind_eq_some_iff.mp h
      exact (allocated_onlyPaging.trans (storeWord_onlyPaging hstore)).trans (ih h)
    · exact storeWord_onlyPaging h

end Frame

section Directory
variable {m : Memory}

theorem IdentityMapped.walk_page {t i : ℕ} (h : IdentityMapped m.phys t) (ht : t < 1024)
    (hi : i < 1024) :
    walk m.phys directory (element (t * 4096) i) = some (entryAt m.phys directory 0,
      entryAt m.phys (frame (entryAt m.phys directory 0)) t) := by
  have hdir : dirIndex (t * 4096 + 4 * i) = 0 := by
    unfold dirIndex
    omega
  have hpage : pageIndex (t * 4096 + 4 * i) = t := by
    unfold pageIndex
    omega
  have hwalk := walk_of_present (m := m.phys) (D := directory) (v := t * 4096 + 4 * i)
  rw [hdir, hpage] at hwalk
  rw [element_identity ht hi]
  exact hwalk h.first h.entry

theorem identity_index {t i pte : ℕ} (ht : t < 1024) (hi : i < 1024) (hf : frame pte = t) :
    frame pte * 1024 + element (t * 4096) i % 4096 / 4 = entryIndex t i := by
  rw [element_identity ht hi, hf, entryIndex]
  omega

theorem IdentityMapped.load {t i : ℕ} (h : IdentityMapped m.phys t) (ht : t < 1024) (hi : i < 1024) :
    loadWord m (element (t * 4096) i) = some (entryAt m.phys t i) := by
  rw [loadWord, load_of_walk (h.walk_page ht hi), identity_index ht hi h.entry_frame]
  rfl

theorem IdentityMapped.store {t i : ℕ} (h : IdentityMapped m.phys t) (ht : t < 1024) (hi : i < 1024)
    (x : ℕ) : storeWord m (element (t * 4096) i) x =
      some { m with phys := Function.update m.phys (entryIndex t i) x } := by
  rw [storeWord, store_of_walk (h.walk_page ht hi), identity_index ht hi h.entry_frame]
  rfl

theorem IdentityMapped.load_directory {i : ℕ} (h : IdentityMapped m.phys directory) (hi : i < 1024) :
    loadWord m (element pKernelPageDirectory i) = some (entryAt m.phys directory i) :=
  h.load (by decide) hi

theorem IdentityMapped.store_directory {i : ℕ} (h : IdentityMapped m.phys directory) (hi : i < 1024)
    (x : ℕ) : storeWord m (element pKernelPageDirectory i) x =
      some { m with phys := Function.update m.phys (entryIndex directory i) x } :=
  h.store (by decide) hi x

theorem IdentityMapped.congr {m m' : Phys} {t : ℕ} (h : IdentityMapped m t)
    (hfirst : entryAt m' directory 0 = entryAt m directory 0)
    (hentry : entryAt m' (frame (entryAt m directory 0)) t =
      entryAt m (frame (entryAt m directory 0)) t) : IdentityMapped m' t := by
  refine ⟨?_, ?_, ?_⟩
  · rw [hfirst]
    exact h.first
  · rw [hfirst, hentry]
    exact h.entry
  · rw [hfirst, hentry]
    exact h.entry_frame

theorem IdentityMapped.update_directory {m : Phys} {t : ℕ} (h : IdentityMapped m t) (ht : t < 1024)
    (hframe : frame (entryAt m directory 0) ≠ directory) {i : ℕ} (hi : i < 1024) (hne : i ≠ 0) (x : ℕ) :
    IdentityMapped (Function.update m (entryIndex directory i) x) t :=
  h.congr (entryAt_update_index m hi (by decide) hne.symm) (entryAt_update_frame m hi ht hframe)

theorem SelfMapped.table_written {m m' : Phys} (h : SelfMapped m)
    (hdir : ∀ d < 1024, entryAt m' directory d = entryAt m directory d)
    (hfirst : entryAt m' (frame (entryAt m directory 0)) directory =
      entryAt m (frame (entryAt m directory 0)) directory) : SelfMapped m' := by
  refine ⟨h.identity.congr (hdir 0 (by decide)) hfirst, ?_, ?_, ?_⟩
  · rw [hdir windowSlot (by decide)]
    exact h.self
  · intro d hd
    rw [hdir d hd]
    exact h.tables d hd
  · intro d hd e he
    rw [hdir d hd, hdir e he]
    exact h.apart d hd e he

structure Window (m : Phys) : Prop where
  entry : present (entryAt m directory windowSlot)
  entry_frame : frame (entryAt m directory windowSlot) = directory

theorem SelfMapped.window {m : Phys} (h : SelfMapped m) : Window m := by
  constructor
  · rw [h.self]
    decide
  · rw [h.self]
    decide

theorem Window.store {virt i : ℕ} (h : Window m.phys) (hv : virt < wordSize) (hi : i < 1024)
    (hp : present (entryAt m.phys directory (virt2Dir virt))) (x : ℕ) :
    storeWord m (element (virt2Map virt) i) x = some { m with
      phys := Function.update m.phys
        (entryIndex (frame (entryAt m.phys directory (virt2Dir virt))) i) x } := by
  rw [storeWord, element_window hv hi, window_store h.entry h.entry_frame (virt2Dir_lt hv) hi hp]
  rfl

theorem Window.fault {virt i : ℕ} (h : Window m.phys) (hv : virt < wordSize) (hi : i < 1024)
    (hp : ¬ present (entryAt m.phys directory (virt2Dir virt))) (x : ℕ) :
    storeWord m (element (virt2Map virt) i) x = none := by
  rw [storeWord, element_window hv hi, window_fault h.entry h.entry_frame (virt2Dir_lt hv) hi hp]
  rfl

end Directory

section Calls
variable {m : Memory} {virt : ℕ} {physAddr flags : ℕ}

def tableInstalled (virt : ℕ) (m : Memory) : Memory :=
  { allocated m with
    phys := Function.update m.phys (entryIndex directory (virt2Page virt))
      (makePTEphys (allocPage m.pages).1 mappedFlags) }

theorem createNewTable_eq (h : IdentityMapped m.phys directory) :
    createNewTable pKernelPageDirectory virt m = some (virt2Map virt, tableInstalled virt m) := by
  have hid : IdentityMapped (allocated m).phys directory := h
  simp only [createNewTable, hid.store_directory (virt2Page_lt virt), Option.bind_eq_bind, Option.bind_some,
    Option.pure_def]
  rfl

theorem mapPageHelper_present (h : IdentityMapped m.phys directory) (hw : Window m.phys) (hv : virt < wordSize)
    (hp : present (entryAt m.phys directory (virt2Dir virt))) (fuel : ℕ) :
    mapPageHelper pKernelPageDirectory virt physAddr flags (fuel + 1) m = some { m with
      phys := Function.update m.phys
        (entryIndex (frame (entryAt m.phys directory (virt2Dir virt))) (virt2Page virt))
        (makePTEphys physAddr flags) } := by
  simp only [mapPageHelper, h.load_directory (virt2Dir_lt hv), Option.bind_eq_bind, Option.bind_some,
    if_neg ((present_iff _).mp hp)]
  exact hw.store hv (virt2Page_lt virt) hp _

theorem mapPageHelper_missing (h : IdentityMapped m.phys directory) (hv : virt < wordSize)
    (hp : ¬ present (entryAt m.phys directory (virt2Dir virt))) (fuel : ℕ) :
    mapPageHelper pKernelPageDirectory virt physAddr flags (fuel + 1) m =
      (loadWord (tableInstalled virt m) (element pKernelPageDirectory (virt2Dir virt))).bind fun _ =>
        mapPageHelper pKernelPageDirectory virt physAddr flags fuel (tableInstalled virt m) := by
  have hmissing : entryAt m.phys directory (virt2Dir virt) &&& pdeFlagPresent = 0 := by
    by_contra hne
    exact hp ((present_iff _).mpr hne)
  simp only [mapPageHelper, h.load_directory (virt2Dir_lt hv), Option.bind_eq_bind, Option.bind_some,
    if_pos hmissing, createNewTable_eq h]

/-- `create_new_table` fills the slot of another address: the recursion finds its own slot empty again. -/
theorem mapPageHelper_recurses (hv : virt < wordSize) (hne : virt2Page virt ≠ virt2Dir virt)
    (h0 : virt2Page virt ≠ 0) (h : IdentityMapped m.phys directory)
    (hframe : frame (entryAt m.phys directory 0) ≠ directory)
    (hp : ¬ present (entryAt m.phys directory (virt2Dir virt))) (fuel : ℕ) :
    mapPageHelper pKernelPageDirectory virt physAddr flags fuel m = none := by
  induction fuel generalizing m with
  | zero => rfl
  | succ fuel ih =>
    have hslot := virt2Page_lt virt
    have hfirst : entryAt (tableInstalled virt m).phys directory 0 = entryAt m.phys directory 0 :=
      entryAt_update_index m.phys hslot (by decide) h0.symm
    have hentry : entryAt (tableInstalled virt m).phys directory (virt2Dir virt) =
        entryAt m.phys directory (virt2Dir virt) :=
      entryAt_update_index m.phys hslot (virt2Dir_lt hv) hne.symm
    have hid : IdentityMapped (tableInstalled virt m).phys directory :=
      h.update_directory (by decide) hframe hslot h0 _
    rw [mapPageHelper_missing h hv hp, hid.load_directory (virt2Dir_lt hv), Option.bind_some]
    exact ih hid (by rwa [hfirst]) (by rwa [hentry])

theorem storeWord_first {x : ℕ} {u : Memory}
    (h : storeWord m (element pKernelPageDirectory 0) x = some u) :
    ∃ g, u = { m with phys := Function.update m.phys (entryIndex g 0) x } := by
  obtain ⟨phys, hstore, rfl⟩ := Option.map_eq_some_iff.mp h
  cases hwalk : walk m.phys directory (element pKernelPageDirectory 0) with
  | none => rw [store_fault hwalk] at hstore; cases hstore
  | some e =>
    obtain ⟨pde, pte⟩ := e
    rw [store_of_walk hwalk] at hstore
    exact ⟨frame pte, by rw [← Option.some.inj hstore]; rfl⟩

/-- For page 0 of a table the first call replaces the directory's entry 0. Whatever the directory then
reads as, only first words of pages are written, so the window shows no table and the store faults. -/
theorem mapPageHelper_faults (hv : virt < wordSize) (h0 : virt2Page virt = 0)
    (hd : virt2Dir virt ≠ 0) (hw : Window m.phys)
    (hp : ¬ present (entryAt m.phys directory (virt2Dir virt))) (fuel : ℕ) :
    mapPageHelper pKernelPageDirectory virt physAddr flags fuel m = none := by
  induction fuel generalizing m with
  | zero => rfl
  | succ fuel ih =>
    rw [mapPageHelper]
    cases hload : loadWord m (element pKernelPageDirectory (virt2Dir virt)) with
    | none => rfl
    | some entry =>
      simp only [Option.bind_eq_bind, Option.bind_some]
      split_ifs with hmissing
      · cases hstore : storeWord (allocated m) (element pKernelPageDirectory 0)
            (makePTEphys (allocPage m.pages).1 mappedFlags) with
        | none =>
          rw [createNewTable, h0, hstore]
          rfl
        | some u =>
          obtain ⟨g, rfl⟩ := storeWord_first hstore
          have hkeep : ∀ d < 1024, d ≠ 0 → entryAt (Function.update m.phys (entryIndex g 0)
              (makePTEphys (allocPage m.pages).1 mappedFlags)) directory d = entryAt m.phys directory d :=
            fun d hlt hne => entryAt_update_index m.phys (by decide) hlt hne
          rw [createNewTable, h0, hstore]
          simp only [Option.bind_eq_bind, Option.bind_some, Option.pure_def]
          cases hload' : loadWord _ (element pKernelPageDirectory (virt2Dir virt)) with
          | none => rfl
          | some _ =>
            refine ih ⟨?_, ?_⟩ ?_
            · exact (hkeep windowSlot (by decide) (by decide)).symm ▸ hw.entry
            · exact (hkeep windowSlot (by decide) (by decide)).symm ▸ hw.entry_frame
            · exact (hkeep _ (virt2Dir_lt hv) hd).symm ▸ hp
      · exact hw.fault hv (virt2Page_lt virt) hp _

theorem never_returns (h : SelfMapped m.phys) (hv : virt < wordSize)
    (hp : ¬ present (entryAt m.phys directory (virt2Dir virt)))
    (hpd : virt2Page virt ≠ virt2Dir virt) (fuel : ℕ) :
    mapPageHelper pKernelPageDirectory virt physAddr flags fuel m = none := by
  by_cases h0 : virt2Page virt = 0
  · have hd0 : virt2Dir virt ≠ 0 := fun hd => hp (hd ▸ h.identity.first)
    exact mapPageHelper_faults hv h0 hd0 h.window hp fuel
  · have hframe := h.tables 0 (by decide) (by decide) h.identity.first
    exact mapPageHelper_recurses hv hpd h0 h.identity hframe hp fuel

end Calls

/-- The arguments of a call: an address outside the window, a physical page, flags with the present bit. -/
structure MapArguments (virt physAddr flags : ℕ) : Prop where
  virt_word : virt < wordSize
  outside : virt2Dir virt ≠ windowSlot
  page_word : physAddr < wordSize
  page_aligned : physAddr % 4096 = 0
  flags_present : flags % 2 = 1

section Exact
variable {m : Memory} {virt physAddr flags f : ℕ}

theorem MapArguments.entry_eq (h : MapArguments virt physAddr flags) :
    makePTEphys physAddr flags = physAddr + flags % 4096 := by
  have haligned := h.page_aligned
  rw [makePTEphys_eq flags h.page_word]
  omega

theorem MapArguments.entry_present (h : MapArguments virt physAddr flags) :
    present (makePTEphys physAddr flags) := by
  have haligned := h.page_aligned
  have hflags := h.flags_present
  rw [h.entry_eq, present]
  omega

theorem MapArguments.entry_yields (h : MapArguments virt physAddr flags) :
    frame (makePTEphys physAddr flags) * 4096 = physAddr ∧
      makePTEphys physAddr flags % 4096 = flags % 4096 := by
  have haligned := h.page_aligned
  rw [h.entry_eq, frame]
  omega

def entryWritten (m : Phys) (virt x : ℕ) : Phys :=
  Function.update m (entryIndex (frame (entryAt m directory (virt2Dir virt))) (virt2Page virt)) x

theorem entryWritten_walk {m : Phys} (ha : MapArguments virt physAddr flags)
    (hp : present (entryAt m directory (virt2Dir virt)))
    (ht : frame (entryAt m directory (virt2Dir virt)) ≠ directory) :
    walk (entryWritten m virt (makePTEphys physAddr flags)) directory virt =
      some (entryAt m directory (virt2Dir virt), makePTEphys physAddr flags) := by
  have hd := virt2Dir_lt ha.virt_word
  rw [entryWritten, virt2Page_pageIndex]
  rw [virt2Dir_dirIndex] at *
  exact walk_update_entry hd hp ht ha.entry_present

theorem entryWritten_other {m : Phys} {v x : ℕ} (hv : v < wordSize)
    (ht : frame (entryAt m directory (virt2Dir virt)) ≠ directory)
    (hother : present (entryAt m directory (virt2Dir v)) →
      frame (entryAt m directory (virt2Dir v)) = frame (entryAt m directory (virt2Dir virt)) →
      virt2Page v ≠ virt2Page virt) :
    walk (entryWritten m virt x) directory v = walk m directory v := by
  have hd := virt2Dir_lt hv
  rw [virt2Dir_dirIndex v] at hd
  rw [virt2Dir_dirIndex v, virt2Page_pageIndex v] at hother
  exact walk_update_table (virt2Page_lt virt) hd ht hother

theorem page_ne_of_dir {v : ℕ} (hpage : v / 4096 ≠ virt / 4096) (hd : virt2Dir v = virt2Dir virt) :
    virt2Page v ≠ virt2Page virt := by
  intro hp
  rw [virt2Dir_dirIndex, virt2Dir_dirIndex] at hd
  rw [virt2Page_pageIndex, virt2Page_pageIndex] at hp
  exact hpage (same_page hd hp)

theorem mapsExactly_of_present (h : SelfMapped m.phys) (ha : MapArguments virt physAddr flags)
    (hp : present (entryAt m.phys directory (virt2Dir virt))) :
    MapsExactly virt physAddr flags m := by
  have hd := virt2Dir_lt ha.virt_word
  have ht := h.tables _ hd ha.outside hp
  refine ⟨1, _, mapPageHelper_present h.identity h.window ha.virt_word hp 0,
    ⟨_, _, entryWritten_walk ha hp ht, ha.entry_yields⟩, fun v hv hout hpage => ?_⟩
  refine entryWritten_other hv ht fun hpv hframe => ?_
  exact page_ne_of_dir hpage
    (h.apart _ (virt2Dir_lt hv) _ hd hout ha.outside hpv hp hframe)

theorem Supplies.entry_eq (hf : Supplies m f) :
    makePTEphys (allocPage m.pages).1 mappedFlags = f * 4096 + 3 := by
  have hword := hf.word
  rw [hf.page, makePTEphys_eq mappedFlags hword, Nat.mul_div_cancel f (by decide)]
  rfl

theorem Supplies.entry_present : present (f * 4096 + 3) := by
  unfold present
  omega

theorem Supplies.entry_frame : frame (f * 4096 + 3) = f := by
  unfold frame
  omega

/-- Where the page index of `virt` is its directory index, `create_new_table` fills the right slot. -/
theorem tableInstalled_coincides (hf : Supplies m f) (hpd : virt2Page virt = virt2Dir virt) :
    (tableInstalled virt m).phys =
      Function.update m.phys (entryIndex directory (virt2Dir virt)) (f * 4096 + 3) := by
  rw [tableInstalled, hf.entry_eq, hpd]

theorem installed_walk_other {v : ℕ} (h : SelfMapped m.phys) (hv : v < wordSize)
    (hd : virt2Dir virt < 1024) (hout : virt2Dir v ≠ windowSlot) (hne : virt2Dir v ≠ virt2Dir virt) (x : ℕ) :
    walk (Function.update m.phys (entryIndex directory (virt2Dir virt)) x) directory v =
      walk m.phys directory v := by
  have hdv := virt2Dir_lt hv
  have hkeep : entryAt (Function.update m.phys (entryIndex directory (virt2Dir virt)) x) directory
      (virt2Dir v) = entryAt m.phys directory (virt2Dir v) := entryAt_update_index m.phys hd hdv hne
  rw [virt2Dir_dirIndex v] at hkeep hdv hout
  refine walk_congr hkeep fun hp => ?_
  exact entryAt_update_frame m.phys hd (pageIndex_lt v) (h.tables _ hdv hout hp)

theorem mapPageHelper_coincides (h : SelfMapped m.phys) (hf : Supplies m f)
    (ha : MapArguments virt physAddr flags)
    (hp : ¬ present (entryAt m.phys directory (virt2Dir virt)))
    (hpd : virt2Page virt = virt2Dir virt) (fuel : ℕ) :
    mapPageHelper pKernelPageDirectory virt physAddr flags (fuel + 2) m = some
      { tableInstalled virt m with
        phys := entryWritten (tableInstalled virt m).phys virt (makePTEphys physAddr flags) } := by
  have hd := virt2Dir_lt ha.virt_word
  have hd0 : virt2Dir virt ≠ 0 := fun h0 => hp (h0 ▸ h.identity.first)
  have hphys := tableInstalled_coincides hf hpd
  have hid : IdentityMapped (tableInstalled virt m).phys directory := by
    rw [hphys]
    exact h.identity.update_directory (by decide) (h.tables 0 (by decide) (by decide) h.identity.first) hd hd0 _
  have hself : entryAt (tableInstalled virt m).phys directory windowSlot =
      entryAt m.phys directory windowSlot := by
    rw [hphys]
    exact entryAt_update_index m.phys hd (by decide) ha.outside.symm
  have hwindow : Window (tableInstalled virt m).phys :=
    ⟨hself ▸ h.window.entry, hself ▸ h.window.entry_frame⟩
  have hentry : entryAt (tableInstalled virt m).phys directory (virt2Dir virt) = f * 4096 + 3 := by
    rw [hphys, entryAt_update_same]
  rw [mapPageHelper_missing h.identity ha.virt_word hp, hid.load_directory hd, Option.bind_some,
    mapPageHelper_present hid hwindow ha.virt_word (by rw [hentry]; exact Supplies.entry_present)]
  rfl

theorem tableInstalled_entry (hf : Supplies m f) (hpd : virt2Page virt = virt2Dir virt) :
    entryAt (tableInstalled virt m).phys directory (virt2Dir virt) = f * 4096 + 3 := by
  rw [tableInstalled_coincides hf hpd, entryAt_update_same]

theorem Supplies.ne_directory (hf : Supplies m f) (h : SelfMapped m.phys) : f ≠ directory := by
  rw [← h.window.entry_frame]
  exact (hf.unused windowSlot (by decide) h.window.entry).symm

theorem coincident_neighbour (h : SelfMapped m.phys) (hf : Supplies m f)
    (ha : MapArguments virt physAddr flags)
    (hp : ¬ present (entryAt m.phys directory (virt2Dir virt)))
    (hpd : virt2Page virt = virt2Dir virt) {v : ℕ} (hv : v < wordSize)
    (hdv : virt2Dir v = virt2Dir virt) (hpage : v / 4096 ≠ virt / 4096) :
    walk (entryWritten (tableInstalled virt m).phys virt (makePTEphys physAddr flags)) directory v =
        walk m.phys directory v ↔ ¬ present (entryAt m.phys f (virt2Page v)) := by
  have hd := virt2Dir_lt ha.virt_word
  have hphys := tableInstalled_coincides hf hpd
  have hentry := tableInstalled_entry hf hpd
  have hfd := hf.ne_directory h
  have hbefore : walk m.phys directory v = none := walk_missing (by rwa [← virt2Dir_dirIndex, hdv])
  have hsame : entryAt (tableInstalled virt m).phys f (virt2Page v) =
      entryAt m.phys f (virt2Page v) := by
    rw [hphys]
    exact entryAt_update_frame m.phys hd (virt2Page_lt v) hfd
  have hdir : entryAt (tableInstalled virt m).phys directory (dirIndex v) = f * 4096 + 3 := by
    rw [← virt2Dir_dirIndex, hdv, hentry]
  rw [entryWritten_other hv (by rw [hentry, Supplies.entry_frame]; exact hfd)
    (fun _ _ => page_ne_of_dir hpage hdv), hbefore, walk_table (by rw [hdir]; exact Supplies.entry_present),
    hdir, Supplies.entry_frame, ← virt2Page_pageIndex, hsame]
  split_ifs with hpresent
  · simp [hpresent]
  · simp [hpresent]

theorem coincident_other (h : SelfMapped m.phys) (hf : Supplies m f) (ha : MapArguments virt physAddr flags)
    (hpd : virt2Page virt = virt2Dir virt) {v : ℕ} (hv : v < wordSize) (hout : virt2Dir v ≠ windowSlot)
    (hdv : virt2Dir v ≠ virt2Dir virt) :
    walk (entryWritten (tableInstalled virt m).phys virt (makePTEphys physAddr flags)) directory v =
      walk m.phys directory v := by
  have hd := virt2Dir_lt ha.virt_word
  have hphys := tableInstalled_coincides hf hpd
  have hentry := tableInstalled_entry hf hpd
  have hkeep : entryAt (tableInstalled virt m).phys directory (virt2Dir v) =
      entryAt m.phys directory (virt2Dir v) := by
    rw [hphys]
    exact entryAt_update_index m.phys hd (virt2Dir_lt hv) hdv
  rw [entryWritten_other hv (by rw [hentry, Supplies.entry_frame]; exact hf.ne_directory h) ?_, hphys]
  · exact installed_walk_other h hv hd hout hdv _
  · intro hpv hframe
    rw [hentry, Supplies.entry_frame, hkeep] at hframe
    rw [hkeep] at hpv
    exact absurd hframe (hf.unused _ (virt2Dir_lt hv) hpv)

/-- With any fuel with which it returns. -/
theorem mapPageHelper_coincides_phys (h : SelfMapped m.phys) (hf : Supplies m f)
    (ha : MapArguments virt physAddr flags) (hp : ¬ present (entryAt m.phys directory (virt2Dir virt)))
    (hpd : virt2Page virt = virt2Dir virt) {fuel : ℕ} {u : Memory}
    (hu : mapPageHelper pKernelPageDirectory virt physAddr flags fuel m = some u) :
    u.phys = entryWritten (tableInstalled virt m).phys virt (makePTEphys physAddr flags) := by
  cases fuel with
  | zero => cases hu
  | succ fuel =>
    cases fuel with
    | zero =>
      rw [mapPageHelper_missing h.identity ha.virt_word hp] at hu
      simp [mapPageHelper] at hu
    | succ fuel =>
      rw [mapPageHelper_coincides h hf ha hp hpd] at hu
      rw [← Option.some.inj hu]

theorem mapsExactly_coincides_iff (h : SelfMapped m.phys) (hf : Supplies m f)
    (ha : MapArguments virt physAddr flags)
    (hp : ¬ present (entryAt m.phys directory (virt2Dir virt)))
    (hpd : virt2Page virt = virt2Dir virt) :
    MapsExactly virt physAddr flags m ↔ CleanBut m.phys f (virt2Page virt) := by
  have hd := virt2Dir_lt ha.virt_word
  have hentry := tableInstalled_entry hf hpd
  constructor
  · rintro ⟨fuel, u, hu, _, hother⟩ j hj hne
    obtain ⟨v, hv, hdv, hpv⟩ := exists_address hd hj
    have hpage : v / 4096 ≠ virt / 4096 := by
      intro heq
      have hindex := virt2Page_eq v
      rw [heq, ← virt2Page_eq virt, hpv] at hindex
      exact hne hindex
    have hwalk := hother v hv (by rw [hdv]; exact ha.outside) hpage
    rw [mapPageHelper_coincides_phys h hf ha hp hpd hu, coincident_neighbour h hf ha hp hpd hv hdv hpage,
      hpv] at hwalk
    exact hwalk
  · intro hclean
    have hrun := mapPageHelper_coincides h hf ha hp hpd 0
    refine ⟨2, _, hrun, ⟨_, _, entryWritten_walk ha ?_ ?_, ha.entry_yields⟩, fun v hv hout hpage => ?_⟩
    · rw [hentry]
      exact Supplies.entry_present
    · rw [hentry, Supplies.entry_frame]
      exact hf.ne_directory h
    · by_cases hdv : virt2Dir v = virt2Dir virt
      · exact (coincident_neighbour h hf ha hp hpd hv hdv hpage).mpr
          (hclean _ (virt2Page_lt v) (page_ne_of_dir hpage hdv))
      · exact coincident_other h hf ha hpd hv hout hdv

/-- `map_page_helper` maps exactly the page asked for when its table is there. When the table is missing it
returns only if the page index of `virt` happens to be its directory index, and then it is right only if
the frame of the new table is clean. -/
theorem mapsExactly_iff (h : SelfMapped m.phys) (hf : Supplies m f)
    (ha : MapArguments virt physAddr flags) :
    MapsExactly virt physAddr flags m ↔ present (entryAt m.phys directory (virt2Dir virt)) ∨
      virt2Page virt = virt2Dir virt ∧ CleanBut m.phys f (virt2Page virt) := by
  by_cases hp : present (entryAt m.phys directory (virt2Dir virt))
  · exact ⟨fun _ => Or.inl hp, fun _ => mapsExactly_of_present h ha hp⟩
  · by_cases hpd : virt2Page virt = virt2Dir virt
    · rw [mapsExactly_coincides_iff h hf ha hp hpd]
      simp [hp, hpd]
    · have hnever : ∀ fuel, mapPageHelper pKernelPageDirectory virt physAddr flags fuel m = none :=
        never_returns h ha.virt_word hp hpd
      constructor
      · rintro ⟨fuel, u, hu, _⟩
        rw [hnever fuel] at hu
        cases hu
      · rintro (hp' | ⟨hpd', _⟩)
        · exact absurd hp' hp
        · exact absurd hpd' hpd

end Exact

/-- A directory with the first 4 MB, the heap's table and its own entry, and three free pages. -/
def smallKernel : Memory :=
  { staticMemory
      (fun w => if w = 4 * 1024 then 0x5003 else if w = 4 * 1024 + 832 then 0x7003
        else if w = 4 * 1024 + 960 then 0x4003 else if w = 5 * 1024 + 4 then 0x4003 else 0)
      (fun _ => 0) with
    pages := threePages }

theorem smallKernel_directory {d : ℕ} (hd : d < 1024) : entryAt smallKernel.phys directory d =
    if d = 0 then 0x5003 else if d = 832 then 0x7003 else if d = windowSlot then 0x4003 else 0 := by
  change (if 4 * 1024 + d = 4 * 1024 then _ else if 4 * 1024 + d = 4 * 1024 + 832 then _
    else if 4 * 1024 + d = 4 * 1024 + 960 then _ else if 4 * 1024 + d = 5 * 1024 + 4 then _ else _) = _
  simp only [Nat.add_eq_left, Nat.add_left_cancel_iff, windowSlot]
  rw [if_neg (by omega : ¬ 4 * 1024 + d = 5 * 1024 + 4)]
  rfl

theorem smallKernel_selfMapped : SelfMapped smallKernel.phys := by
  refine ⟨⟨by decide, by decide, by decide⟩, by decide, ?_, ?_⟩
  · intro d hd hw hp
    rw [smallKernel_directory hd, if_neg hw] at hp ⊢
    split_ifs at hp ⊢
    all_goals revert hp
    all_goals decide
  · intro d hd e he hdw hew hpd hpe hframe
    rw [smallKernel_directory hd, if_neg hdw] at hpd hframe
    rw [smallKernel_directory he, if_neg hew] at hpe hframe
    split_ifs at hpd hpe hframe
    all_goals first
      | exact absurd hpd (by decide)
      | exact absurd hpe (by decide)
      | exact absurd hframe (by decide)
      | omega

theorem smallKernel_supplies : Supplies smallKernel 0xB := by
  refine ⟨by decide, by decide, by decide, fun d hd hp => ?_⟩
  rw [smallKernel_directory hd] at hp ⊢
  split_ifs at hp ⊢
  all_goals revert hp
  all_goals decide

theorem mapsExactly_smallKernel : MapsExactly 0x6000 0x9000 3 smallKernel ↔
    present (entryAt smallKernel.phys directory (virt2Dir 0x6000)) ∨
      virt2Page 0x6000 = virt2Dir 0x6000 ∧ CleanBut smallKernel.phys 0xB (virt2Page 0x6000) :=
  mapsExactly_iff smallKernel_selfMapped smallKernel_supplies
    ⟨by decide, by decide, by decide, by decide, by decide⟩

/-- Page 5 of the heap's second table: the new table goes into directory slot 5, and slot 833 stays
empty. -/
theorem mapsExactly_fails : SelfMapped smallKernel.phys ∧ Supplies smallKernel 0xB ∧
    MapArguments 0xD0405000 0x9000 3 ∧ ¬ MapsExactly 0xD0405000 0x9000 3 smallKernel := by
  refine ⟨smallKernel_selfMapped, smallKernel_supplies,
    ⟨by decide, by decide, by decide, by decide, by decide⟩, ?_⟩
  rintro ⟨fuel, u, hu, _⟩
  rw [never_returns smallKernel_selfMapped (by decide) (by decide) (by decide) fuel] at hu
  cases hu

end Ktux.MapPage
