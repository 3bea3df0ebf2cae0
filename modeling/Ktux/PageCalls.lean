import Ktux.HeapPaging
import Ktux.UnmapPage

set_option autoImplicit false

/-!
# Runs of the mapping functions

`map_kpage`, `map_page_range` and `unmap_kpage` called in any order, on pages that have a table. What the
directory maps after a run is what the calls say, page by page.
-/
namespace Ktux.PageCalls
open Words MemoryLayout Loops TwoLevelPaging KernelMemory FreePageList MapPage UnmapPage
open Heap HeapPaging HeapSpace

section Source
variable (pageDir virt physAddr flags fuel : ℕ)

structure RangeLoop where
  currentPage : ℕ
  memory : Memory

def rangePass (s : RangeLoop) : Option RangeLoop := do
  let offset := s.currentPage <<< 12
  let m ← mapPageHelper pageDir (wadd virt offset) (wadd physAddr offset) flags fuel s.memory
  return ⟨wadd s.currentPage 1, m⟩

def inRange (numPages : ℕ) (s : RangeLoop) : Bool := decide (s.currentPage < numPages)

def mapPageRange (size : ℕ) (m : Memory) : Option Memory :=
  if size &&& 0xFFF ≠ 0 then some m
  else (whileLoop (inRange (size >>> 12)) (rangePass pageDir virt physAddr flags fuel) fuel ⟨0, m⟩).map
    RangeLoop.memory

end Source

inductive PageCall where
  | mapKpage (virt physAddr flags : ℕ)
  | mapPageRange (virt physAddr size flags : ℕ)
  | unmapKpage (virt : ℕ)

def call (fuel : ℕ) (m : Memory) : PageCall → Option Memory
  | .mapKpage virt physAddr flags => mapPageHelper pKernelPageDirectory virt physAddr flags fuel m
  | .mapPageRange virt physAddr size flags => mapPageRange pKernelPageDirectory virt physAddr flags fuel size m
  | .unmapKpage virt => unmapPageHelper pKernelPageDirectory virt m

/-! ### What the calls are for -/

/-- The frame that a page is mapped to, and the flags. -/
abbrev PageMap := ℕ → Option (ℕ × ℕ)

def mapping (physAddr flags : ℕ) : Option (ℕ × ℕ) :=
  if flags % 2 = 1 then some (physAddr / 4096, flags % 4096) else none

def rangeMapped (virt physAddr flags count : ℕ) (μ : PageMap) : PageMap := fun n =>
  if virt / 4096 ≤ n ∧ n < virt / 4096 + count then
    mapping ((physAddr + (n - virt / 4096) * 4096) % wordSize) flags
  else μ n

def effect (μ : PageMap) : PageCall → PageMap
  | .mapKpage virt physAddr flags => Function.update μ (virt / 4096) (mapping physAddr flags)
  | .mapPageRange virt physAddr size flags =>
    if size % 4096 = 0 then rangeMapped virt physAddr flags (size / 4096) μ else μ
  | .unmapKpage virt => Function.update μ (virt / 4096) none

/-- A page that has a table after `init_heap`, and does not show the directory or a table. -/
structure Plain (n : ℕ) : Prop where
  table : n / 1024 = 0 ∨ n / 1024 = 768 ∨ n / 1024 = heapSlot
  apart : n < 4 ∨ 8 ≤ n

def Allowed : PageCall → Prop
  | .mapKpage virt physAddr _ => virt < wordSize ∧ physAddr < wordSize ∧ Plain (virt / 4096)
  | .mapPageRange virt _ size _ => ∀ i < size / 4096, Plain (virt / 4096 + i)
  | .unmapKpage virt => virt < wordSize ∧ Plain (virt / 4096)

/-- What the directory maps the pages of the address space to. -/
def pageMap (m : Phys) : PageMap := fun n =>
  if n < 1048576 then (walk m directory (n * 4096)).map fun e => (frame e.2, e.2 % 4096) else none

/-- The directory is the one of `init_heap`, and its own page and those of the tables are where they were. -/
structure TablesInPlace (m : Phys) : Prop where
  dir : ∀ d < 1024, entryAt m directory d =
    if d = windowSlot then 0x4003 else if d = heapSlot then 0x7003 else
      if d = 0 then 0x5003 else if d = 768 then 0x6003 else 2
  identity : ∀ j, 4 ≤ j → j < 8 → entryAt m 5 j = 4096 * j + 3

/-- Nothing but the words of the three tables has changed. -/
structure OnlyTables (m u : Memory) : Prop where
  rest : u = { m with phys := u.phys }
  words : ∀ k, k / 1024 < 5 ∨ 8 ≤ k / 1024 → u.phys k = m.phys k

section Tables
variable {m : Phys} {virt n x : ℕ}

theorem kernelTables_inPlace {start : ℕ} (h : KernelTables start m) (hstart : kernelPhysAddr < start) :
    TablesInPlace m := by
  refine ⟨h.dir, fun j _ hj => ?_⟩
  rw [kernelPhysAddr] at hstart
  rw [h.identity j (by omega), ascending, if_pos (by omega), Nat.zero_add]

theorem TablesInPlace.identityMapped (h : TablesInPlace m) {t : ℕ} (hlo : 4 ≤ t) (hhi : t < 8) :
    IdentityMapped m t := by
  have hfirst : entryAt m directory 0 = 0x5003 := h.dir 0 (by decide)
  have hentry : entryAt m (frame (entryAt m directory 0)) t = 4096 * t + 3 := by
    rw [hfirst]
    exact h.identity t hlo hhi
  constructor
  · rw [hfirst]
    decide
  · rw [hentry, present]
    omega
  · rw [hentry, frame]
    omega

theorem TablesInPlace.selfMapped (h : TablesInPlace m) : SelfMapped m :=
  selfMapped_of_directory (h.identityMapped (by decide) (by decide)) h.dir

theorem dir_of_page (virt : ℕ) : virt2Dir virt = virt / 4096 / 1024 := by
  rw [virt2Dir_dirIndex, dirIndex]
  omega

theorem index_of_page (virt : ℕ) : virt2Page virt = virt / 4096 % 1024 := by
  rw [virt2Page_pageIndex, pageIndex]

/-- The table of a plain page is in frame 5, 6 or 7, and is that of the first 4 MB only for the pages there. -/
theorem TablesInPlace.table (h : TablesInPlace m) (hn : Plain (virt / 4096)) :
    ∃ t, entryAt m directory (virt2Dir virt) = t * 4096 + 3 ∧ 5 ≤ t ∧ t < 8 ∧ (t = 5 → virt / 4096 < 1024) := by
  rw [dir_of_page]
  rcases hn.table with hslot | hslot | hslot <;> rw [hslot, h.dir _ (by decide)]
  · exact ⟨5, rfl, by decide, by decide, fun _ => by omega⟩
  · exact ⟨6, rfl, by decide, by decide, by simp⟩
  · exact ⟨7, rfl, by decide, by decide, by simp⟩

theorem frame_of_table (t : ℕ) : frame (t * 4096 + 3) = t := by
  unfold frame
  omega

theorem present_of_table (t : ℕ) : present (t * 4096 + 3) := by
  unfold present
  omega

theorem TablesInPlace.written (h : TablesInPlace m) (hn : Plain (virt / 4096)) (x : ℕ) :
    TablesInPlace (entryWritten m virt x) := by
  obtain ⟨t, hdir, hlo, hhi, hfirst⟩ := h.table hn
  have hi := virt2Page_lt virt
  rw [entryWritten, hdir, frame_of_table]
  constructor
  · intro d hd
    rw [entryAt_update_frame m hi hd (by rw [directory]; omega)]
    exact h.dir d hd
  · intro j hj hj'
    by_cases ht : t = 5
    · subst ht
      have hpage : j ≠ virt2Page virt := by
        have hlow := hfirst rfl
        have hapart := hn.apart
        rw [index_of_page]
        omega
      rw [entryAt_update_index m hi (by omega) hpage]
      exact h.identity j hj hj'
    · rw [entryAt_update_frame m hi (by omega) (Ne.symm ht)]
      exact h.identity j hj hj'

theorem page_of_address (n : ℕ) : n * 4096 / 4096 = n := Nat.mul_div_cancel n (by decide)

/-- The window shows the directory, which is as before. -/
theorem TablesInPlace.window_written (h : TablesInPlace m) (hn : Plain (virt / 4096)) (x : ℕ) {v : ℕ}
    (hv : virt2Dir v = windowSlot) : walk (entryWritten m virt x) directory v = walk m directory v := by
  have hslot : dirIndex v = windowSlot := by rw [← virt2Dir_dirIndex, hv]
  have hkept : ∀ d < 1024, entryAt (entryWritten m virt x) directory d = entryAt m directory d := by
    intro d hd
    rw [(h.written hn x).dir d hd, h.dir d hd]
  have hself : frame (entryAt m directory windowSlot) = directory := h.selfMapped.window.entry_frame
  apply walk_congr
  · rw [hslot]
    exact hkept windowSlot (by decide)
  · intro _
    rw [hslot, hself]
    exact hkept _ (pageIndex_lt v)

theorem TablesInPlace.other_written (h : TablesInPlace m) (hv : virt < wordSize) (hn : Plain (virt / 4096))
    (x : ℕ) {v : ℕ} (hword : v < wordSize) (hpage : v / 4096 ≠ virt / 4096) :
    walk (entryWritten m virt x) directory v = walk m directory v := by
  obtain ⟨t, hdir, hlo, _⟩ := h.table hn
  have htable : frame (entryAt m directory (virt2Dir virt)) ≠ directory := by
    rw [hdir, frame_of_table, directory]
    omega
  have hpresent : present (entryAt m directory (virt2Dir virt)) := by
    rw [hdir]
    exact present_of_table t
  have houtside : virt2Dir virt ≠ windowSlot := by
    rw [dir_of_page]
    rcases hn.table with h0 | h0 | h0 <;> rw [h0] <;> decide
  by_cases hwindow : virt2Dir v = windowSlot
  · exact h.window_written hn x hwindow
  · refine entryWritten_other hword htable fun hp hframe => ?_
    apply page_ne_of_dir hpage
    exact h.selfMapped.apart _ (virt2Dir_lt hword) _ (virt2Dir_lt hv) hwindow houtside hp hpresent hframe

theorem TablesInPlace.walk_written (h : TablesInPlace m) (hv : virt < wordSize) (hn : Plain (virt / 4096))
    (x : ℕ) : walk (entryWritten m virt x) directory virt =
      if present x then some (entryAt m directory (virt2Dir virt), x) else none := by
  obtain ⟨t, hdir, _⟩ := h.table hn
  have hpresent : present (entryAt m directory (virt2Dir virt)) := by
    rw [hdir]
    exact present_of_table t
  have hkept := (h.written hn x).dir (virt2Dir virt) (virt2Dir_lt hv)
  rw [← h.dir _ (virt2Dir_lt hv)] at hkept
  have hentry : entryAt (entryWritten m virt x) (frame (entryAt m directory (virt2Dir virt))) (virt2Page virt) =
      x := entryAt_update_same m _ _ x
  rw [virt2Dir_dirIndex] at *
  rw [virt2Page_pageIndex] at hentry
  rw [walk_table (by rwa [hkept]), hkept, hentry]

/-- Writing the entry of a page maps this page, and no other. -/
theorem TablesInPlace.pageMap_written (h : TablesInPlace m) (hv : virt < wordSize) (hn : Plain (virt / 4096))
    (x : ℕ) : pageMap (entryWritten m virt x) =
      Function.update (pageMap m) (virt / 4096) (if present x then some (frame x, x % 4096) else none) := by
  have hpage : virt / 4096 < 1048576 := by
    rw [wordSize_eq] at hv
    omega
  funext n
  by_cases heq : n = virt / 4096
  · subst heq
    rw [Function.update_self, pageMap, if_pos hpage, walk_same_page (page_of_address _), h.walk_written hv hn]
    split <;> rfl
  · rw [Function.update_of_ne heq, pageMap, pageMap]
    split
    · next hlt =>
      have hword : n * 4096 < wordSize := by
        rw [wordSize_eq]
        omega
      rw [h.other_written hv hn x hword (by rwa [page_of_address])]
    · rfl

theorem written_words {m : Phys} (h : TablesInPlace m) (hn : Plain (virt / 4096)) (x : ℕ) {k : ℕ}
    (hk : k / 1024 < 5 ∨ 8 ≤ k / 1024) : entryWritten m virt x k = m k := by
  obtain ⟨t, hdir, hlo, hhi, _⟩ := h.table hn
  have hi := virt2Page_lt virt
  rw [entryWritten, hdir, frame_of_table]
  apply Function.update_of_ne
  unfold entryIndex
  omega

end Tables

/-! ### One call -/

/-- A call that returns, with any fuel that is enough, and maps the pages as `μ` says. -/
def Returns (run : ℕ → Option Memory) (m : Memory) (μ : PageMap) : Prop :=
  ∃ u, (∀ fuel ≥ wordSize, run fuel = some u) ∧ TablesInPlace u.phys ∧ pageMap u.phys = μ ∧ OnlyTables m u

section Calls
variable {μ : PageMap} {m u w : Memory} {virt physAddr flags size : ℕ}

theorem OnlyTables.refl (m : Memory) : OnlyTables m m := ⟨rfl, fun _ _ => rfl⟩

theorem OnlyTables.trans (h : OnlyTables m u) (h' : OnlyTables u w) : OnlyTables m w := by
  refine ⟨?_, fun k hk => (h'.words k hk).trans (h.words k hk)⟩
  rw [h'.rest, h.rest]

theorem enough_fuel {fuel : ℕ} (hfuel : wordSize ≤ fuel) : ∃ rest, fuel = rest + 1 := by
  rw [wordSize_eq] at hfuel
  exact exists_fuel (n := 0) (by omega)

theorem onlyTables_written (h : TablesInPlace m.phys) (hn : Plain (virt / 4096)) (x : ℕ) :
    OnlyTables m { m with phys := entryWritten m.phys virt x } :=
  ⟨rfl, fun _ hk => written_words h hn x hk⟩

theorem mapping_entry (flags : ℕ) (hp : physAddr < wordSize) :
    (if present (makePTEphys physAddr flags) then
      some (frame (makePTEphys physAddr flags), makePTEphys physAddr flags % 4096) else none) =
      mapping physAddr flags := by
  have hentry := makePTEphys_eq flags hp
  have hframe : frame (makePTEphys physAddr flags) = physAddr / 4096 := by
    rw [hentry, frame]
    omega
  have hflags : makePTEphys physAddr flags % 4096 = flags % 4096 := by
    rw [hentry]
    omega
  have hpresent : present (makePTEphys physAddr flags) ↔ flags % 2 = 1 := by
    rw [hentry, present]
    omega
  simp [mapping, hframe, hflags, hpresent]

theorem mapKpage_returns (h : TablesInPlace m.phys) (hv : virt < wordSize) (hp : physAddr < wordSize)
    (hn : Plain (virt / 4096)) (flags : ℕ) :
    Returns (fun fuel => mapPageHelper pKernelPageDirectory virt physAddr flags fuel m) m
      (Function.update (pageMap m.phys) (virt / 4096) (mapping physAddr flags)) := by
  obtain ⟨t, hdir, _⟩ := h.table hn
  have hpresent : present (entryAt m.phys directory (virt2Dir virt)) := by
    rw [hdir]
    exact present_of_table t
  have hmap := h.pageMap_written hv hn (makePTEphys physAddr flags)
  rw [mapping_entry flags hp] at hmap
  refine ⟨_, fun fuel hfuel => ?_, h.written hn _, hmap, onlyTables_written h hn _⟩
  obtain ⟨rest, rfl⟩ := enough_fuel hfuel
  exact mapPageHelper_present h.selfMapped.identity h.selfMapped.window hv hpresent rest

theorem unmapKpage_returns (h : TablesInPlace m.phys) (hv : virt < wordSize) (hn : Plain (virt / 4096)) :
    Returns (fun _ => unmapPageHelper pKernelPageDirectory virt m) m
      (Function.update (pageMap m.phys) (virt / 4096) none) := by
  obtain ⟨t, hdir, hlo, hhi, _⟩ := h.table hn
  have hword : t * 4096 + 3 < wordSize := by
    rw [wordSize_eq]
    omega
  have hid := h.identityMapped (t := t) (by omega) hhi
  have hwalk := hid.walk_page (i := 0) (by omega) (by decide)
  have haddress : element (t * 4096) 0 = t * 4096 := by
    rw [element_identity (by omega) (by decide), Nat.mul_zero, Nat.add_zero]
  rw [haddress] at hwalk
  have hframe : frame (t * 4096 + 3) = t := frame_of_table t
  have hsame := hid.entry_frame
  rw [← hframe] at hwalk hsame
  have hstore := store_table m virt hword hwalk hsame (makePTEphys 0 pdeFlagRw)
  have hload := h.selfMapped.identity.load_directory (virt2Dir_lt hv)
  have hmap := h.pageMap_written hv hn (makePTEphys 0 pdeFlagRw)
  rw [if_neg written_not_present] at hmap
  refine ⟨_, fun fuel _ => ?_, h.written hn _, hmap, onlyTables_written h hn _⟩
  change (loadWord m _).bind _ = _
  rw [hload, Option.bind_some, hdir, hstore, entryWritten, hdir]

theorem Plain.address_lt {i : ℕ} (hn : Plain (virt / 4096 + i)) : virt + i * 4096 < wordSize := by
  have hslot := hn.table
  rw [heapSlot] at hslot
  rw [wordSize_eq] at *
  omega

theorem rangeMapped_zero : rangeMapped virt physAddr flags 0 μ = μ := by
  funext n
  rw [rangeMapped, if_neg (by omega)]

theorem rangeMapped_succ (k : ℕ) :
    rangeMapped virt physAddr flags (k + 1) μ = Function.update (rangeMapped virt physAddr flags k μ)
      (virt / 4096 + k) (mapping ((physAddr + k * 4096) % wordSize) flags) := by
  funext n
  by_cases hn : n = virt / 4096 + k
  · subst hn
    have hback : virt / 4096 + k - virt / 4096 = k := by omega
    rw [Function.update_self, rangeMapped, if_pos (by omega), hback]
  · rw [Function.update_of_ne hn, rangeMapped, rangeMapped]
    exact if_congr (by omega) rfl rfl

theorem wadd_shift (x k : ℕ) : wadd x (k <<< 12) = (x + k * 4096) % wordSize := by
  rw [wadd, Nat.shiftLeft_eq]

/-- The loop state when `left` pages are still to be mapped. -/
structure RangeLeft (virt physAddr flags numPages : ℕ) (m : Memory) (left : ℕ) (s : RangeLoop) : Prop where
  count : s.currentPage + left = numPages
  tables : TablesInPlace s.memory.phys
  mapped : pageMap s.memory.phys = rangeMapped virt physAddr flags s.currentPage (pageMap m.phys)
  only : OnlyTables m s.memory

/-- One pass of the loop maps the next page of the range. -/
theorem RangeLeft.pass {numPages left : ℕ} {s : RangeLoop}
    (h : RangeLeft virt physAddr flags numPages m (left + 1) s) (hn : Plain (virt / 4096 + s.currentPage)) :
    ∃ u, (∀ fuel ≥ wordSize, rangePass pKernelPageDirectory virt physAddr flags fuel s = some u) ∧
      RangeLeft virt physAddr flags numPages m left u := by
  have hlt := hn.address_lt
  have haddress : wadd virt (s.currentPage <<< 12) = virt + s.currentPage * 4096 := by
    rw [wadd_shift, Nat.mod_eq_of_lt hlt]
  have hpage : (virt + s.currentPage * 4096) / 4096 = virt / 4096 + s.currentPage := by omega
  have hphys := wadd_shift physAddr s.currentPage
  have hword : (physAddr + s.currentPage * 4096) % wordSize < wordSize := Nat.mod_lt _ (by decide)
  have hnext : wadd s.currentPage 1 = s.currentPage + 1 := by
    apply wadd_of_lt
    rw [wordSize_eq] at *
    omega
  rw [← hpage] at hn
  obtain ⟨w, hw, htables, hmapped, honly⟩ := mapKpage_returns h.tables hlt hword hn flags
  rw [hpage, h.mapped, ← rangeMapped_succ, ← hnext] at hmapped
  have hcount := h.count
  refine ⟨⟨wadd s.currentPage 1, w⟩, fun fuel hfuel => ?_, ⟨?_, htables, hmapped, h.only.trans honly⟩⟩
  · have hmap : mapPageHelper pKernelPageDirectory (virt + s.currentPage * 4096)
      ((physAddr + s.currentPage * 4096) % wordSize) flags fuel s.memory = some w := hw fuel hfuel
    rw [rangePass, haddress, hphys, hmap]
    rfl
  · change wadd s.currentPage 1 + left = numPages
    omega

theorem RangeLeft.ends {numPages left : ℕ} {s : RangeLoop}
    (h : RangeLeft virt physAddr flags numPages m left s) (hn : ∀ i < numPages, Plain (virt / 4096 + i)) :
    ∃ u, (∀ fuel ≥ wordSize, ∀ n, left < n → whileLoop (inRange numPages)
        (rangePass pKernelPageDirectory virt physAddr flags fuel) n s = some u) ∧
      RangeLeft virt physAddr flags numPages m 0 u := by
  have hcount := h.count
  induction left generalizing s with
  | zero =>
    refine ⟨s, fun fuel _ n hleft => ?_, h⟩
    obtain ⟨rest, rfl⟩ := exists_fuel hleft
    apply whileLoop_stop
    rw [inRange, decide_eq_false_iff_not]
    omega
  | succ left ih =>
    obtain ⟨u, hu, hnext⟩ := h.pass (hn s.currentPage (by omega))
    obtain ⟨w, hw, hend⟩ := ih hnext hnext.count
    refine ⟨w, fun fuel hfuel n hlt => ?_, hend⟩
    obtain ⟨rest, rfl⟩ := exists_fuel hlt
    have hgo : inRange numPages s = true := by
      rw [inRange, decide_eq_true_iff]
      omega
    rw [whileLoop_pass hgo (hu fuel hfuel)]
    exact hw fuel hfuel rest (by omega)

theorem mapPageRange_returns (h : TablesInPlace m.phys) (hn : ∀ i < size / 4096, Plain (virt / 4096 + i)) :
    Returns (fun fuel => mapPageRange pKernelPageDirectory virt physAddr flags fuel size m) m
      (if size % 4096 = 0 then rangeMapped virt physAddr flags (size / 4096) (pageMap m.phys)
        else pageMap m.phys) := by
  have hmask : size &&& 0xFFF = size % 4096 := and_lowMask 12 size
  have hpages : size >>> 12 = size / 4096 := Nat.shiftRight_eq_div_pow size 12
  by_cases haligned : size % 4096 = 0
  · rw [if_pos haligned]
    have hstart : RangeLeft virt physAddr flags (size / 4096) m (size / 4096) ⟨0, m⟩ :=
      ⟨Nat.zero_add _, h, rangeMapped_zero.symm, OnlyTables.refl m⟩
    obtain ⟨u, hu, hend⟩ := hstart.ends hn
    have hmapped := hend.mapped
    rw [show u.currentPage = size / 4096 from hend.count] at hmapped
    refine ⟨u.memory, fun fuel hfuel => ?_, hend.tables, hmapped, hend.only⟩
    have hpasses : size / 4096 < fuel := by
      by_contra hnot
      rw [wordSize_eq] at hfuel
      have hlast := (hn (size / 4096 - 1) (by omega)).address_lt
      rw [wordSize_eq] at hlast
      omega
    change mapPageRange _ _ _ _ _ _ _ = _
    rw [mapPageRange, hmask, if_neg (not_not.mpr haligned), hpages, hu fuel hfuel fuel hpasses]
    rfl
  · rw [if_neg haligned]
    refine ⟨m, fun fuel _ => ?_, h, rfl, OnlyTables.refl m⟩
    change mapPageRange _ _ _ _ _ _ _ = _
    rw [mapPageRange, hmask, if_pos haligned]

theorem call_returns {c : PageCall} (h : TablesInPlace m.phys) (hc : Allowed c) :
    Returns (fun fuel => call fuel m c) m (effect (pageMap m.phys) c) := by
  cases c with
  | mapKpage virt physAddr flags => exact mapKpage_returns h hc.1 hc.2.1 hc.2.2 flags
  | mapPageRange virt physAddr size flags => exact mapPageRange_returns h hc
  | unmapKpage virt => exact unmapKpage_returns h hc.1 hc.2

theorem calls_return {calls : List PageCall} (h : TablesInPlace m.phys) (hcalls : ∀ c ∈ calls, Allowed c) :
    Returns (fun fuel => calls.foldlM (call fuel) m) m (calls.foldl effect (pageMap m.phys)) := by
  induction calls generalizing m with
  | nil => exact ⟨m, fun _ _ => rfl, h, rfl, OnlyTables.refl m⟩
  | cons c calls ih =>
    obtain ⟨u, hu, htables, hmap, honly⟩ := call_returns h (hcalls c (by simp))
    obtain ⟨w, hw, hend, hall, hrest⟩ := ih htables fun c' hc' => hcalls c' (by simp [hc'])
    rw [hmap] at hall
    refine ⟨w, fun fuel hfuel => ?_, hend, hall, honly.trans hrest⟩
    have hfirst : call fuel m c = some u := hu fuel hfuel
    change (call fuel m c).bind (fun m => calls.foldlM (call fuel) m) = some w
    rw [hfirst]
    exact hw fuel hfuel

end Calls

/-! ### After boot -/

theorem initHeap_tables {sysInfo : SystemInfo} (h : Admissible sysInfo)
    (hfits : virt2Phys sysInfo.kernelEnd + sysInfo.totalMemory / 1024 ≤ 0x400000) (ram : Phys) (list : ℕ → ℕ) :
    ∃ b m, initVirtMem wordSize sysInfo (staticMemory ram list) = some b ∧ initHeap b = some m ∧
      TablesInPlace m.phys := by
  obtain ⟨s, _, _, hrun⟩ := initVirtMem_eq h (staticMemory ram list) (le_refl wordSize)
  have hP := h.freeMemoryStart (staticMemory ram list)
  have hlo : kernelPhysAddr < (markKernelEnd sysInfo (staticMemory ram list)).pFreeMemoryStart := by
    rw [hP]
    have hkernel := h.above_kernel
    omega
  rw [← hP] at hfits
  let b := markFreePages (pagingEnabled sysInfo (staticMemory ram list)) s
  have htables : KernelTables b.pFreeMemoryStart (heapInstalled b).phys := heapInstalled_tables hlo hfits rfl
  exact ⟨_, _, hrun, initHeap_eq hlo hfits rfl, kernelTables_inPlace htables hlo⟩

/-- From the heap of `init_heap` on, whatever is mapped, mapped again and unmapped in whatever order: each call
returns, the directory maps what the calls say, and nothing but the three tables is written. -/
theorem pageCalls_refine {sysInfo : SystemInfo} (h : Admissible sysInfo)
    (hfits : virt2Phys sysInfo.kernelEnd + sysInfo.totalMemory / 1024 ≤ 0x400000) (ram : Phys) (list : ℕ → ℕ)
    (calls : List PageCall) (hcalls : ∀ c ∈ calls, Allowed c) :
    ∃ b m u, initVirtMem wordSize sysInfo (staticMemory ram list) = some b ∧ initHeap b = some m ∧
      (∀ fuel ≥ wordSize, calls.foldlM (call fuel) m = some u) ∧
      pageMap u.phys = calls.foldl effect (pageMap m.phys) ∧ OnlyTables m u := by
  obtain ⟨b, m, hb, hm, htables⟩ := initHeap_tables h hfits ram list
  obtain ⟨u, hu, _, hmap, honly⟩ := calls_return htables hcalls
  exact ⟨b, m, u, hb, hm, hu, hmap, honly⟩

/-- A range is mapped over a page of the first 4 MB that was mapped before, and one of its pages is unmapped. -/
def rangeCalls : List PageCall :=
  [.mapKpage 0x200000 0x800000 3, .mapPageRange 0x1FF000 0x900000 0x3000 3, .unmapKpage 0x200000]

theorem rangeCalls_allowed : ∀ c ∈ rangeCalls, Allowed c := by
  intro c hc
  simp only [rangeCalls, List.mem_cons, List.not_mem_nil, or_false] at hc
  rcases hc with rfl | rfl | rfl
  · exact ⟨by decide, by decide, ⟨by decide, by decide⟩⟩
  · intro i hi
    constructor <;> omega
  · exact ⟨by decide, ⟨by decide, by decide⟩⟩

theorem pageCalls_refine_range :
    ∃ b m u, initVirtMem wordSize smallMachine (staticMemory (fun _ => 0) fun _ => 0) = some b ∧
      initHeap b = some m ∧ (∀ fuel ≥ wordSize, rangeCalls.foldlM (call fuel) m = some u) ∧
      pageMap u.phys = rangeCalls.foldl effect (pageMap m.phys) ∧ OnlyTables m u :=
  pageCalls_refine smallMachine_admissible (by decide) _ _ rangeCalls rangeCalls_allowed

end Ktux.PageCalls
