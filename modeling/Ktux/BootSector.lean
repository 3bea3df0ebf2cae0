import Ktux.LoadFile
import Mathlib.Data.List.Basic

set_option autoImplicit false

/-!
# The boot sector's loader

`bootsect.s` from `.loadImage` on, beside `loadFile` of the second stage: the sectors that the two read for
one chain. Both have the FAT in the buffer by then.
-/
namespace Ktux.BootSector
open Words Loops ByteMemory Fat12 LoadFile

@[simp] def bootstubAddress : ℕ := 0x8000
/-- The first entry that ends a chain here; `klLoadKernel.s` compares with `FAT_END_OF_CLUSTER`. -/
@[simp] def lastImageCluster : ℕ := 0x0FF0

structure BootVolume extends Volume where
  numberFATs : ℕ
  fats_pos : 0 < numberFATs
  fats_byte : numberFATs < 256

/-- The dividend keeps its high word here. -/
def rootDirSectors (v : BPB) : ℕ := fatRootDirEntrySize * v.maxRootDirEntryCount / v.bytesPerSector

def firstDataSector (v : BootVolume) : ℕ :=
  (v.numberFATs * v.sectorsPerFAT + v.reservedSectorCount + rootDirSectors v.toBPB) % 2 ^ 16

def cluster2LBA (v : BootVolume) (ax : ℕ) : ℕ :=
  let al := (ax + 2 ^ 16 - 2) % 2 ^ 16 % 2 ^ 8
  (al * v.sectorsPerCluster + firstDataSector v) % 2 ^ 16

structure Boot where
  mem : ByteMem
  cluster : ℕ
  bx : ℕ

/-- One sector a call of `int 0x13`. -/
def readSectors (v : BPB) (disk : ℕ → ByteMem) : ℕ → ℕ → ℕ → ByteMem → ByteMem
  | 0, _, _, mem => mem
  | cx + 1, ax, bx, mem =>
    let chs := lba2chs v ax
    readSectors v disk cx ((ax + 1) % 2 ^ 16) ((bx + v.bytesPerSector) % 2 ^ 16)
      (blit bx 512 (sectorByte disk (int13Sector v chs.track chs.sector chs.head)) mem)

def bootEntry (s : Boot) : ℕ :=
  let word := readWord s.mem ((fatBuffer + (s.cluster + s.cluster >>> 1)) % 2 ^ 16)
  if s.cluster % 2 = 1 then word >>> 4 else word &&& 0x0FFF

def loadImagePass (v : BootVolume) (disk : ℕ → ByteMem) (s : Boot) : Boot :=
  let mem := readSectors v.toBPB disk v.sectorsPerCluster (cluster2LBA v s.cluster) s.bx s.mem
  { mem := mem
    cluster := bootEntry { s with mem := mem }
    bx := (s.bx + v.sectorsPerCluster * v.bytesPerSector) % 2 ^ 16 }

def bootSectors (v : BootVolume) (c : ℕ) : List ℕ :=
  (List.range v.sectorsPerCluster).map fun i => (cluster2LBA v c + i) % 2 ^ 16

/-- The sectors that the first passes of `.loadImage` read. -/
def bootReads (v : BootVolume) (disk : ℕ → ByteMem) : ℕ → Boot → List ℕ
  | 0, _ => []
  | passes + 1, s =>
    bootSectors v s.cluster ++
      if (loadImagePass v disk s).cluster < lastImageCluster then
        bootReads v disk passes (loadImagePass v disk s)
      else []

/-- `loadFile` reads all sectors of a cluster with one call. -/
def loaderSectors (v : BPB) (c : ℕ) : List ℕ :=
  (List.range v.sectorsPerCluster).map fun i => cluster2Logical v c + i

/-- The sectors that the first passes of `.FATloop` read. -/
def loaderReads (v : BPB) (disk : ℕ → ByteMem) : ℕ → Loader → List ℕ
  | 0, _ => []
  | passes + 1, s =>
    loaderSectors v s.nextCluster ++
      match loadCluster v disk s with
      | none => []
      | some u => if u.success then [] else loaderReads v disk passes u

/-- The two loaders read the same sectors, pass by pass, whatever else the disk and the memory hold. -/
def SameReads (v : BootVolume) (fat : ByteMem) (dest c : ℕ) : Prop :=
  ∀ disk mem mem', FATLoaded v.toBPB fat mem → FATLoaded v.toBPB fat mem' → ∀ passes,
    bootReads v disk passes ⟨mem, c, bootstubAddress⟩ =
      loaderReads v.toBPB disk passes ⟨mem', c, dest, false⟩

/-- A chain as the boot sector follows it, short enough for its image to end below 64 KB, with room for the
buffers of the second stage. -/
structure BootChain (v : BootVolume) (fat : ByteMem) (dest c : ℕ) (cs : List ℕ) : Prop where
  chain : Chain (entry fat) (lastImageCluster ≤ ·) c cs
  inside : ∀ d ∈ cs, d < lastImageCluster
  tabled : ∀ d ∈ c :: cs, 3 * d / 2 + 1 < 512 * v.sectorsPerFAT
  image : bootstubAddress + 512 * v.sectorsPerCluster * (cs.length + 1) ≤ 2 ^ 16
  buffer : fatBuffer + 512 * (v.sectorsPerFAT + v.sectorsPerCluster) ≤ stackBottom
  dest_high : firstMegabyte ≤ dest
  dest_fits : dest + 512 * v.sectorsPerCluster * (cs.length + 1) ≤ wordSize

section Blocks
variable {α β : Type*} {f g : α → List β}

/-- Runs that agree on every number of passes agree on every pass. -/
theorem flatMap_take_eq_iff (xs : List α) :
    (∀ n, (xs.take n).flatMap f = (xs.take n).flatMap g) ↔ ∀ x ∈ xs, f x = g x := by
  constructor
  · intro h
    induction xs with
    | nil => exact fun x hx => absurd hx List.not_mem_nil
    | cons x xs ih =>
      have hx : f x = g x := by simpa using h 1
      have hrest : ∀ n, (xs.take n).flatMap f = (xs.take n).flatMap g := by
        intro n
        have hn := h (n + 1)
        rw [List.take_succ_cons, List.flatMap_cons, List.flatMap_cons, hx] at hn
        exact List.append_cancel_left hn
      intro y hy
      rcases List.mem_cons.mp hy with rfl | hy
      · exact hx
      · exact ih hrest y hy
  · intro h n
    exact List.flatMap_congr fun x hx => h x (List.mem_of_mem_take hx)

end Blocks

section Sectors
variable (v : BootVolume)

end Sectors

section Passes
variable {v : BootVolume} {fat : ByteMem} {disk : ℕ → ByteMem} {dest c : ℕ} {cs : List ℕ}

/-- Below 64 KB the sectors land one after another from `bx` on. -/
theorem readSectors_outside {cx ax bx a : ℕ} {mem : ByteMem} (hfits : bx + 512 * cx ≤ 2 ^ 16)
    (ha : a < bx) : readSectors v.toBPB disk cx ax bx mem a = mem a := by
  induction cx generalizing ax bx mem with
  | zero => rfl
  | succ cx ih =>
    rw [Nat.mul_succ] at hfits
    rw [readSectors, v.sector512]
    by_cases hend : bx + 512 = 2 ^ 16
    · have hzero : cx = 0 := by omega
      rw [hzero]
      exact blit_outside (Or.inl ha)
    · rw [Nat.mod_eq_of_lt (a := bx + 512) (by omega), ih (by omega) (by omega), blit_outside (Or.inl ha)]

theorem loadImagePass_fat (disk : ℕ → ByteMem) {s : Boot} (hfat : FATLoaded v.toBPB fat s.mem)
    (hbx : bootstubAddress ≤ s.bx) (hfits : s.bx + 512 * v.sectorsPerCluster ≤ 2 ^ 16) :
    FATLoaded v.toBPB fat (loadImagePass v disk s).mem := by
  have hbelow := v.fat_fits
  simp only [bootstubAddress, fatBuffer, stackBottom] at hbx hbelow
  intro i hi
  change readSectors v.toBPB disk _ _ s.bx s.mem (fatBuffer + i) = fat i
  rw [readSectors_outside hfits (by rw [fatBuffer]; omega)]
  exact hfat i hi

theorem bootEntry_at {s : Boot} (hlow : fatBuffer + 3 * s.cluster / 2 < 2 ^ 16) :
    bootEntry s = entry (fun i => s.mem (fatBuffer + i)) s.cluster := by
  have hindex : (fatBuffer + (s.cluster + s.cluster >>> 1)) % 2 ^ 16 = fatBuffer + 3 * s.cluster / 2 := by
    have hsum : s.cluster + s.cluster / 2 ^ 1 = 3 * s.cluster / 2 := by omega
    rw [Nat.shiftRight_eq_div_pow, hsum, Nat.mod_eq_of_lt hlow]
  unfold bootEntry entry
  simp only [hindex]
  rw [Nat.shiftRight_eq_div_pow, show 0x0FFF = 2 ^ 12 - 1 from rfl, and_lowMask]
  rfl

theorem bootEntry_eq {s : Boot} (hfat : FATLoaded v.toBPB fat s.mem)
    (htabled : 3 * s.cluster / 2 + 1 < 512 * v.sectorsPerFAT) : bootEntry s = entry fat s.cluster := by
  have hbelow := v.fat_fits
  rw [stackBottom] at hbelow
  rw [bootEntry_at (by omega)]
  exact entry_congr (hfat.readWord htabled)

/-- The boot sector reads the clusters of the chain in order and stops after the last one. -/
theorem bootReads_chain {s : Boot} (hchain : Chain (entry fat) (lastImageCluster ≤ ·) s.cluster cs)
    (hinside : ∀ d ∈ cs, d < lastImageCluster)
    (htabled : ∀ d ∈ s.cluster :: cs, 3 * d / 2 + 1 < 512 * v.sectorsPerFAT)
    (hfat : FATLoaded v.toBPB fat s.mem) (hbx : bootstubAddress ≤ s.bx)
    (hfits : s.bx + 512 * v.sectorsPerCluster * (cs.length + 1) ≤ 2 ^ 16) (passes : ℕ) :
    bootReads v disk passes s = ((s.cluster :: cs).take passes).flatMap (bootSectors v) := by
  induction cs generalizing s passes with
  | nil =>
    obtain _ | passes := passes
    · rfl
    · have hnext := loadImagePass_fat disk hfat hbx (by simpa using hfits)
      have hentry := bootEntry_eq hnext (s := { s with mem := (loadImagePass v disk s).mem })
        (htabled _ (List.mem_cons_self ..))
      have hstop : ¬ (loadImagePass v disk s).cluster < lastImageCluster := by
        change ¬ bootEntry { s with mem := (loadImagePass v disk s).mem } < _
        rw [hentry]
        exact Nat.not_lt.mpr hchain
      rw [bootReads, if_neg hstop]
      simp
  | cons d ds ih =>
    obtain _ | passes := passes
    · rfl
    · rw [List.length_cons, Nat.mul_succ] at hfits
      have hmul : 512 * v.sectorsPerCluster ≤ 512 * v.sectorsPerCluster * (ds.length + 1) :=
        Nat.le_mul_of_pos_right _ (Nat.succ_pos _)
      have hpos := v.cluster_pos
      have hnext := loadImagePass_fat disk hfat hbx (by omega)
      have hentry := bootEntry_eq hnext (s := { s with mem := (loadImagePass v disk s).mem })
        (htabled _ (List.mem_cons_self ..))
      have hcluster : (loadImagePass v disk s).cluster = d := hentry.trans hchain.1
      have hbx' : (loadImagePass v disk s).bx = s.bx + 512 * v.sectorsPerCluster := by
        change (s.bx + v.sectorsPerCluster * v.bytesPerSector) % 2 ^ 16 = _
        rw [v.sector512, Nat.mod_eq_of_lt (by omega)]
        omega
      have hgo : (loadImagePass v disk s).cluster < lastImageCluster := by
        rw [hcluster]
        exact hinside d (List.mem_cons_self ..)
      rw [bootReads, if_pos hgo, List.take_succ_cons, List.flatMap_cons]
      congr 1
      have hrun := ih (s := loadImagePass v disk s) (by rw [hcluster]; exact hchain.2)
        (fun e he => hinside e (List.mem_cons_of_mem _ he))
        (by rw [hcluster]; exact fun e he => htabled e (List.mem_cons_of_mem _ he)) hnext
        (by rw [hbx']; omega) (by rw [hbx']; omega) passes
      rw [hrun, hcluster]

theorem loaderReads_succ (v : BPB) (disk : ℕ → ByteMem) (passes : ℕ) (s : Loader) :
    loaderReads v disk (passes + 1) s = loaderSectors v s.nextCluster ++
      match loadCluster v disk s with
      | none => []
      | some u => if u.success then [] else loaderReads v disk passes u := rfl

/-- A pass of the second stage, from any cluster whose entry lies in the table. -/
theorem loaderReads_pass (disk : ℕ → ByteMem)
    (hbuffer : fatBuffer + 512 * (v.sectorsPerFAT + v.sectorsPerCluster) ≤ stackBottom) {s : Loader}
    (hfat : FATLoaded v.toBPB fat s.mem) (hsuccess : s.success = false)
    (htabled : 3 * s.nextCluster / 2 + 1 < 512 * v.sectorsPerFAT) (hptr : firstMegabyte ≤ s.memoryPointer)
    (hfits : s.memoryPointer + 512 * v.sectorsPerCluster ≤ wordSize) :
    ∃ u : Loader, FATLoaded v.toBPB fat u.mem ∧ u.success = false ∧
      u.nextCluster = entry fat s.nextCluster ∧
      u.memoryPointer = wadd s.memoryPointer (512 * v.sectorsPerCluster) ∧
      ∀ passes, loaderReads v.toBPB disk (passes + 1) s = loaderSectors v.toBPB s.nextCluster ++
        if fatEndOfCluster ≤ entry fat s.nextCluster then [] else loaderReads v.toBPB disk passes u := by
  obtain ⟨mem, hpass, hfat', _⟩ := @loadCluster_spec v.toVolume _ disk hbuffer _ hfat hptr hfits
  have hentry := fatEntry_eq (s := ⟨mem, s.nextCluster, wadd s.memoryPointer (512 * v.sectorsPerCluster),
    s.success⟩) hfat' htabled
  refine ⟨⟨mem, entry fat s.nextCluster, wadd s.memoryPointer (512 * v.sectorsPerCluster), false⟩, hfat',
    rfl, rfl, rfl, fun passes => ?_⟩
  rw [followChain, hentry] at hpass
  by_cases hend : fatEndOfCluster ≤ entry fat s.nextCluster
  · rw [if_pos hend] at hpass
    rw [loaderReads_succ, hpass, if_pos hend]
    rfl
  · rw [if_neg hend, hsuccess] at hpass
    rw [loaderReads_succ, hpass, if_neg hend]
    rfl

/-- The second stage reads the clusters of the chain, and goes on with the last entry if that is below
`FAT_END_OF_CLUSTER`. -/
theorem loaderReads_chain
    (hbuffer : fatBuffer + 512 * (v.sectorsPerFAT + v.sectorsPerCluster) ≤ stackBottom) {s : Loader} {e : ℕ}
    (hchain : Chain (entry fat) (· = e) s.nextCluster cs) (hinside : ∀ d ∈ cs, d < fatEndOfCluster)
    (htabled : ∀ d ∈ s.nextCluster :: cs, 3 * d / 2 + 1 < 512 * v.sectorsPerFAT)
    (hfat : FATLoaded v.toBPB fat s.mem) (hsuccess : s.success = false)
    (hptr : firstMegabyte ≤ s.memoryPointer)
    (hfits : s.memoryPointer + 512 * v.sectorsPerCluster * (cs.length + 1) ≤ wordSize) :
    ∃ u : Loader, ∀ passes, loaderReads v.toBPB disk passes s =
      ((s.nextCluster :: cs).take passes).flatMap (loaderSectors v.toBPB) ++
        if fatEndOfCluster ≤ e then [] else loaderReads v.toBPB disk (passes - (cs.length + 1)) u := by
  have hpos := v.cluster_pos
  induction cs generalizing s with
  | nil =>
    obtain ⟨u, _, _, _, _, hpass⟩ := loaderReads_pass disk hbuffer hfat hsuccess
      (htabled _ (List.mem_cons_self ..)) hptr (by simpa using hfits)
    have he : entry fat s.nextCluster = e := hchain
    refine ⟨u, fun passes => ?_⟩
    obtain _ | passes := passes
    · exact (ite_self []).symm
    · rw [hpass, he]
      simp only [List.take_succ_cons, List.take_nil, List.flatMap_cons, List.flatMap_nil, List.append_nil,
        List.length_nil, Nat.zero_add, Nat.add_sub_cancel]
  | cons d ds ih =>
    rw [List.length_cons, Nat.mul_succ] at hfits
    have hmul : 512 * v.sectorsPerCluster ≤ 512 * v.sectorsPerCluster * (ds.length + 1) :=
      Nat.le_mul_of_pos_right _ (Nat.succ_pos _)
    obtain ⟨u, hu, husuccess, hnext, hptr', hpass⟩ := loaderReads_pass disk hbuffer hfat
      hsuccess (htabled _ (List.mem_cons_self ..)) hptr (by omega)
    have hd : u.nextCluster = d := hnext.trans hchain.1
    have hgo : ¬ fatEndOfCluster ≤ entry fat s.nextCluster := by
      rw [hchain.1]
      exact Nat.not_le.mpr (hinside d (List.mem_cons_self ..))
    rw [wadd_of_lt (by omega)] at hptr'
    obtain ⟨w, hw⟩ := ih (s := u) (by rw [hd]; exact hchain.2)
      (fun e he => hinside e (List.mem_cons_of_mem _ he))
      (by rw [hd]; exact fun e he => htabled e (List.mem_cons_of_mem _ he)) hu husuccess
      (by rw [hptr']; omega) (by rw [hptr']; omega)
    refine ⟨w, fun passes => ?_⟩
    obtain _ | passes := passes
    · rw [Nat.zero_sub]
      exact (ite_self []).symm
    · rw [hpass, if_neg hgo, hw, hd, List.take_succ_cons, List.flatMap_cons, List.append_assoc,
        List.length_cons, Nat.add_sub_add_right]

end Passes

section Compare
variable {v : BootVolume} {fat : ByteMem} {dest c : ℕ} {cs : List ℕ}

theorem loaderSectors_length (v : BPB) (c : ℕ) : (loaderSectors v c).length = v.sectorsPerCluster := by
  rw [loaderSectors, List.length_map, List.length_range]

theorem bootSectors_length (v : BootVolume) (c : ℕ) : (bootSectors v c).length = v.sectorsPerCluster := by
  rw [bootSectors, List.length_map, List.length_range]

theorem BootChain.boot (h : BootChain v fat dest c cs) (disk : ℕ → ByteMem) {mem : ByteMem}
    (hfat : FATLoaded v.toBPB fat mem) (passes : ℕ) :
    bootReads v disk passes ⟨mem, c, bootstubAddress⟩ = ((c :: cs).take passes).flatMap (bootSectors v) :=
  bootReads_chain (s := ⟨mem, c, bootstubAddress⟩) h.chain h.inside h.tabled hfat (le_refl _) h.image passes

theorem BootChain.loader (h : BootChain v fat dest c cs) {e : ℕ} (he : Chain (entry fat) (· = e) c cs)
    (disk : ℕ → ByteMem) {mem : ByteMem} (hfat : FATLoaded v.toBPB fat mem) :
    ∃ u : Loader, ∀ passes, loaderReads v.toBPB disk passes ⟨mem, c, dest, false⟩ =
      ((c :: cs).take passes).flatMap (loaderSectors v.toBPB) ++
        if fatEndOfCluster ≤ e then [] else loaderReads v.toBPB disk (passes - (cs.length + 1)) u := by
  have hinside : ∀ d ∈ cs, d < fatEndOfCluster := fun d hd =>
    (h.inside d hd).trans (by decide)
  exact loaderReads_chain (s := ⟨mem, c, dest, false⟩) h.buffer he hinside h.tabled hfat rfl h.dest_high
    h.dest_fits

/-- If the second stage went on after the chain, it would read more sectors than the boot sector. -/
theorem SameReads.ended (hsame : SameReads v fat dest c) (h : BootChain v fat dest c cs) {e : ℕ}
    (he : Chain (entry fat) (· = e) c cs) : fatEndOfCluster ≤ e := by
  by_contra hlow
  have hfat := fatLoaded_shift v.toBPB fat
  obtain ⟨u, hu⟩ := h.loader he (fun _ _ => 0) hfat
  have heq := hsame (fun _ _ => 0) _ _ hfat hfat (cs.length + 2)
  have htake : (c :: cs).take (cs.length + 2) = c :: cs := List.take_of_length_le (by simp)
  have hlast : cs.length + 2 - (cs.length + 1) = 1 := by omega
  have hpos := v.cluster_pos
  have hmore : 0 < (loaderReads v.toBPB (fun _ _ => 0) 1 u).length := by
    rw [loaderReads_succ, List.length_append, loaderSectors_length]
    omega
  have hlength : ((c :: cs).flatMap (bootSectors v)).length =
      ((c :: cs).flatMap (loaderSectors v.toBPB)).length +
        (loaderReads v.toBPB (fun _ _ => 0) 1 u).length := by
    rw [h.boot _ hfat, hu, if_neg hlow, htake, hlast] at heq
    rw [heq, List.length_append]
  simp only [List.length_flatMap, bootSectors_length, loaderSectors_length] at hlength
  omega

theorem SameReads.blocks (hsame : SameReads v fat dest c) (h : BootChain v fat dest c cs) :
    ∀ d ∈ c :: cs, bootSectors v d = loaderSectors v.toBPB d := by
  obtain ⟨e, _, he⟩ := h.chain.exists_end
  have hfat := fatLoaded_shift v.toBPB fat
  obtain ⟨u, hu⟩ := h.loader he (fun _ _ => 0) hfat
  refine (flatMap_take_eq_iff (c :: cs)).mp fun passes => ?_
  have heq := hsame (fun _ _ => 0) _ _ hfat hfat passes
  rw [h.boot _ hfat, hu, if_pos (hsame.ended h he), List.append_nil] at heq
  exact heq

end Compare

def bootFloppy (numberFATs : ℕ) (hpos : 0 < numberFATs) (hbyte : numberFATs < 256) : BootVolume where
  toVolume := floppy
  numberFATs := numberFATs
  fats_pos := hpos
  fats_byte := hbyte

end Ktux.BootSector
