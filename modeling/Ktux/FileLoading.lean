import Ktux.BootSector

set_option autoImplicit false

/-!
# When file loading ends

Neither loader counts clusters or marks those that it has read, so each ends only with the chain that it
follows.
-/
namespace Ktux.FileLoading
open Words Loops ByteMemory Fat12 LoadFile BootSector

@[simp] def clusterNumbers : ℕ := 2 ^ 12

def loadImage (v : BootVolume) (disk : ℕ → ByteMem) (fuel c : ℕ) (mem : ByteMem) : Option Boot :=
  doLoop (fun s => some (loadImagePass v disk s)) (fun s => decide (s.cluster < lastImageCluster)) fuel
    ⟨mem, c, bootstubAddress⟩

/-- The cluster that `loadFile` goes to from `c`. An entry behind the FAT is read from the cluster itself,
which lies in the buffer there. -/
def loaderNext (v : BPB) (disk : ℕ → ByteMem) (mem : ByteMem) (c : ℕ) : ℕ :=
  fatEntry ⟨blit (bufferAddress v) (512 * v.sectorsPerCluster) (sectorByte disk (sectorRead v c)) mem, c, 0,
    false⟩

def bootNext (v : BootVolume) (disk : ℕ → ByteMem) (mem : ByteMem) (c : ℕ) : ℕ :=
  (loadImagePass v disk ⟨mem, c, bootstubAddress⟩).cluster

/-- Both loaders stop after at most as many reads as there are cluster numbers. -/
def LoadingEnds (v : BootVolume) (disk : ℕ → ByteMem) (mem : ByteMem) (c : ℕ) : Prop :=
  (∃ t, loadFile v.toBPB disk clusterNumbers c firstMegabyte mem = some t) ∧
    ∃ t, loadImage v disk clusterNumbers c mem = some t

theorem readWord_lt (m : ByteMem) (a : ℕ) : readWord m a < 2 ^ 16 := by
  have hlow := (m a).toNat_lt
  have hhigh := (m (a + 1)).toNat_lt
  rw [readWord]
  omega

theorem entryBits_lt {word : ℕ} (h : word < 2 ^ 16) (p : Prop) [Decidable p] :
    (if p then word >>> 4 else word &&& 0x0FFF) < clusterNumbers := by
  rw [Nat.shiftRight_eq_div_pow, show 0x0FFF = 2 ^ 12 - 1 from rfl, and_lowMask, clusterNumbers]
  split_ifs <;> omega

section Loader
variable {v : Volume} {disk : ℕ → ByteMem} {mem : ByteMem}

theorem fatEntry_congr {s u : Loader} (hmem : ∀ a < firstMegabyte, s.mem a = u.mem a)
    (hcluster : s.nextCluster = u.nextCluster) : fatEntry s = fatEntry u := by
  have hax : u.nextCluster * fatNybblesPerEntry % 2 ^ 16 < 2 ^ 16 := Nat.mod_lt _ (by decide)
  have hword : readWord s.mem (fatBuffer + (u.nextCluster * fatNybblesPerEntry % 2 ^ 16) >>> 1) =
      readWord u.mem (fatBuffer + (u.nextCluster * fatNybblesPerEntry % 2 ^ 16) >>> 1) := by
    generalize u.nextCluster * fatNybblesPerEntry % 2 ^ 16 = ax at hax
    have hlow : fatBuffer + ax >>> 1 + 1 < firstMegabyte := by
      rw [Nat.shiftRight_eq_div_pow, fatBuffer, firstMegabyte]
      omega
    rw [readWord, readWord, hmem _ (Nat.lt_of_succ_lt hlow), hmem _ hlow]
  unfold fatEntry
  simp only [hcluster, hword]

/-- Below the first megabyte only the cluster buffer changes. -/
def KeepsLow (v : BPB) (mem : ByteMem) (s : Loader) : Prop :=
  ∀ a < firstMegabyte, a < bufferAddress v ∨ bufferAddress v + 512 * v.sectorsPerCluster ≤ a →
    s.mem a = mem a

structure Loading (v : BPB) (mem : ByteMem) (passes : ℕ) (s : Loader) : Prop where
  low : KeepsLow v mem s
  going : s.success = false
  high : firstMegabyte ≤ s.memoryPointer
  room : s.memoryPointer + 512 * v.sectorsPerCluster * passes < wordSize

/-- Memory that agrees below the first megabyte with the cluster in the buffer has the loader's next entry. -/
theorem KeepsLow.next {s w : Loader} (hlow : KeepsLow v.toBPB mem s)
    (hw : ∀ a < firstMegabyte, w.mem a = blit (bufferAddress v.toBPB) (512 * v.sectorsPerCluster)
      (sectorByte disk (sectorRead v.toBPB w.nextCluster)) s.mem a) :
    fatEntry w = loaderNext v.toBPB disk mem w.nextCluster := by
  refine fatEntry_congr (fun a ha => ?_) rfl
  rw [hw a ha]
  by_cases hin : bufferAddress v.toBPB ≤ a ∧ a < bufferAddress v.toBPB + 512 * v.sectorsPerCluster
  · obtain ⟨i, rfl⟩ := Nat.exists_eq_add_of_le hin.1
    have hi : i < 512 * v.sectorsPerCluster := by omega
    exact (blit_inside hi).trans (blit_inside hi).symm
  · have hout : a < bufferAddress v.toBPB ∨ bufferAddress v.toBPB + 512 * v.sectorsPerCluster ≤ a := by
      omega
    exact ((blit_outside hout).trans (hlow a ha hout)).trans (blit_outside hout).symm

theorem Loading.pass (disk : ℕ → ByteMem)
    (hbuffer : fatBuffer + 512 * (v.sectorsPerFAT + v.sectorsPerCluster) ≤ stackBottom)
    {n : ℕ} {s : Loader} (h : Loading v.toBPB mem (n + 1) s) :
    ∃ u : Loader, loadCluster v.toBPB disk s = some u ∧
      (u.success = true ↔ fatEndOfCluster ≤ loaderNext v.toBPB disk mem s.nextCluster) ∧
      (u.success = false → u.nextCluster = loaderNext v.toBPB disk mem s.nextCluster ∧
        Loading v.toBPB mem n u) := by
  obtain ⟨hlow, hgoing, hhigh, hroom⟩ := h
  rw [Nat.mul_succ] at hroom
  have hpass : loadCluster v.toBPB disk s = _ := loadCluster_eq hbuffer hhigh (by omega) rfl
  rw [firstMegabyte] at hhigh
  obtain ⟨m, hm⟩ : ∃ m, m = blit (bufferAddress v.toBPB) (512 * v.sectorsPerCluster)
      (sectorByte disk (sectorRead v.toBPB s.nextCluster)) s.mem := ⟨_, rfl⟩
  rw [← hm] at hpass
  obtain ⟨w, hw⟩ : ∃ w : Loader, w = ⟨blit s.memoryPointer (512 * v.sectorsPerCluster)
      (fun i => m (bufferAddress v.toBPB + i)) m, s.nextCluster,
      wadd s.memoryPointer (512 * v.sectorsPerCluster), s.success⟩ := ⟨_, rfl⟩
  have hwmem : ∀ a < firstMegabyte, w.mem a = m a := by
    intro a ha
    rw [firstMegabyte] at ha
    have hout : a < s.memoryPointer := by omega
    simp only [hw]
    exact blit_outside (Or.inl hout)
  have hcluster : w.nextCluster = s.nextCluster := by rw [hw]
  have hentry : fatEntry w = loaderNext v.toBPB disk mem s.nextCluster := by
    rw [← hcluster]
    exact hlow.next fun a ha => by rw [hwmem a ha, hm, hcluster]
  have hptr : w.memoryPointer = s.memoryPointer + 512 * v.sectorsPerCluster := by
    rw [hw]
    exact wadd_of_lt (by omega)
  rw [← hw] at hpass
  refine ⟨_, hpass, ?_, fun hgo => ?_⟩
  · rw [followChain, ← hentry]
    split_ifs with hend
    · exact iff_of_true rfl hend
    · have hsuccess : w.success = false := by rw [hw, hgoing]
      exact iff_of_false (Bool.eq_false_iff.mp hsuccess) hend
  · rw [followChain] at hgo ⊢
    split_ifs at hgo ⊢ with hend
    refine ⟨hentry, fun a ha hout => ?_, hgo, ?_, ?_⟩
    · change w.mem a = mem a
      rw [hwmem a ha, hm, blit_outside hout]
      exact hlow a ha hout
    · change firstMegabyte ≤ w.memoryPointer
      rw [hptr, firstMegabyte]
      omega
    · change w.memoryPointer + _ < wordSize
      rw [hptr]
      omega

/-- With `n` reads allowed `loadFile` stops exactly when a chain of at most `n` clusters ends. -/
theorem loadFile_stops_iff (hbuffer : fatBuffer + 512 * (v.sectorsPerFAT + v.sectorsPerCluster) ≤ stackBottom)
    {n c : ℕ} (hroom : firstMegabyte + 512 * v.sectorsPerCluster * n < wordSize) :
    (∃ t, loadFile v.toBPB disk n c firstMegabyte mem = some t) ↔
      ∃ cs : List ℕ, cs.length < n ∧ Chain (loaderNext v.toBPB disk mem) (fatEndOfCluster ≤ ·) c cs := by
  have hstart : Loading v.toBPB mem n ⟨mem, c, firstMegabyte, false⟩ :=
    ⟨fun _ _ _ => rfl, rfl, le_rfl, hroom⟩
  refine doLoop_chain_iff (fun s : Loader => s.nextCluster) (Loading v.toBPB mem) (fun n s h => ?_) hstart
  obtain ⟨u, hpass, hends, hgo⟩ := h.pass disk hbuffer
  refine ⟨u, hpass, ?_, ?_⟩
  · rw [Bool.not_eq_false']
    exact hends
  · rw [Bool.not_eq_true']
    exact hgo

theorem loaderNext_eq {fat : ByteMem} (hfat : FATLoaded v.toBPB fat mem) {d : ℕ}
    (htabled : 3 * d / 2 + 1 < 512 * v.sectorsPerFAT) : loaderNext v.toBPB disk mem d = entry fat d := by
  refine fatEntry_eq (s := ⟨_, d, 0, false⟩) (fun i hi => ?_) htabled
  have haddress := bufferAddress_eq v
  exact (blit_outside (Or.inl (by omega))).trans (hfat i hi)

end Loader

section Boot
variable {v : BootVolume} {disk : ℕ → ByteMem} {mem : ByteMem}

theorem bootNext_lt (s : Boot) : (loadImagePass v disk s).cluster < clusterNumbers :=
  entryBits_lt (readWord_lt _ _) _

/-- The image grows from `BOOTSTUB_ADDRESS` up; all entries but the first are read from below it. -/
structure Imaging (v : BootVolume) (disk : ℕ → ByteMem) (mem : ByteMem) (passes : ℕ) (s : Boot) : Prop where
  low : ∀ a < bootstubAddress, s.mem a = mem a
  high : bootstubAddress ≤ s.bx
  room : s.bx + 512 * v.sectorsPerCluster * passes ≤ 2 ^ 16
  next : (loadImagePass v disk s).cluster = bootNext v disk mem s.cluster

theorem loadImagePass_low (disk : ℕ → ByteMem) {s : Boot} (hlow : ∀ a < bootstubAddress, s.mem a = mem a)
    (hhigh : bootstubAddress ≤ s.bx) (hroom : s.bx + 512 * v.sectorsPerCluster ≤ 2 ^ 16) :
    ∀ a < bootstubAddress, (loadImagePass v disk s).mem a = mem a := by
  intro a ha
  exact (readSectors_outside hroom (ha.trans_le hhigh)).trans (hlow a ha)

theorem loadImagePass_cluster {s : Boot} (hlow : ∀ a < bootstubAddress, s.mem a = mem a)
    (hhigh : bootstubAddress ≤ s.bx) (hroom : s.bx + 512 * v.sectorsPerCluster ≤ 2 ^ 16)
    (hcluster : s.cluster < clusterNumbers) :
    (loadImagePass v disk s).cluster = bootNext v disk mem s.cluster := by
  have hmem : ∀ a < bootstubAddress, (loadImagePass v disk s).mem a =
      (loadImagePass v disk ⟨mem, s.cluster, bootstubAddress⟩).mem a := by
    intro a ha
    rw [loadImagePass_low disk hlow hhigh hroom a ha, loadImagePass_low disk (fun _ _ => rfl) le_rfl (le_trans
      (Nat.add_le_add_right hhigh _) hroom) a ha]
  have hindex : (fatBuffer + (s.cluster + s.cluster >>> 1)) % 2 ^ 16 + 1 < bootstubAddress := by
    rw [clusterNumbers] at hcluster
    rw [Nat.shiftRight_eq_div_pow, pow_one, fatBuffer, bootstubAddress, Nat.mod_eq_of_lt (by omega)]
    omega
  have hword : readWord (loadImagePass v disk s).mem ((fatBuffer + (s.cluster + s.cluster >>> 1)) % 2 ^ 16) =
      readWord (loadImagePass v disk ⟨mem, s.cluster, bootstubAddress⟩).mem
        ((fatBuffer + (s.cluster + s.cluster >>> 1)) % 2 ^ 16) := by
    rw [readWord, readWord, hmem _ (Nat.lt_of_succ_lt hindex), hmem _ hindex]
  change bootEntry ⟨(loadImagePass v disk s).mem, s.cluster, s.bx⟩ =
    bootEntry ⟨(loadImagePass v disk ⟨mem, s.cluster, bootstubAddress⟩).mem, s.cluster, bootstubAddress⟩
  unfold bootEntry
  simp only [hword]

theorem Imaging.pass {n : ℕ} {s : Boot} (h : Imaging v disk mem (n + 2) s) :
    Imaging v disk mem (n + 1) (loadImagePass v disk s) := by
  obtain ⟨hlow, hhigh, hroom, hnext⟩ := h
  have hpos := v.cluster_pos
  rw [Nat.mul_succ, Nat.mul_succ] at hroom
  have hfits : s.bx + 512 * v.sectorsPerCluster ≤ 2 ^ 16 := by omega
  have hbx : (loadImagePass v disk s).bx = s.bx + 512 * v.sectorsPerCluster := by
    change (s.bx + v.sectorsPerCluster * v.bytesPerSector) % 2 ^ 16 = _
    rw [v.sector512, Nat.mod_eq_of_lt (by omega)]
    omega
  have hlow' := loadImagePass_low disk hlow hhigh hfits
  have hhigh' : bootstubAddress ≤ (loadImagePass v disk s).bx := by omega
  have hroom' : (loadImagePass v disk s).bx + 512 * v.sectorsPerCluster * (n + 1) ≤ 2 ^ 16 := by
    rw [hbx, Nat.mul_succ]
    omega
  rw [Nat.mul_succ] at hroom'
  exact ⟨hlow', hhigh', by rwa [Nat.mul_succ],
    loadImagePass_cluster hlow' hhigh' (by omega) (bootNext_lt s)⟩

/-- As long as the image stays below 64 KB the boot sector stops exactly when its chain ends. -/
theorem loadImage_stops_iff {n c : ℕ} (hroom : bootstubAddress + 512 * v.sectorsPerCluster * n ≤ 2 ^ 16) :
    (∃ t, loadImage v disk n c mem = some t) ↔
      ∃ cs : List ℕ, cs.length < n ∧ Chain (bootNext v disk mem) (lastImageCluster ≤ ·) c cs := by
  have hstart : Imaging v disk mem n ⟨mem, c, bootstubAddress⟩ := ⟨fun _ _ => rfl, le_rfl, hroom, rfl⟩
  refine doLoop_chain_iff (fun s : Boot => s.cluster) (fun n s => n = 0 ∨ Imaging v disk mem n s)
    (fun n s h => ?_) (Or.inr hstart)
  have himage : Imaging v disk mem (n + 1) s := h.resolve_left (Nat.succ_ne_zero n)
  refine ⟨loadImagePass v disk s, rfl, ?_, fun _ => ⟨himage.next, ?_⟩⟩
  · rw [decide_eq_false_iff_not, Nat.not_lt, himage.next]
  · cases n with
    | zero => exact Or.inl rfl
    | succ n => exact Or.inr himage.pass

theorem bootNext_eq {fat : ByteMem} (hfat : FATLoaded v.toBPB fat mem)
    (hroom : bootstubAddress + 512 * v.sectorsPerCluster ≤ 2 ^ 16) {d : ℕ}
    (htabled : 3 * d / 2 + 1 < 512 * v.sectorsPerFAT) : bootNext v disk mem d = entry fat d :=
  bootEntry_eq (s := ⟨_, d, bootstubAddress⟩)
    (loadImagePass_fat disk (s := ⟨mem, d, bootstubAddress⟩) hfat le_rfl hroom) htabled

end Boot

/-- Each loader stops if the chain that it follows ends, and `loadFile` does so within as many reads as there
are cluster numbers. -/
theorem loading_ends_iff (v : BootVolume) (fat : ByteMem) (disk : ℕ → ByteMem) (mem : ByteMem) (c : ℕ)
    (hfat : FATLoaded v.toBPB fat mem) :
    (fatBuffer + 512 * (v.sectorsPerFAT + v.sectorsPerCluster) ≤ stackBottom →
      (∀ d, 3 * d / 2 + 1 < 512 * v.sectorsPerFAT → loaderNext v.toBPB disk mem d = entry fat d) ∧
      ((∃ t, loadFile v.toBPB disk clusterNumbers c firstMegabyte mem = some t) ↔
        ∃ cs, Chain (loaderNext v.toBPB disk mem) (fatEndOfCluster ≤ ·) c cs)) ∧
    ∀ n, 0 < n → bootstubAddress + 512 * v.sectorsPerCluster * n ≤ 2 ^ 16 →
      n ≤ clusterNumbers ∧
      (∀ d, 3 * d / 2 + 1 < 512 * v.sectorsPerFAT → bootNext v disk mem d = entry fat d) ∧
      ((∃ t, loadImage v disk n c mem = some t) ↔
        ∃ cs : List ℕ, cs.length < n ∧ Chain (bootNext v disk mem) (lastImageCluster ≤ ·) c cs) := by
  have hpos := v.cluster_pos
  constructor
  · intro hbuffer
    refine ⟨fun d htabled => loaderNext_eq hfat htabled, ?_⟩
    have hcluster : v.sectorsPerCluster ≤ 37 := by
      simp only [fatBuffer, stackBottom] at hbuffer
      omega
    have hroom : firstMegabyte + 512 * v.sectorsPerCluster * clusterNumbers < wordSize := by
      rw [wordSize_eq, firstMegabyte, clusterNumbers]
      omega
    rw [loadFile_stops_iff hbuffer hroom]
    constructor
    · rintro ⟨cs, _, hchain⟩
      exact ⟨cs, hchain⟩
    · rintro ⟨cs, hchain⟩
      -- a chain without repetitions is no longer than the numbers that do not end it
      obtain ⟨ds, hsimple, hinside, hnodup, _⟩ := hchain.exists_simple
      have hlength : ds.length ≤ fatEndOfCluster :=
        length_le_of_nodup (List.nodup_cons.mp hnodup).2 fun d hd => Nat.lt_of_not_le (hinside d hd)
      exact ⟨ds, hlength.trans_lt (by decide), hsimple⟩
  · intro n hn hroom
    have hone : 512 * v.sectorsPerCluster ≤ 512 * v.sectorsPerCluster * n := Nat.le_mul_of_pos_right _ hn
    have hreads : n ≤ 512 * v.sectorsPerCluster * n := Nat.le_mul_of_pos_left n (by omega)
    refine ⟨?_, fun d htabled => bootNext_eq hfat ((Nat.add_le_add_left hone _).trans hroom) htabled,
      loadImage_stops_iff hroom⟩
    by_contra hlarge
    have hmul : 512 * 1 * n ≤ 512 * v.sectorsPerCluster * n :=
      Nat.mul_le_mul_right n (Nat.mul_le_mul_left 512 hpos)
    rw [bootstubAddress] at hroom
    rw [clusterNumbers] at hlarge
    omega

theorem loading_ends_floppy :
    FATLoaded floppy.toBPB pairFAT (fun a => pairFAT (a - fatBuffer)) ∧
      ∃ t, loadFile floppy.toBPB (fun _ => pairFAT) clusterNumbers 2 firstMegabyte
        (fun a => pairFAT (a - fatBuffer)) = some t := by
  have hfat : FATLoaded floppy.toBPB pairFAT (fun a => pairFAT (a - fatBuffer)) := by
    intro i _
    exact congrArg pairFAT (Nat.add_sub_cancel_left _ _)
  obtain ⟨hloader, _⟩ := loading_ends_iff (bootFloppy 2 (by decide) (by decide)) pairFAT (fun _ => pairFAT)
    (fun a => pairFAT (a - fatBuffer)) 2 hfat
  obtain ⟨hnext, hstops⟩ := hloader (by decide)
  refine ⟨hfat, hstops.mpr ⟨[3], ?_, ?_⟩⟩
  · rw [hnext 2 (by decide)]
    decide
  · change fatEndOfCluster ≤ loaderNext _ _ _ 3
    rw [hnext 3 (by decide)]
    decide

/-- Cluster 2 comes after cluster 2. -/
def loopFAT : ByteMem := fun i => if i = 3 then 2 else 0

/-- Its clusters have 32 KB each. -/
def wideVolume : BootVolume where
  bytesPerSector := 0x200
  sectorsPerCluster := 64
  reservedSectorCount := 1
  maxRootDirEntryCount := 0x10
  totalSectors := 0xFFFF
  sectorsPerFAT := 1
  sectorsPerTrack := 63
  numberHeads := 255
  sector512 := floppy.sector512
  cluster_pos := by decide
  cluster_byte := by decide
  track_pos := by decide
  track_le := by decide
  heads_pos := by decide
  fat_fits := by decide
  numberFATs := 2
  fats_pos := Nat.two_pos
  fats_byte := by decide

def wideDisk : ℕ → ByteMem := diskWith wideVolume.toBPB pairFAT 4 0

theorem readSectors_zero {v : BPB} {disk : ℕ → ByteMem} {cx ax bx a : ℕ} {mem : ByteMem}
    (hsectors : ∀ i < cx, ∀ j, sectorByte disk (int13Sector v (lba2chs v ((ax + i) % 2 ^ 16)).track
      (lba2chs v ((ax + i) % 2 ^ 16)).sector (lba2chs v ((ax + i) % 2 ^ 16)).head) j = 0)
    (hax : ax < 2 ^ 16) (ha : mem a = 0) : readSectors v disk cx ax bx mem a = 0 := by
  induction cx generalizing ax bx mem with
  | zero => exact ha
  | succ cx ih =>
    rw [readSectors]
    refine ih (fun i hi j => ?_) (Nat.mod_lt _ (by decide)) ?_
    · have hnext := hsectors (i + 1) (Nat.succ_lt_succ hi) j
      rwa [Nat.add_comm i 1, ← Nat.add_assoc, ← Nat.mod_add_mod] at hnext
    · have hfirst := hsectors 0 (Nat.succ_pos cx)
      rw [Nat.add_zero, Nat.mod_eq_of_lt hax] at hfirst
      unfold blit
      split_ifs
      · exact hfirst _
      · exact ha

/-- Here the boot sector reads cluster 0 again and again. -/
def Zeroed (s : Boot) : Prop := s.cluster = 0 ∧ s.mem 0x3000 = 0 ∧ s.mem 0x3001 = 0

theorem Zeroed.entry {s : Boot} (h : Zeroed s) : bootEntry s = 0 := by
  obtain ⟨hcluster, hlow, hhigh⟩ := h
  have hindex : (fatBuffer + (0 + 0 >>> 1)) % 2 ^ 16 = 0x3000 := rfl
  have hword : readWord s.mem 0x3000 = 0 := by
    rw [readWord, hlow, hhigh]
    rfl
  unfold bootEntry
  simp only [hcluster, hindex, hword]
  rfl

theorem Zeroed.pass_of_sectors {v : BootVolume} {disk : ℕ → ByteMem} {s : Boot} (h : Zeroed s)
    (hsectors : ∀ i < v.sectorsPerCluster, ∀ j, sectorByte disk (int13Sector v.toBPB
      (lba2chs v.toBPB ((cluster2LBA v 0 + i) % 2 ^ 16)).track
      (lba2chs v.toBPB ((cluster2LBA v 0 + i) % 2 ^ 16)).sector
      (lba2chs v.toBPB ((cluster2LBA v 0 + i) % 2 ^ 16)).head) j = 0) :
    Zeroed (loadImagePass v disk s) := by
  have hkeep : ∀ a, s.mem a = 0 → (loadImagePass v disk s).mem a = 0 := by
    intro a ha
    refine readSectors_zero ?_ (Nat.mod_lt _ (by decide)) ha
    rw [h.1]
    exact hsectors
  have hentry : Zeroed ⟨(loadImagePass v disk s).mem, s.cluster, s.bx⟩ :=
    ⟨h.1, hkeep _ h.2.1, hkeep _ h.2.2⟩
  exact ⟨hentry.entry, hkeep _ h.2.1, hkeep _ h.2.2⟩

theorem Zeroed.pass {s : Boot} (h : Zeroed s) : Zeroed (loadImagePass wideVolume wideDisk s) := by
  have hpast : ∀ i < 64, 2 ≤ int13Sector wideVolume.toBPB
      (lba2chs wideVolume.toBPB ((cluster2LBA wideVolume 0 + i) % 2 ^ 16)).track
      (lba2chs wideVolume.toBPB ((cluster2LBA wideVolume 0 + i) % 2 ^ 16)).sector
      (lba2chs wideVolume.toBPB ((cluster2LBA wideVolume 0 + i) % 2 ^ 16)).head := by decide +kernel
  refine h.pass_of_sectors fun i hi j => ?_
  have hsector := hpast i hi
  generalize int13Sector wideVolume.toBPB _ _ _ = sector at hsector
  have hreserved : wideVolume.reservedSectorCount = 1 := rfl
  unfold sectorByte wideDisk diskWith pairFAT
  split_ifs <;> first | rfl | omega

def wideMemory : ByteMem := fun a => pairFAT (a - fatBuffer)

/-- The second cluster goes from address 0 up, over the FAT. -/
theorem wide_zeroed :
    (loadImagePass wideVolume wideDisk ⟨wideMemory, 2, bootstubAddress⟩).cluster < lastImageCluster ∧
      Zeroed (loadImagePass wideVolume wideDisk
        (loadImagePass wideVolume wideDisk ⟨wideMemory, 2, bootstubAddress⟩)) := by
  refine ⟨?_, ?_, ?_, ?_⟩
  all_goals decide +kernel

theorem loadImage_never {v : BootVolume} {disk : ℕ → ByteMem} {mem : ByteMem} {c : ℕ}
    (hfirst : (loadImagePass v disk ⟨mem, c, bootstubAddress⟩).cluster < lastImageCluster)
    (hzeroed : Zeroed (loadImagePass v disk (loadImagePass v disk ⟨mem, c, bootstubAddress⟩)))
    (hpass : ∀ s, Zeroed s → Zeroed (loadImagePass v disk s)) (fuel : ℕ) :
    loadImage v disk fuel c mem = none := by
  refine Option.eq_none_iff_forall_ne_some.mpr fun t ht => ?_
  have hlow : ∀ {s : Boot}, Zeroed s → decide (s.cluster < lastImageCluster) = true := by
    intro s hs
    rw [hs.1]
    rfl
  have hstep : ∀ n s, decide ((loadImagePass v disk s).cluster < lastImageCluster) = true →
      doLoop (fun s => some (loadImagePass v disk s)) (fun s => decide (s.cluster < lastImageCluster))
      (n + 1) s =
        doLoop (fun s => some (loadImagePass v disk s)) (fun s => decide (s.cluster < lastImageCluster)) n
          (loadImagePass v disk s) := by
    intro n s h
    exact doLoop_pass (b := fun s => some (loadImagePass v disk s)) (s := s) rfl h n
  have hrun := doLoop_mono (Nat.le_add_right fuel 2) ht
  rw [hstep _ _ (decide_eq_true hfirst), hstep _ _ (hlow hzeroed)] at hrun
  obtain ⟨u, hu, hloop⟩ := Option.bind_eq_some_iff.mp hrun
  cases hu
  obtain ⟨hend, hdone⟩ := whileLoop_invariant Zeroed
    (fun s w hs _ hw => Option.some.inj hw ▸ hpass s hs) (hpass _ hzeroed) hloop
  rw [hlow hend] at hdone
  cases hdone

/-- A cluster that comes after itself is read for ever. A chain may also end and still be too long for the 64 KB
of the boot sector, or have clusters that do not fit below the stack of the second stage. -/
theorem loadingEnds_fails :
    (DiskHoldsFAT floppy.toBPB loopFAT (diskWith floppy.toBPB loopFAT 33 0) ∧
      FATLoaded floppy.toBPB loopFAT (fun a => loopFAT (a - fatBuffer)) ∧
      ¬ LoadingEnds (bootFloppy 2 (by decide) (by decide)) (diskWith floppy.toBPB loopFAT 33 0)
        (fun a => loopFAT (a - fatBuffer)) 2) ∧
    (DiskHoldsFAT wideVolume.toBPB pairFAT wideDisk ∧
      FATLoaded wideVolume.toBPB pairFAT wideMemory ∧
      Chain (entry pairFAT) (fatEndOfCluster ≤ ·) 2 [3] ∧
      loadImage wideVolume wideDisk clusterNumbers 2 wideMemory = none ∧
      loadFile wideVolume.toBPB wideDisk clusterNumbers 2 firstMegabyte wideMemory = none) := by
  constructor
  · have hloaded := fatLoaded_shift floppy.toBPB loopFAT
    refine ⟨diskWith_fat (v := floppy) (by decide) 0, hloaded, fun hends => ?_⟩
    obtain ⟨cs, _, hchain⟩ := (loadFile_stops_iff (v := floppy) (by decide) (by decide)).mp hends.1
    refine not_chain_of_fixed ?_ (by decide) cs hchain
    rw [loaderNext_eq hloaded (by decide)]
    decide
  · have hdisk : DiskHoldsFAT wideVolume.toBPB pairFAT wideDisk :=
      diskWith_fat (v := wideVolume.toVolume) (by decide) 0
    have hchain : Chain (entry pairFAT) (fatEndOfCluster ≤ ·) 2 [3] :=
      ⟨by decide, show fatEndOfCluster ≤ entry pairFAT 3 by decide⟩
    have hbuffer : ¬ fatBuffer + 512 * (wideVolume.sectorsPerFAT + wideVolume.sectorsPerCluster) ≤
        stackBottom := by decide
    exact ⟨hdisk, fatLoaded_shift wideVolume.toBPB pairFAT, hchain,
      loadImage_never wide_zeroed.1 wide_zeroed.2 (fun _ => Zeroed.pass) clusterNumbers,
      loadFile_none (v := wideVolume.toVolume) hbuffer wideDisk clusterNumbers wideMemory⟩

end Ktux.FileLoading
