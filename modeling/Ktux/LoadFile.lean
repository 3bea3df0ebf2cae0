import Ktux.Fat12
import Ktux.Loops

set_option autoImplicit false

/-!
# The loader's `loadFile`

`klLoadKernel.s` reads a cluster chain with BIOS calls into a buffer behind the FAT and moves each cluster
to its place above the first megabyte. Reads succeed; the registers of `int 0x13` are decoded as the BIOS
does.
-/
namespace Ktux.LoadFile
open Words Loops ByteMemory Fat12

@[simp] def fatBuffer : ℕ := 0x3000
@[simp] def fatRootDirEntrySize : ℕ := 0x20
@[simp] def fatNybblesPerEntry : ℕ := 3
@[simp] def fatEndOfCluster : ℕ := 0x0FF8
/-- The memory map of `bootsect.s` keeps the loader's stack here. -/
@[simp] def stackBottom : ℕ := 0x7A00
@[simp] def stackTop : ℕ := 0x7C00
@[simp] def firstMegabyte : ℕ := 0x100000

structure BPB where
  bytesPerSector : ℕ
  sectorsPerCluster : ℕ
  reservedSectorCount : ℕ
  maxRootDirEntryCount : ℕ
  totalSectors : ℕ
  sectorsPerFAT : ℕ
  sectorsPerTrack : ℕ
  numberHeads : ℕ

/-- A volume on a disk that `int 0x13` can address, with a FAT that `loadFAT` can hold below the stack. -/
structure Volume extends BPB where
  sector512 : bytesPerSector = 512
  cluster_pos : 0 < sectorsPerCluster
  cluster_byte : sectorsPerCluster < 256
  track_pos : 0 < sectorsPerTrack
  track_le : sectorsPerTrack ≤ 63
  heads_pos : 0 < numberHeads
  fat_fits : fatBuffer + 512 * sectorsPerFAT ≤ stackBottom

structure VolumeInfo where
  rootDirSectorCount : ℕ
  bytesPerCluster : ℕ
  clusterBuffer : ℕ

/-- Products keep their low 16 bits. -/
def computeVolumeInfo (v : BPB) : VolumeInfo where
  rootDirSectorCount := fatRootDirEntrySize * v.maxRootDirEntryCount % 2 ^ 16 / v.bytesPerSector
  bytesPerCluster := v.bytesPerSector * v.sectorsPerCluster % 2 ^ 16
  clusterBuffer := (v.sectorsPerFAT * v.bytesPerSector % 2 ^ 16 + fatBuffer) / 16 % 2 ^ 16

/-- `mul bl` multiplies the low byte of `ax`. -/
def cluster2Logical (v : BPB) (ax : ℕ) : ℕ :=
  let al := (ax + 2 ^ 16 - 2) % 2 ^ 16 % 2 ^ 8
  (al * v.sectorsPerCluster + v.reservedSectorCount + v.sectorsPerFAT + v.sectorsPerFAT +
    (computeVolumeInfo v).rootDirSectorCount) % 2 ^ 16

structure CHS where
  track : ℕ
  head : ℕ
  sector : ℕ

def lba2chs (v : BPB) (ax : ℕ) : CHS where
  track := ax / v.sectorsPerTrack / v.numberHeads % 2 ^ 8
  head := ax / v.sectorsPerTrack % v.numberHeads % 2 ^ 8
  sector := (ax % v.sectorsPerTrack % 2 ^ 8 + 1) % 2 ^ 8

/-- The first sector that `int 0x13` reads: the two high bits of `cl` belong to the cylinder. -/
def int13Sector (v : BPB) (ch cl dh : ℕ) : ℕ :=
  chsSector v.sectorsPerTrack v.numberHeads (ch + 2 ^ 8 * (cl / 2 ^ 6)) dh (cl % 2 ^ 6)

def sectorRead (v : BPB) (cluster : ℕ) : ℕ :=
  let chs := lba2chs v (cluster2Logical v cluster)
  int13Sector v chs.track chs.sector chs.head

def sectorByte (disk : ℕ → ByteMem) (sector i : ℕ) : UInt8 := disk (sector + i / 512) (i % 512)

structure Loader where
  mem : ByteMem
  nextCluster : ℕ
  memoryPointer : ℕ
  success : Bool

def bufferAddress (v : BPB) : ℕ := 16 * (computeVolumeInfo v).clusterBuffer

/-- A buffer that reaches the stack takes the return addresses with it. -/
def readCluster (v : BPB) (disk : ℕ → ByteMem) (s : Loader) : Option Loader :=
  if bufferAddress v < stackTop ∧ stackBottom < bufferAddress v + 512 * v.sectorsPerCluster then none
  else
    some { s with
      mem := blit (bufferAddress v) (512 * v.sectorsPerCluster)
        (sectorByte disk (sectorRead v s.nextCluster)) s.mem }

def moveCluster (v : BPB) (s : Loader) : Loader :=
  { s with
    mem := copyUp 4 ((computeVolumeInfo v).bytesPerCluster >>> 2) (bufferAddress v) s.memoryPointer s.mem
    memoryPointer := wadd s.memoryPointer (computeVolumeInfo v).bytesPerCluster }

def fatEntry (s : Loader) : ℕ :=
  let ax := s.nextCluster * fatNybblesPerEntry % 2 ^ 16
  let word := readWord s.mem (fatBuffer + ax >>> 1)
  if ax % 2 = 1 then word >>> 4 else word &&& 0x0FFF

def followChain (s : Loader) : Loader :=
  if fatEndOfCluster ≤ fatEntry s then { s with success := true }
  else { s with nextCluster := fatEntry s }

def loadCluster (v : BPB) (disk : ℕ → ByteMem) (s : Loader) : Option Loader :=
  (readCluster v disk s).map fun s => followChain (moveCluster v s)

def loadFile (v : BPB) (disk : ℕ → ByteMem) (fuel startingCluster memoryLocation : ℕ) (mem : ByteMem) :
    Option Loader :=
  doLoop (loadCluster v disk) (fun s => !s.success) fuel ⟨mem, startingCluster, memoryLocation, false⟩

def clusterLBA (v : BPB) (c : ℕ) : ℕ :=
  v.reservedSectorCount + 2 * v.sectorsPerFAT + fatRootDirEntrySize * v.maxRootDirEntryCount / 512 +
    (c - 2) * v.sectorsPerCluster

structure FileChain (v : Volume) (fat : ByteMem) (c : ℕ) (cs : List ℕ) : Prop where
  chain : Chain (entry fat) (fatEndOfCluster ≤ ·) c cs
  distinct : (c :: cs).Nodup
  low : ∀ d ∈ c :: cs, 2 ≤ d
  high : ∀ d ∈ c :: cs, d ≤ 0xFEF
  inside : ∀ d ∈ c :: cs, clusterLBA v.toBPB d + v.sectorsPerCluster ≤ v.totalSectors
  tabled : ∀ d ∈ c :: cs, 3 * d / 2 + 1 < 512 * v.sectorsPerFAT

def DiskHoldsFAT (v : BPB) (fat : ByteMem) (disk : ℕ → ByteMem) : Prop :=
  ∀ i < 512 * v.sectorsPerFAT, sectorByte disk v.reservedSectorCount i = fat i

def FATLoaded (v : BPB) (fat mem : ByteMem) : Prop :=
  ∀ i < 512 * v.sectorsPerFAT, mem (fatBuffer + i) = fat i

/-- The memory from `dest` on holds the clusters, each from the sector that `lba` gives it. -/
def Holds (v : BPB) (disk : ℕ → ByteMem) (lba : ℕ → ℕ) (dest : ℕ) (cs : List ℕ) (mem : ByteMem) : Prop :=
  ∀ k (hk : k < cs.length), ∀ j < 512 * v.sectorsPerCluster,
    mem (dest + 512 * v.sectorsPerCluster * k + j) = sectorByte disk (lba cs[k]) j

/-- `loadFile` brings the clusters of the chain to `dest`, whatever the disk and memory hold otherwise. -/
def LoadsFile (v : Volume) (fat : ByteMem) (dest c : ℕ) (cs : List ℕ) : Prop :=
  ∀ disk mem, DiskHoldsFAT v.toBPB fat disk → FATLoaded v.toBPB fat mem →
    ∃ fuel t, loadFile v.toBPB disk fuel c dest mem = some t ∧
      Holds v.toBPB disk (clusterLBA v.toBPB) dest (c :: cs) t.mem

/-- The loader's 8- and 16-bit arithmetic is exact, and its buffer stays below the stack. -/
structure WithinReach (v : BPB) (cs : List ℕ) : Prop where
  buffer : fatBuffer + 512 * (v.sectorsPerFAT + v.sectorsPerCluster) ≤ stackBottom
  rootDir : fatRootDirEntrySize * v.maxRootDirEntryCount < 2 ^ 16
  cluster : ∀ c ∈ cs, c - 2 < 2 ^ 8
  sector : ∀ c ∈ cs, clusterLBA v c < 2 ^ 16
  head : ∀ c ∈ cs, clusterLBA v c / v.sectorsPerTrack % v.numberHeads < 2 ^ 8
  track : ∀ c ∈ cs, clusterLBA v c / v.sectorsPerTrack / v.numberHeads < 2 ^ 8

section Geometry
variable (v : Volume)

theorem bufferAddress_eq : bufferAddress v.toBPB = fatBuffer + 512 * v.sectorsPerFAT := by
  have hfits := v.fat_fits
  simp only [fatBuffer, stackBottom] at hfits
  change 16 * ((v.sectorsPerFAT * v.bytesPerSector % 2 ^ 16 + 0x3000) / 16 % 2 ^ 16) = _
  rw [v.sector512, fatBuffer, Nat.mod_eq_of_lt (a := v.sectorsPerFAT * 512) (by omega)]
  omega

theorem bytesPerCluster_eq
    (hbuffer : fatBuffer + 512 * (v.sectorsPerFAT + v.sectorsPerCluster) ≤ stackBottom) :
    (computeVolumeInfo v.toBPB).bytesPerCluster = 512 * v.sectorsPerCluster := by
  simp only [fatBuffer, stackBottom] at hbuffer
  change v.bytesPerSector * v.sectorsPerCluster % 2 ^ 16 = _
  rw [v.sector512, Nat.mod_eq_of_lt (by omega)]

/-- Every truncation on the way makes the logical sector smaller. -/
theorem cluster2Logical_le {c : ℕ} (hlow : 2 ≤ c) (hhigh : c ≤ 0xFEF) :
    cluster2Logical v.toBPB c ≤ clusterLBA v.toBPB c ∧
      (cluster2Logical v.toBPB c = clusterLBA v.toBPB c ↔
        fatRootDirEntrySize * v.maxRootDirEntryCount < 2 ^ 16 ∧ c - 2 < 2 ^ 8 ∧
          clusterLBA v.toBPB c < 2 ^ 16) := by
  have hal : (c + 2 ^ 16 - 2) % 2 ^ 16 % 2 ^ 8 = (c - 2) % 2 ^ 8 := by omega
  have hle : (c - 2) % 2 ^ 8 * v.sectorsPerCluster ≤ (c - 2) * v.sectorsPerCluster :=
    Nat.mul_le_mul_right _ (Nat.mod_le _ _)
  have heq : (c - 2) % 2 ^ 8 * v.sectorsPerCluster = (c - 2) * v.sectorsPerCluster ↔ c - 2 < 2 ^ 8 := by
    constructor
    · intro h
      have hmod := Nat.eq_of_mul_eq_mul_right v.cluster_pos h
      omega
    · intro h
      rw [Nat.mod_eq_of_lt h]
  unfold cluster2Logical computeVolumeInfo clusterLBA
  simp only [hal, v.sector512, fatRootDirEntrySize]
  generalize (c - 2) % 2 ^ 8 * v.sectorsPerCluster = x at hle heq ⊢
  generalize (c - 2) * v.sectorsPerCluster = y at hle heq ⊢
  omega

theorem sectorRead_eq (c : ℕ) : sectorRead v.toBPB c =
    chsSector v.sectorsPerTrack v.numberHeads
      (cluster2Logical v.toBPB c / v.sectorsPerTrack / v.numberHeads % 2 ^ 8)
      (cluster2Logical v.toBPB c / v.sectorsPerTrack % v.numberHeads % 2 ^ 8)
      (cluster2Logical v.toBPB c % v.sectorsPerTrack + 1) := by
  have hlt := Nat.mod_lt (cluster2Logical v.toBPB c) v.track_pos
  have hle := v.track_le
  have hsector : (cluster2Logical v.toBPB c % v.sectorsPerTrack % 2 ^ 8 + 1) % 2 ^ 8 =
      cluster2Logical v.toBPB c % v.sectorsPerTrack + 1 := by omega
  have hhigh : (cluster2Logical v.toBPB c % v.sectorsPerTrack + 1) / 2 ^ 6 = 0 := by omega
  have hlow : (cluster2Logical v.toBPB c % v.sectorsPerTrack + 1) % 2 ^ 6 =
      cluster2Logical v.toBPB c % v.sectorsPerTrack + 1 := by omega
  unfold sectorRead int13Sector lba2chs
  simp only [hsector, hhigh, hlow]
  rw [Nat.mul_zero, Nat.add_zero]

/-- The sector that is read for a cluster is its own exactly when nothing is truncated. -/
theorem sectorRead_eq_iff {c : ℕ} (hlow : 2 ≤ c) (hhigh : c ≤ 0xFEF) :
    sectorRead v.toBPB c = clusterLBA v.toBPB c ↔
      fatRootDirEntrySize * v.maxRootDirEntryCount < 2 ^ 16 ∧ c - 2 < 2 ^ 8 ∧
        clusterLBA v.toBPB c < 2 ^ 16 ∧
        clusterLBA v.toBPB c / v.sectorsPerTrack % v.numberHeads < 2 ^ 8 ∧
        clusterLBA v.toBPB c / v.sectorsPerTrack / v.numberHeads < 2 ^ 8 := by
  obtain ⟨hle, heq⟩ := cluster2Logical_le v hlow hhigh
  rw [sectorRead_eq]
  have hdiv := chsSector_divisions v.sectorsPerTrack v.numberHeads (cluster2Logical v.toBPB c)
  have hcyl := Nat.mod_le (cluster2Logical v.toBPB c / v.sectorsPerTrack / v.numberHeads) (2 ^ 8)
  have hhead := Nat.mod_le (cluster2Logical v.toBPB c / v.sectorsPerTrack % v.numberHeads) (2 ^ 8)
  have hchs := chsSector_eq_iff (s := cluster2Logical v.toBPB c % v.sectorsPerTrack + 1) v.track_pos
    v.heads_pos hcyl hhead
  have hchs_le := chsSector_le (p := v.sectorsPerTrack) (n := v.numberHeads)
    (s := cluster2Logical v.toBPB c % v.sectorsPerTrack + 1) hcyl hhead
  rw [hdiv] at hchs hchs_le
  constructor
  · intro h
    have hlogical : cluster2Logical v.toBPB c = clusterLBA v.toBPB c := by omega
    rw [hlogical] at hchs h
    obtain ⟨hroot, hcluster, hsector⟩ := heq.mp hlogical
    obtain ⟨hc, hh⟩ := hchs.mp h
    exact ⟨hroot, hcluster, hsector, by omega, by omega⟩
  · rintro ⟨hroot, hcluster, hsector, hh, hc⟩
    have hlogical := heq.mpr ⟨hroot, hcluster, hsector⟩
    rw [hlogical] at hchs ⊢
    exact hchs.mpr ⟨Nat.mod_eq_of_lt hc, Nat.mod_eq_of_lt hh⟩

end Geometry

section Run
variable {v : Volume} {fat : ByteMem} {disk : ℕ → ByteMem}

theorem FATLoaded.readWord {mem : ByteMem} (hfat : FATLoaded v.toBPB fat mem) {i : ℕ}
    (hi : i + 1 < 512 * v.sectorsPerFAT) : readWord mem (fatBuffer + i) = readWord fat i := by
  unfold ByteMemory.readWord
  rw [hfat _ (by omega), Nat.add_assoc, hfat _ hi]

/-- The loader reads the entries of the table at `FAT_BUFFER`, whatever is there. -/
theorem fatEntry_at {s : Loader} (hlow : 3 * s.nextCluster < 2 ^ 16) :
    fatEntry s = entry (fun i => s.mem (fatBuffer + i)) s.nextCluster := by
  have hax : s.nextCluster * 3 % 2 ^ 16 = 3 * s.nextCluster := by omega
  have hparity : 3 * s.nextCluster % 2 = s.nextCluster % 2 := by omega
  unfold fatEntry entry
  rw [fatNybblesPerEntry]
  simp only [hax, hparity, Nat.shiftRight_eq_div_pow, pow_one]
  rw [show 0x0FFF = 2 ^ 12 - 1 from rfl, and_lowMask]
  rfl

theorem fatEntry_eq {s : Loader} (hfat : FATLoaded v.toBPB fat s.mem)
    (htabled : 3 * s.nextCluster / 2 + 1 < 512 * v.sectorsPerFAT) :
    fatEntry s = entry fat s.nextCluster := by
  have hbelow := v.fat_fits
  simp only [fatBuffer, stackBottom] at hbelow
  rw [fatEntry_at (by omega)]
  exact entry_congr (hfat.readWord htabled)

/-- A pass reads the cluster into the buffer and moves it from there. -/
theorem loadCluster_eq
    (hbuffer : fatBuffer + 512 * (v.sectorsPerFAT + v.sectorsPerCluster) ≤ stackBottom) {s : Loader}
    (hptr : firstMegabyte ≤ s.memoryPointer)
    (hfits : s.memoryPointer + 512 * v.sectorsPerCluster ≤ wordSize) {m : ByteMem}
    (hm : m = blit (bufferAddress v.toBPB) (512 * v.sectorsPerCluster)
      (sectorByte disk (sectorRead v.toBPB s.nextCluster)) s.mem) :
    loadCluster v.toBPB disk s = some (followChain
      ⟨blit s.memoryPointer (512 * v.sectorsPerCluster) (fun i => m (bufferAddress v.toBPB + i)) m,
        s.nextCluster, wadd s.memoryPointer (512 * v.sectorsPerCluster), s.success⟩) := by
  have hbytes := bytesPerCluster_eq v hbuffer
  have haddress := bufferAddress_eq v
  simp only [fatBuffer, stackBottom, firstMegabyte] at hbuffer hptr
  rw [fatBuffer] at haddress
  have hread : readCluster v.toBPB disk s = some { s with mem := m } := by
    rw [hm]
    refine if_neg ?_
    rw [haddress, stackBottom]
    omega
  have hunits : 4 * ((512 * v.sectorsPerCluster) >>> 2) = 512 * v.sectorsPerCluster := by
    rw [Nat.shiftRight_eq_div_pow]
    omega
  have hcopy : copyUp 4 ((512 * v.sectorsPerCluster) >>> 2) (bufferAddress v.toBPB) s.memoryPointer m =
      blit s.memoryPointer (512 * v.sectorsPerCluster) (fun i => m (bufferAddress v.toBPB + i)) m := by
    have h := @copyUp_eq 4 ((512 * v.sectorsPerCluster) >>> 2) (bufferAddress v.toBPB) s.memoryPointer m
      (by decide)
    rw [hunits] at h
    exact h (by rw [wordSize_eq]; omega) hfits (by omega)
  rw [loadCluster, hread, Option.map_some, moveCluster]
  simp only [hbytes, hcopy]

theorem loadCluster_spec
    (hbuffer : fatBuffer + 512 * (v.sectorsPerFAT + v.sectorsPerCluster) ≤ stackBottom) {s : Loader}
    (hfat : FATLoaded v.toBPB fat s.mem) (hptr : firstMegabyte ≤ s.memoryPointer)
    (hfits : s.memoryPointer + 512 * v.sectorsPerCluster ≤ wordSize) :
    ∃ mem, loadCluster v.toBPB disk s = some (followChain
        ⟨mem, s.nextCluster, wadd s.memoryPointer (512 * v.sectorsPerCluster), s.success⟩) ∧
      FATLoaded v.toBPB fat mem ∧
      (∀ j < 512 * v.sectorsPerCluster,
        mem (s.memoryPointer + j) = sectorByte disk (sectorRead v.toBPB s.nextCluster) j) ∧
      ∀ a, firstMegabyte ≤ a → a < s.memoryPointer → mem a = s.mem a := by
  have hpass : loadCluster v.toBPB disk s = _ := loadCluster_eq hbuffer hptr hfits rfl
  have haddress := bufferAddress_eq v
  simp only [fatBuffer, stackBottom, firstMegabyte] at hbuffer hptr
  rw [fatBuffer] at haddress
  refine ⟨_, hpass, fun i hi => ?_, fun j hj => ?_, fun a ha hlt => ?_⟩
  · rw [fatBuffer, blit_outside (by omega), blit_outside (by omega)]
    exact hfat i hi
  · rw [blit_inside hj, blit_inside hj]
  · rw [firstMegabyte] at ha
    rw [blit_outside (Or.inl hlt), blit_outside (by omega)]

theorem Holds.cons {lba : ℕ → ℕ} {dest c : ℕ} {cs : List ℕ} {mem : ByteMem}
    (h0 : ∀ j < 512 * v.sectorsPerCluster, mem (dest + j) = sectorByte disk (lba c) j)
    (h : Holds v.toBPB disk lba (dest + 512 * v.sectorsPerCluster) cs mem) :
    Holds v.toBPB disk lba dest (c :: cs) mem := by
  intro k hk j hj
  cases k with
  | zero => exact h0 j hj
  | succ k =>
    have hsame : dest + 512 * v.sectorsPerCluster * (k + 1) + j =
        dest + 512 * v.sectorsPerCluster + 512 * v.sectorsPerCluster * k + j := by
      rw [Nat.mul_succ]
      omega
    rw [hsame]
    exact h k (Nat.lt_of_succ_lt_succ hk) j hj

/-- The loop of `loadFile` ends at the end of the chain, whatever the sectors that it reads. -/
theorem loadFile_run
    (hbuffer : fatBuffer + 512 * (v.sectorsPerFAT + v.sectorsPerCluster) ≤ stackBottom) {cs : List ℕ}
    {s : Loader} (hfat : FATLoaded v.toBPB fat s.mem) (hsuccess : s.success = false)
    (hchain : Chain (entry fat) (fatEndOfCluster ≤ ·) s.nextCluster cs)
    (hhigh : ∀ d ∈ s.nextCluster :: cs, d ≤ 0xFEF)
    (htabled : ∀ d ∈ s.nextCluster :: cs, 3 * d / 2 + 1 < 512 * v.sectorsPerFAT)
    (hptr : firstMegabyte ≤ s.memoryPointer)
    (hfits : s.memoryPointer + 512 * v.sectorsPerCluster * (cs.length + 1) ≤ wordSize) :
    ∃ t, doLoop (loadCluster v.toBPB disk) (fun s => !s.success) (cs.length + 1) s = some t ∧
      Holds v.toBPB disk (sectorRead v.toBPB) s.memoryPointer (s.nextCluster :: cs) t.mem ∧
      ∀ a, firstMegabyte ≤ a → a < s.memoryPointer → t.mem a = s.mem a := by
  have hpos := v.cluster_pos
  induction cs generalizing s with
  | nil =>
    obtain ⟨mem, hpass, hfat', hread, hkeep⟩ := @loadCluster_spec _ _ disk hbuffer _ hfat hptr
      (by simpa using hfits)
    have hentry := fatEntry_eq (s := ⟨mem, s.nextCluster,
      wadd s.memoryPointer (512 * v.sectorsPerCluster), s.success⟩) hfat'
      (htabled _ (List.mem_cons_self ..))
    rw [followChain, if_pos (hentry ▸ hchain)] at hpass
    exact ⟨_, doLoop_stop hpass rfl 0, Holds.cons hread fun k hk => absurd hk (Nat.not_lt_zero k), hkeep⟩
  | cons d ds ih =>
    rw [List.length_cons, Nat.mul_succ] at hfits
    have hmul : 512 * v.sectorsPerCluster ≤ 512 * v.sectorsPerCluster * (ds.length + 1) :=
      Nat.le_mul_of_pos_right _ (Nat.succ_pos _)
    obtain ⟨mem, hpass, hfat', hread, hkeep⟩ := @loadCluster_spec _ _ disk hbuffer _ hfat hptr
      (by omega)
    have hentry := fatEntry_eq (s := ⟨mem, s.nextCluster,
      wadd s.memoryPointer (512 * v.sectorsPerCluster), s.success⟩) hfat'
      (htabled _ (List.mem_cons_self ..))
    obtain ⟨hnext, hrest⟩ := hchain
    have hd := hhigh d (List.mem_cons_of_mem _ (List.mem_cons_self ..))
    have hlink : fatEntry ⟨mem, s.nextCluster, wadd s.memoryPointer (512 * v.sectorsPerCluster),
        s.success⟩ = d := hentry.trans hnext
    have hwadd : wadd s.memoryPointer (512 * v.sectorsPerCluster) =
        s.memoryPointer + 512 * v.sectorsPerCluster := wadd_of_lt (by omega)
    rw [followChain, if_neg (by rw [hlink, fatEndOfCluster]; omega), hlink, hwadd] at hpass
    obtain ⟨t, hrun, hholds, hbelow⟩ := ih (s := ⟨mem, d, s.memoryPointer + 512 * v.sectorsPerCluster,
      s.success⟩) hfat' hsuccess hrest (fun e he => hhigh e (List.mem_cons_of_mem _ he))
      (fun e he => htabled e (List.mem_cons_of_mem _ he)) (by simp only; omega) (by simp only; omega)
    simp only at hbelow hholds
    refine ⟨t, ?_, Holds.cons (fun j hj => ?_) hholds, fun a ha hlt => ?_⟩
    · rw [List.length_cons, doLoop_pass hpass (by simp [hsuccess])]
      exact hrun
    · rw [hbelow _ (by omega) (by omega)]
      exact hread j hj
    · rw [hbelow a ha (by omega)]
      exact hkeep a ha hlt

end Run

/-- A disk whose FAT is `fat` and whose sector `lba` holds `x` only. -/
def diskWith (v : BPB) (fat : ByteMem) (lba : ℕ) (x : UInt8) : ℕ → ByteMem :=
  fun l o => if l = lba then x else fat (512 * (l - v.reservedSectorCount) + o)

section Chain
variable {v : Volume} {fat : ByteMem} {c dest lba read : ℕ} {cs : List ℕ}

theorem diskWith_fat (hlba : v.reservedSectorCount + v.sectorsPerFAT ≤ lba) (x : UInt8) :
    DiskHoldsFAT v.toBPB fat (diskWith v.toBPB fat lba x) := by
  intro i hi
  have hne : v.reservedSectorCount + i / 512 ≠ lba := by omega
  unfold sectorByte diskWith
  rw [if_neg hne, Nat.add_sub_cancel_left, Nat.div_add_mod]

theorem exists_disk (hlba : v.reservedSectorCount + v.sectorsPerFAT ≤ lba) (hne : read ≠ lba) :
    ∃ disk, DiskHoldsFAT v.toBPB fat disk ∧ sectorByte disk read 0 ≠ sectorByte disk lba 0 := by
  obtain ⟨x, hx⟩ : ∃ x : UInt8, fat (512 * (read - v.reservedSectorCount)) ≠ x := by
    by_cases h : fat (512 * (read - v.reservedSectorCount)) = 0
    · exact ⟨1, by rw [h]; decide⟩
    · exact ⟨0, h⟩
  refine ⟨diskWith v.toBPB fat lba x, diskWith_fat hlba x, ?_⟩
  change (if read = lba then x else _) ≠ (if lba = lba then x else _)
  rw [if_neg hne, if_pos rfl]
  exact hx

theorem clusterLBA_ge (c : ℕ) : v.reservedSectorCount + v.sectorsPerFAT ≤ clusterLBA v.toBPB c := by
  unfold clusterLBA
  omega

theorem loadFile_none
    (hbuffer : ¬ fatBuffer + 512 * (v.sectorsPerFAT + v.sectorsPerCluster) ≤ stackBottom)
    (disk : ℕ → ByteMem) (fuel : ℕ) (mem : ByteMem) : loadFile v.toBPB disk fuel c dest mem = none := by
  have haddress := bufferAddress_eq v
  have hfits := v.fat_fits
  simp only [fatBuffer, stackBottom] at hbuffer haddress hfits
  have hread : readCluster v.toBPB disk ⟨mem, c, dest, false⟩ = none := by
    refine if_pos ?_
    rw [haddress, stackBottom, stackTop]
    omega
  rw [loadFile, doLoop, loadCluster, hread]
  rfl

theorem loadFile_chain (hchain : FileChain v fat c cs) (hdest : firstMegabyte ≤ dest)
    (hfits : dest + 512 * v.sectorsPerCluster * (cs.length + 1) ≤ wordSize)
    (hbuffer : fatBuffer + 512 * (v.sectorsPerFAT + v.sectorsPerCluster) ≤ stackBottom)
    (disk : ℕ → ByteMem) {mem : ByteMem} (hfat : FATLoaded v.toBPB fat mem) :
    ∃ t, loadFile v.toBPB disk (cs.length + 1) c dest mem = some t ∧
      Holds v.toBPB disk (sectorRead v.toBPB) dest (c :: cs) t.mem := by
  obtain ⟨t, ht, hholds, _⟩ := @loadFile_run v fat disk hbuffer cs ⟨mem, c, dest, false⟩ hfat rfl
    hchain.chain hchain.high hchain.tabled hdest hfits
  exact ⟨t, ht, hholds⟩

theorem fatLoaded_shift (v : BPB) (fat : ByteMem) : FATLoaded v fat fun a => fat (a - fatBuffer) :=
  fun _ _ => congrArg fat (Nat.add_sub_cancel_left ..)

theorem LoadsFile.buffer (h : LoadsFile v fat dest c cs) :
    fatBuffer + 512 * (v.sectorsPerFAT + v.sectorsPerCluster) ≤ stackBottom := by
  by_contra hbuffer
  obtain ⟨fuel, t, ht, _⟩ := h _ _ (diskWith_fat (clusterLBA_ge c) 0) (fatLoaded_shift _ fat)
  rw [loadFile_none hbuffer] at ht
  cases ht

theorem LoadsFile.sectorRead (h : LoadsFile v fat dest c cs) (hchain : FileChain v fat c cs)
    (hdest : firstMegabyte ≤ dest)
    (hfits : dest + 512 * v.sectorsPerCluster * (cs.length + 1) ≤ wordSize) :
    ∀ d ∈ c :: cs, sectorRead v.toBPB d = clusterLBA v.toBPB d := by
  intro d hd
  by_contra hne
  obtain ⟨disk, hdisk, hbyte⟩ := @exists_disk v fat _ _ (clusterLBA_ge d) hne
  obtain ⟨fuel, t, ht, hholds⟩ := h disk _ hdisk (fatLoaded_shift _ fat)
  obtain ⟨t', ht', hholds'⟩ := loadFile_chain hchain hdest hfits h.buffer disk (fatLoaded_shift _ fat)
  cases doLoop_unique ht ht'
  obtain ⟨k, hk, rfl⟩ := List.getElem_of_mem hd
  have hpos : 0 < 512 * v.sectorsPerCluster := Nat.mul_pos (by decide) v.cluster_pos
  exact hbyte ((hholds' k hk 0 hpos).symm.trans (hholds k hk 0 hpos))

/-- `loadFile` loads every chain that its arithmetic and its buffer can take, and no other. -/
theorem loadsFile_iff (v : Volume) (fat : ByteMem) (dest c : ℕ) (cs : List ℕ)
    (hchain : FileChain v fat c cs) (hdest : firstMegabyte ≤ dest)
    (hfits : dest + 512 * v.sectorsPerCluster * (cs.length + 1) ≤ wordSize) :
    LoadsFile v fat dest c cs ↔ WithinReach v.toBPB (c :: cs) := by
  have hexact : ∀ d ∈ c :: cs, _ := fun d hd => sectorRead_eq_iff v (hchain.low d hd) (hchain.high d hd)
  constructor
  · intro h
    have hsector := h.sectorRead hchain hdest hfits
    have hparts : ∀ d ∈ c :: cs, _ := fun d hd => (hexact d hd).mp (hsector d hd)
    exact ⟨h.buffer, (hparts c (List.mem_cons_self ..)).1, fun d hd => (hparts d hd).2.1,
      fun d hd => (hparts d hd).2.2.1, fun d hd => (hparts d hd).2.2.2.1, fun d hd => (hparts d hd).2.2.2.2⟩
  · intro h disk mem _ hfat
    obtain ⟨t, ht, hholds⟩ := loadFile_chain hchain hdest hfits h.buffer disk hfat
    refine ⟨_, t, ht, fun k hk j hj => ?_⟩
    have hd := List.getElem_mem hk
    rw [hholds k hk j hj, (hexact _ hd).mpr
      ⟨h.rootDir, h.cluster _ hd, h.sector _ hd, h.head _ hd, h.track _ hd⟩]

end Chain

def floppy : Volume where
  bytesPerSector := 0x200
  sectorsPerCluster := 1
  reservedSectorCount := 1
  maxRootDirEntryCount := 0xE0
  totalSectors := 0xB40
  sectorsPerFAT := 9
  sectorsPerTrack := 0x12
  numberHeads := 2
  sector512 := rfl
  cluster_pos := by decide
  cluster_byte := by decide
  track_pos := by decide
  track_le := by decide
  heads_pos := by decide
  fat_fits := by decide

def fullFAT : ByteMem := fun _ => 0xFF

theorem fileChain_single {c : ℕ} (hlow : 2 ≤ c) (hhigh : c ≤ 0xFEF) (hinside : c + 31 < 0xB40) :
    FileChain floppy fullFAT c [] := by
  have hword : readWord fullFAT (3 * c / 2) = 0xFFFF := by
    unfold readWord fullFAT
    decide
  have hentry : entry fullFAT c = 0xFFF := by
    rw [entry, hword, ite_self]
  refine ⟨?_, List.nodup_cons.mpr ⟨List.not_mem_nil, List.nodup_nil⟩, ?_, ?_, ?_, ?_⟩
  · change fatEndOfCluster ≤ entry fullFAT c
    rw [hentry]
    decide
  all_goals
    intro d hd
    cases List.mem_singleton.mp hd
  · exact hlow
  · exact hhigh
  · change 1 + 2 * 9 + 0x20 * 0xE0 / 512 + (c - 2) * 1 + 1 ≤ 0xB40
    omega
  · change 3 * c / 2 + 1 < 512 * 9
    omega

/-- Cluster 3 comes after cluster 2 and ends the chain. -/
def pairFAT : ByteMem := fun i => if i = 3 then 0x03 else if i = 4 then 0xF0 else if i = 5 then 0xFF else 0

theorem fileChain_pair : FileChain floppy pairFAT 2 [3] where
  chain := ⟨by decide, show fatEndOfCluster ≤ entry pairFAT 3 by decide⟩
  distinct := by decide
  low := by decide
  high := by decide
  inside := by decide
  tabled := by decide

theorem loadsFile_floppy : LoadsFile floppy pairFAT 0x100000 2 [3] := by
  refine (loadsFile_iff floppy pairFAT 0x100000 2 [3] fileChain_pair (by decide) (by decide)).mpr ?_
  constructor <;> decide

/-- Cluster 258 of a floppy is read from the place of cluster 2. -/
theorem loadsFile_fails : FileChain floppy fullFAT 258 [] ∧ ¬ LoadsFile floppy fullFAT 0x100000 258 [] := by
  have hchain : FileChain floppy fullFAT 258 [] := fileChain_single (by decide) (by decide) (by decide)
  refine ⟨hchain, fun h => ?_⟩
  have hread := h.sectorRead hchain (by decide) (by decide) 258 (List.mem_cons_self ..)
  exact absurd hread (by decide)

end Ktux.LoadFile
