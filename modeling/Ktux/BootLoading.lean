import Ktux.DirectoryLookup
import Ktux.PrepareKernel

set_option autoImplicit false

/-!
# Loading the kernel

`kloaderLoadKernel` and the part of `kloaderMain` around it: the root directory, the search, the FAT, the file,
its ELF header and the image, one after the other. Every BIOS read succeeds at once: a read that is repeated
prints `!` or another mark, and one that fails five times ends in `kloaderDiskError`, which does not return.
Memory here is what is read and moved, without the loader's variables, its stack and the text screen.
-/
namespace Ktux.BootLoading
open Words Loops ByteMemory Fat12 LoadFile
open DirectoryLookup hiding floppy
open PrepareKernel hiding firstMegabyte

@[simp] def errLoadRoot : ℕ := 1
@[simp] def errNoFile : ℕ := 2
@[simp] def errLoadFAT : ℕ := 3
@[simp] def errLoadKernel : ℕ := 4
@[simp] def errLastError : ℕ := 10
@[simp] def kernelPhysical : ℕ := 0x100000
@[simp] def bootstubAddress : ℕ := 0x8000

def msgDot : String := "."
def msgError : String := "!"
def msgLoadFindError : String := "Failed to find kernel file"
def msgParseELFError : String := "Kernel image is not a valid executable ELF binary"
def msgLoadingKernel : String := "Loading kernel"
/-- What `kloaderPrintCrLf` does. -/
def crLf : String := "\r\n"

/-- Sectors from the logical one in AX on, as many as AL says. The loops that repeat a failed read are those of
`DiskRetry`. -/
def readSectors (v : BPB) (disk : ℕ → ByteMem) (ax al buffer : ℕ) (mem : ByteMem) : Option ByteMem :=
  let chs := lba2chs v ax
  if buffer < stackTop ∧ stackBottom < buffer + 512 * al then none
  else some (blit buffer (512 * al) (sectorByte disk (int13Sector v chs.track chs.sector chs.head)) mem)

def loadRootDirectory (v : BPB) (disk : ℕ → ByteMem) (mem : ByteMem) : Option ByteMem :=
  readSectors v disk ((v.reservedSectorCount + v.sectorsPerFAT + v.sectorsPerFAT) % 2 ^ 16)
    ((computeVolumeInfo v).rootDirSectorCount % 2 ^ 8) rootDirBuffer mem

def loadFAT (v : BPB) (disk : ℕ → ByteMem) (mem : ByteMem) : Option ByteMem :=
  readSectors v disk v.reservedSectorCount (v.sectorsPerFAT % 2 ^ 8) fatBuffer mem

/-- `loadFile` with the bytes that it counts, in 16 bits, and what it prints. -/
structure Progress extends Loader where
  bytesRead : ℕ
  printed : List String

def showCluster (v : BPB) (disk : ℕ → ByteMem) (s : Progress) : Option Progress :=
  (loadCluster v disk s.toLoader).map fun l =>
    let bytesRead := (s.bytesRead + (computeVolumeInfo v).bytesPerCluster) % 2 ^ 16
    { toLoader := l
      bytesRead := bytesRead
      printed := if bytesRead &&& 0x1000 = 0 then s.printed ++ [msgDot] else s.printed }

def showFile (v : BPB) (disk : ℕ → ByteMem) (fuel startingCluster memoryLocation : ℕ) (mem : ByteMem) :
    Option Progress :=
  doLoop (showCluster v disk) (fun s => !s.success) fuel ⟨⟨mem, startingCluster, memoryLocation, false⟩, 0, []⟩

/-- The value returned in EAX, and what has been printed. -/
structure Returned where
  eax : ℕ
  mem : ByteMem
  printed : List String

def failed (eax : ℕ) (message : String) (mem : ByteMem) (printed : List String) : Returned :=
  ⟨eax, mem, printed ++ [msgError, crLf, message, crLf]⟩

/-- The end of the kernel is told from an error code by its size. -/
def checkKernel (fuel pKernelAddress : ℕ) (mem : ByteMem) (printed : List String) : Option Returned :=
  match parseELFHeader pKernelAddress mem with
  | .error eax => some (failed eax msgParseELFError mem printed)
  | .ok (kernelEnd, k) =>
    if kernelEnd ≤ errLastError then some (failed kernelEnd msgParseELFError mem printed)
    else
      (prepareKernel fuel pKernelAddress k ⟨mem, []⟩).map fun s =>
        ⟨kernelEnd, s.bytes, printed ++ [msgDot]⟩

def loadFound (v : BPB) (disk : ℕ → ByteMem) (fuel startingCluster pKernelAddress : ℕ) (mem : ByteMem)
    (printed : List String) : Option Returned := do
  let mem ← loadFAT v disk mem
  let s ← showFile v disk fuel startingCluster pKernelAddress mem
  checkKernel fuel pKernelAddress s.mem (printed ++ [msgDot, msgDot] ++ s.printed ++ [msgDot])

/-- A cluster number is negative from `2^15` on. -/
def kloaderLoadKernel (v : BPB) (disk : ℕ → ByteMem) (fuel : ℕ) (filename : ℕ → UInt8) (pKernelAddress : ℕ)
    (mem : ByteMem) : Option Returned := do
  let mem ← loadRootDirectory v disk mem
  let s ← findFile v fuel filename mem 0 0
  if 2 ^ 15 ≤ s.returned then some (failed errNoFile msgLoadFindError mem [msgDot])
  else loadFound v disk fuel s.returned pKernelAddress mem [msgDot]

/-- The eleven characters of "KTUXKRNL   ". -/
def kernelFilename (j : ℕ) : UInt8 := [75, 84, 85, 88, 75, 82, 78, 76, 32, 32, 32].getD j 0

def msgNoRoot : String := "The root directory could not be read"
def msgNoFAT : String := "The FAT could not be read"
def msgNoFile1 : String := " could not be found"
/-- It has no zero byte of its own and is printed with `msgNoFile1` behind it. -/
def msgKernelFile : String := "Ktux kernel file 'KTUXKRNL'" ++ msgNoFile1
def msgNoFile2 : String := "Please verify it exists in the root directory"
def msgBadFile : String := " could not be read"
def msgNumSegments : String := " does not contain 2 ELF segments"
def msgSegmentLayout : String := " has incorrect ELF segment layout"
def msgSegmentAlign : String := " has incorrectly aligned ELF segments"
def msgCorruption : String := "Possible filesystem corruption on boot device"

/-- AX is the word at `bp + 18`, with the eight words of `pusha` below it. From `.3` on a case runs into the
next. -/
def displayLoadError (registers : Fin 8 → ℕ) (stack : List ℕ) : List String :=
  let ax := (List.ofFn registers ++ stack).getD (18 / 2) 0
  if ax = errLoadRoot then [msgNoRoot, msgCorruption]
  else if ax = errNoFile then [msgKernelFile, msgNoFile1, msgNoFile2]
  else if ax = errLoadFAT then [msgNoFAT, msgCorruption]
  else
    (if ax = errLoadKernel then [msgKernelFile, msgBadFile, msgCorruption] else []) ++
      (if ax = errNotExecELF then [msgKernelFile, msgBadFile] else []) ++
      (if ax = errNumSegments then [msgKernelFile, msgNumSegments] else []) ++
      (if ax = errSegmentLayout then [msgKernelFile, msgSegmentLayout] else []) ++
      if ax = errSegmentAlign then [msgKernelFile, msgSegmentAlign] else []

/-- What has been printed, and the end of the kernel with the memory to enter it in; without these the machine
hangs. -/
structure Started where
  printed : List String
  kernel : Option (ℕ × ByteMem)

/-- `kloaderMain` from `msgLoadingKernel` on, with `kernelFilename` at `name`. The arguments are left on the
stack, and `displayLoadError` is jumped to. -/
def loadPhase (v : BPB) (disk : ℕ → ByteMem) (fuel : ℕ) (registers : Fin 8 → ℕ) (name : ℕ) (stack : List ℕ)
    (mem : ByteMem) : Option Started :=
  (kloaderLoadKernel v disk fuel kernelFilename kernelPhysical mem).map fun r =>
    if errLastError < r.eax then ⟨msgLoadingKernel :: r.printed, some (r.eax, r.mem)⟩
    else
      ⟨msgLoadingKernel :: r.printed ++ displayLoadError registers
        (r.eax % 2 ^ 16 :: name :: kernelPhysical % 2 ^ 16 :: kernelPhysical / 2 ^ 16 :: stack), none⟩

/-- A root directory of `n` entries on the disk; the name that is looked for is neither empty nor deleted. -/
structure DirectoryOnDisk (v : Volume) (disk : ℕ → ByteMem) (name dir : ℕ → UInt8) (n : ℕ) : Prop where
  heads : v.numberHeads ≤ 2 ^ 8
  sector : v.reservedSectorCount + 2 * v.sectorsPerFAT < 2 ^ 16
  track : (v.reservedSectorCount + 2 * v.sectorsPerFAT) / v.sectorsPerTrack / v.numberHeads < 2 ^ 8
  entries : 32 * n = v.bytesPerSector * (computeVolumeInfo v.toBPB).rootDirSectorCount
  dirFits : rootDirBuffer + 32 * n ≤ stackBottom
  directory : ∀ a < 32 * n, sectorByte disk (v.reservedSectorCount + 2 * v.sectorsPerFAT) a = dir a
  some_entry : 0 < n
  name_ne_zero : name 0 ≠ 0
  name_ne_deleted : name 0 ≠ 0xE5

/-- Root directory and FAT lead to the clusters of a file; no entry before it agrees with its name in ten
characters. -/
structure FileOnDisk (v : Volume) (disk : ℕ → ByteMem) (name dir : ℕ → UInt8) (fat file : ByteMem) (n i : ℕ)
    (cs : List ℕ) : Prop extends DirectoryOnDisk v disk name dir n where
  table : DiskHoldsFAT v.toBPB fat disk
  named : Named name dir n i
  apart : ∀ k < i, ¬Agrees name dir 10 k
  chain : FileChain v fat (cluster dir i) cs
  reach : WithinReach v.toBPB (cluster dir i :: cs)
  bytes : Holds v.toBPB disk (clusterLBA v.toBPB) 0 (cluster dir i :: cs) file

/-- The file at `p`. -/
def placed (p : ℕ) (file : ByteMem) : ByteMem := fun a => file (a - p)

/-- `size` bytes of a file that the loader takes for a kernel, with headers and segments inside, and that
`prepareKernel` can lay out. -/
structure Bootable (p size : ℕ) (file : ByteMem) (kernelEnd : ℕ) (k : KernelImage) : Prop where
  parsed : parseELFHeader p (placed p file) = .ok (kernelEnd, k)
  headers : readDword file elfProgramHeader + 0x40 ≤ size
  segments : k.kernelDataOffset + k.kernelDataFileSize ≤ size
  loadable : Loadable p k
  movable : Movable p k (placed p file)
  fits : p + size < wordSize
  marked : errLastError < kernelEnd

/-- Memory from `p` on is what the file's headers ask for from the virtual address of its code on. -/
structure KernelInPlace (p : ℕ) (k : KernelImage) (file mem : ByteMem) : Prop where
  code : ∀ i < k.kernelCodeFileSize, mem (p + i) = file (k.kernelCodeOffset + i)
  data : ∀ i < k.kernelDataMemSize, mem (p + (k.kernelDataVirtAddress - k.kernelCodeVirtAddress) + i) =
    if i < k.kernelDataFileSize then file (k.kernelDataOffset + i) else 0

section Reading
variable (v : Volume) {disk : ℕ → ByteMem} {lba count buffer : ℕ} {mem : ByteMem}

theorem firstSector_eq (hheads : v.numberHeads ≤ 2 ^ 8)
    (htrack : lba / v.sectorsPerTrack / v.numberHeads < 2 ^ 8) :
    int13Sector v.toBPB (lba2chs v.toBPB lba).track (lba2chs v.toBPB lba).sector (lba2chs v.toBPB lba).head =
      lba := by
  have hlt := Nat.mod_lt lba v.track_pos
  have hle := v.track_le
  have hhead := Nat.mod_lt (lba / v.sectorsPerTrack) v.heads_pos
  have hsector : (lba % v.sectorsPerTrack % 2 ^ 8 + 1) % 2 ^ 8 = lba % v.sectorsPerTrack + 1 := by omega
  have hhigh : (lba % v.sectorsPerTrack + 1) / 2 ^ 6 = 0 := by omega
  have hlow : (lba % v.sectorsPerTrack + 1) % 2 ^ 6 = lba % v.sectorsPerTrack + 1 := by omega
  unfold int13Sector lba2chs
  simp only [hsector, hhigh, hlow]
  rw [Nat.mod_eq_of_lt htrack, Nat.mod_eq_of_lt (a := lba / v.sectorsPerTrack % v.numberHeads) (by omega),
    Nat.mul_zero, Nat.add_zero, chsSector_divisions]

/-- A read of sectors that stays below the stack. -/
theorem readSectors_eq (hheads : v.numberHeads ≤ 2 ^ 8)
    (htrack : lba / v.sectorsPerTrack / v.numberHeads < 2 ^ 8) (hbelow : buffer + 512 * count ≤ stackBottom) :
    readSectors v.toBPB disk lba count buffer mem =
      some (blit buffer (512 * count) (sectorByte disk lba) mem) := by
  rw [readSectors]
  simp only [firstSector_eq v hheads htrack]
  refine if_neg fun h => ?_
  omega

end Reading

section Keeping
variable {v : Volume} {disk : ℕ → ByteMem} {mem : ByteMem}

/-- Nothing is read or moved to the addresses from the bottom of the stack up to the first megabyte, where the
loader is. -/
def KeepsLoader (mem m : ByteMem) : Prop := ∀ a, stackBottom ≤ a → a < firstMegabyte → m a = mem a

theorem KeepsLoader.trans {m u : ByteMem} (h : KeepsLoader mem m) (h' : KeepsLoader m u) : KeepsLoader mem u :=
  fun a ha hlt => (h' a ha hlt).trans (h a ha hlt)

theorem keepsLoader_below {buffer n : ℕ} {f : ℕ → UInt8} (hbelow : buffer + n ≤ stackBottom) :
    KeepsLoader mem (blit buffer n f mem) := fun _ ha _ => blit_outside (Or.inr (Nat.le_trans hbelow ha))

/-- With `passes` clusters to go, all that `loadFile` will write has room above the first megabyte. -/
structure Filling (v : BPB) (mem : ByteMem) (passes : ℕ) (s : Loader) : Prop where
  kept : KeepsLoader mem s.mem
  high : firstMegabyte ≤ s.memoryPointer
  room : s.memoryPointer + 512 * v.sectorsPerCluster * passes < wordSize

theorem followChain_mem (s : Loader) : (followChain s).mem = s.mem := by
  rw [followChain]
  split_ifs <;> rfl

theorem followChain_memoryPointer (s : Loader) : (followChain s).memoryPointer = s.memoryPointer := by
  rw [followChain]
  split_ifs <;> rfl

theorem Filling.pass (hbuffer : fatBuffer + 512 * (v.sectorsPerFAT + v.sectorsPerCluster) ≤ stackBottom)
    {n : ℕ} {s u : Loader} (h : Filling v.toBPB mem (n + 1) s) (hu : loadCluster v.toBPB disk s = some u) :
    Filling v.toBPB mem n u := by
  obtain ⟨hkept, hhigh, hroom⟩ := h
  rw [Nat.mul_succ] at hroom
  have hpass : loadCluster v.toBPB disk s = _ := loadCluster_eq hbuffer hhigh (by omega) rfl
  rw [hu] at hpass
  obtain rfl := Option.some.inj hpass
  have haddress := bufferAddress_eq v
  have hptr : wadd s.memoryPointer (512 * v.sectorsPerCluster) =
      s.memoryPointer + 512 * v.sectorsPerCluster := wadd_of_lt (by omega)
  refine ⟨fun a ha hlt => ?_, ?_, ?_⟩
  · rw [followChain_mem]
    simp only
    rw [blit_outside (Or.inl (Nat.lt_of_lt_of_le hlt hhigh))]
    refine (blit_outside (Or.inr ?_)).trans (hkept a ha hlt)
    rw [haddress]
    omega
  · rw [followChain_memoryPointer]
    simp only [hptr]
    omega
  · rw [followChain_memoryPointer]
    simp only [hptr]
    omega

/-- The run that prints is the silent one. -/
theorem showFile_toLoader (v : BPB) (disk : ℕ → ByteMem) (fuel c p : ℕ) (mem : ByteMem) :
    (showFile v disk fuel c p mem).map Progress.toLoader = loadFile v disk fuel c p mem := by
  have hpass : ∀ s, (showCluster v disk s).map Progress.toLoader = loadCluster v disk s.toLoader := by
    intro s
    rw [showCluster]
    cases loadCluster v disk s.toLoader <;> rfl
  exact doLoop_project (b := loadCluster v disk) (c := fun s : Loader => !s.success) Progress.toLoader
    (fun _ => rfl) hpass fuel _

/-- Nothing but the progress. -/
def Dots (printed : List String) : Prop := ∀ message ∈ printed, message = msgDot

theorem Dots.append {xs ys : List String} (h : Dots xs) (h' : Dots ys) : Dots (xs ++ ys) :=
  List.forall_mem_append.mpr ⟨h, h'⟩

theorem dots_one : Dots [msgDot] := by simp [Dots]

theorem showFile_dots {v : BPB} {fuel c p : ℕ} {t : Progress} (ht : showFile v disk fuel c p mem = some t) :
    Dots t.printed := by
  refine (doLoop_invariant (fun s : Progress => Dots s.printed) (fun s u hs hu => ?_) ?_ ht).1
  · obtain ⟨l, _, rfl⟩ := Option.map_eq_some_iff.mp hu
    simp only
    split_ifs
    · exact hs.append dots_one
    · exact hs
  · simp [Dots]

/-- A file with its chain in the table comes to its place, and the loader stays. -/
theorem showFile_chain (disk : ℕ → ByteMem) {fat : ByteMem} {c p : ℕ} {cs : List ℕ}
    (hchain : FileChain v fat c cs) (hhigh : firstMegabyte ≤ p)
    (hfits : p + 512 * v.sectorsPerCluster * (cs.length + 1) < wordSize)
    (hreach : WithinReach v.toBPB (c :: cs)) (hfat : FATLoaded v.toBPB fat mem) {fuel : ℕ}
    (hfuel : cs.length + 1 ≤ fuel) :
    ∃ t, showFile v.toBPB disk fuel c p mem = some t ∧
      Holds v.toBPB disk (clusterLBA v.toBPB) p (c :: cs) t.mem ∧ KeepsLoader mem t.mem ∧ Dots t.printed := by
  obtain ⟨l, hl, hholds⟩ := loadFile_chain hchain hhigh (Nat.le_of_lt hfits) hreach.buffer disk hfat
  have hkept : KeepsLoader mem l.mem := by
    obtain ⟨k, _, hfilling⟩ := doLoop_counted (Filling v.toBPB mem)
      (fun n s u hs hu => hs.pass hreach.buffer hu) ⟨fun _ _ _ => rfl, hhigh, hfits⟩ hl
    exact hfilling.kept
  have hrun := doLoop_mono hfuel hl
  rw [← loadFile, ← showFile_toLoader] at hrun
  obtain ⟨t, ht, rfl⟩ := Option.map_eq_some_iff.mp hrun
  refine ⟨t, ht, fun k hk j hj => ?_, hkept, showFile_dots ht⟩
  have hd := List.getElem_mem hk
  rw [hholds k hk j hj, (sectorRead_eq_iff v (hchain.low _ hd) (hchain.high _ hd)).mpr
    ⟨hreach.rootDir, hreach.cluster _ hd, hreach.sector _ hd, hreach.head _ hd, hreach.track _ hd⟩]

end Keeping

section Directory
variable {v : Volume} {disk : ℕ → ByteMem} {name dir : ℕ → UInt8} {fat file mem : ByteMem} {n i : ℕ}
  {cs : List ℕ}

theorem DirectoryOnDisk.loadRootDirectory (h : DirectoryOnDisk v disk name dir n) (mem : ByteMem) :
    ∃ m, loadRootDirectory v.toBPB disk mem = some m ∧ Loaded v.toBPB n name dir m ∧ KeepsLoader mem m := by
  have hlba := h.sector
  have hentries := h.entries
  have hfits := h.dirFits
  rw [v.sector512] at hentries
  rw [rootDirBuffer, stackBottom] at hfits
  have hcount : (computeVolumeInfo v.toBPB).rootDirSectorCount % 2 ^ 8 =
      (computeVolumeInfo v.toBPB).rootDirSectorCount := Nat.mod_eq_of_lt (by omega)
  have hstart : (v.reservedSectorCount + v.sectorsPerFAT + v.sectorsPerFAT) % 2 ^ 16 =
      v.reservedSectorCount + 2 * v.sectorsPerFAT := by omega
  have hread : BootLoading.loadRootDirectory v.toBPB disk mem = some (blit rootDirBuffer (32 * n)
      (sectorByte disk (v.reservedSectorCount + 2 * v.sectorsPerFAT)) mem) := by
    rw [BootLoading.loadRootDirectory, hcount, hstart, hentries]
    refine readSectors_eq v h.heads h.track ?_
    rw [← hentries]
    exact h.dirFits
  refine ⟨_, hread, ⟨h.entries, h.name_ne_zero, h.name_ne_deleted, fun a ha => ?_⟩, keepsLoader_below h.dirFits⟩
  rw [blit_inside ha]
  exact h.directory a ha

theorem FileOnDisk.loadFAT (h : FileOnDisk v disk name dir fat file n i cs) (mem : ByteMem) :
    ∃ m, loadFAT v.toBPB disk mem = some m ∧ FATLoaded v.toBPB fat m ∧ KeepsLoader mem m := by
  have hfits := v.fat_fits
  have hcount : v.sectorsPerFAT % 2 ^ 8 = v.sectorsPerFAT := by
    rw [fatBuffer, stackBottom] at hfits
    exact Nat.mod_eq_of_lt (by omega)
  have htrack : v.reservedSectorCount / v.sectorsPerTrack / v.numberHeads < 2 ^ 8 := by
    refine Nat.lt_of_le_of_lt ?_ h.track
    exact Nat.div_le_div_right (Nat.div_le_div_right (Nat.le_add_right _ _))
  have hread : BootLoading.loadFAT v.toBPB disk mem = some (blit fatBuffer (512 * v.sectorsPerFAT)
      (sectorByte disk v.reservedSectorCount) mem) := by
    rw [BootLoading.loadFAT, hcount]
    exact readSectors_eq v h.heads htrack hfits
  refine ⟨_, hread, fun a ha => ?_, keepsLoader_below hfits⟩
  rw [blit_inside ha]
  exact h.table a ha

/-- The search comes to the file, whose first cluster is no negative number. -/
theorem FileOnDisk.findFile (h : FileOnDisk v disk name dir fat file n i cs)
    (hmem : Loaded v.toBPB n name dir mem) :
    ∃ fuel s, findFile v.toBPB fuel name mem 0 0 = some s ∧ s.returned = cluster dir i ∧
      s.returned < 2 ^ 15 := by
  obtain ⟨fuel, s, hs, hnear, _⟩ := findFile_spec hmem h.some_entry 0 0
  have hreturned := hnear i (h.named.agrees_nearly h.apart)
  have hhigh := h.chain.high _ (List.mem_cons_self ..)
  exact ⟨fuel, s, hs, hreturned, by omega⟩

end Directory

section Headers
variable {p size : ℕ} {m m' : ByteMem}

theorem readWord_congr {a : ℕ} (h : ∀ i < 2, m (a + i) = m' (a + i)) : readWord m a = readWord m' a := by
  have h0 := h 0 (by decide)
  rw [Nat.add_zero] at h0
  rw [readWord, readWord, h0, h 1 (by decide)]

theorem readDword_congr {a : ℕ} (h : ∀ i < 4, m (a + i) = m' (a + i)) : readDword m a = readDword m' a := by
  have hlow : readWord m a = readWord m' a := readWord_congr fun i hi => h i (by omega)
  have hhigh : readWord m (a + 2) = readWord m' (a + 2) := by
    refine readWord_congr fun i hi => ?_
    rw [Nat.add_assoc]
    exact h _ (by omega)
  rw [readDword, readDword, hlow, hhigh]

theorem readProgramHeader_congr {esi : ℕ} (h : ∀ i < 0x20, m (esi + i) = m' (esi + i))
    (hfits : esi + 0x20 ≤ wordSize) : readProgramHeader m esi = readProgramHeader m' esi := by
  have hdword : ∀ x, x + 4 ≤ 0x20 → readDword m (wadd esi x) = readDword m' (wadd esi x) := by
    intro x hx
    rw [wadd_of_lt (by omega)]
    refine readDword_congr fun i hi => ?_
    rw [Nat.add_assoc]
    exact h _ (by omega)
  unfold readProgramHeader
  rw [hdword _ (by decide), hdword _ (by decide), hdword _ (by decide), hdword _ (by decide),
    hdword _ (by decide)]

/-- Only the file's own bytes count when its headers are inside. -/
theorem parseELFHeader_congr (hsame : ∀ i < size, m (p + i) = m' (p + i)) (hfits : p + size < wordSize)
    (hheader : 0x34 ≤ size) (htables : readDword m' (p + elfProgramHeader) + 0x40 ≤ size) :
    parseELFHeader p m = parseELFHeader p m' := by
  have hword : ∀ x, x + 2 ≤ size → readWord m (wadd p x) = readWord m' (wadd p x) := by
    intro x hx
    rw [wadd_of_lt (by omega)]
    refine readWord_congr fun i hi => ?_
    rw [Nat.add_assoc]
    exact hsame _ (by omega)
  have hdword : ∀ x, x + 4 ≤ size → readDword m (wadd p x) = readDword m' (wadd p x) := by
    intro x hx
    rw [wadd_of_lt (by omega)]
    refine readDword_congr fun i hi => ?_
    rw [Nat.add_assoc]
    exact hsame _ (by omega)
  have hmagic : readDword m p = readDword m' p := readDword_congr fun i hi => hsame i (by omega)
  rw [elfProgramHeader] at htables
  have hesi : wadd p (readDword m' (wadd p 0x1C)) = p + readDword m' (p + 0x1C) := by
    rw [wadd_of_lt (a := p) (b := 0x1C) (by omega), wadd_of_lt (by omega)]
  have hdata : wadd (p + readDword m' (p + 0x1C)) 0x20 = p + readDword m' (p + 0x1C) + 0x20 :=
    wadd_of_lt (by omega)
  have hsegment : ∀ x, x + 0x20 ≤ size →
      readProgramHeader m (p + x) = readProgramHeader m' (p + x) := by
    intro x hx
    refine readProgramHeader_congr (fun i hi => ?_) (by omega)
    rw [Nat.add_assoc]
    exact hsame _ (by omega)
  have hfirst := hsegment (readDword m' (p + 0x1C)) (by omega)
  have hsecond := hsegment (readDword m' (p + 0x1C) + 0x20) (by omega)
  rw [← Nat.add_assoc] at hsecond
  unfold parseELFHeader
  simp only [elfFileType, elfEntryPoint, elfNumSegments, elfProgramHeader, hmagic, hword 0x10 (by omega),
    hdword 0x18 (by omega), hdword 0x2C (by omega), hdword 0x1C (by omega), hesi, hdata, hfirst, hsecond]

end Headers

section Prepared
variable {p size kernelEnd fuel fuel' : ℕ} {k : KernelImage} {file m : ByteMem} {s t : Store}

theorem byteLoop_mono {body : Registers → Registers} {r : Registers} (hle : fuel ≤ fuel')
    (h : byteLoop body fuel r = some s) : byteLoop body fuel' r = some s := by
  obtain ⟨u, hu, rfl⟩ := Option.map_eq_some_iff.mp h
  exact Option.map_eq_some_iff.mpr ⟨u, doLoop_mono hle hu, rfl⟩

theorem prepareKernel_mono (hle : fuel ≤ fuel') (h : prepareKernel fuel p k s = some t) :
    prepareKernel fuel' p k s = some t := by
  simp only [prepareKernel, Option.bind_eq_bind] at h
  obtain ⟨a, ha, h⟩ := Option.bind_eq_some_iff.mp h
  obtain ⟨⟨d, b⟩, hb, h⟩ := Option.bind_eq_some_iff.mp h
  refine prepareKernel_stages (byteLoop_mono hle ha) (d := d) (u := b) ?_ (byteLoop_mono hle h)
  unfold moveDataSegment at hb ⊢
  split_ifs at hb ⊢
  · exact hb
  · obtain ⟨x, hx, hxb⟩ := Option.map_eq_some_iff.mp hb
    exact Option.map_eq_some_iff.mpr ⟨x, byteLoop_mono hle hx, hxb⟩

theorem not_overruns (h : Movable p k m) (hload : Loadable p k) : ¬Overruns k := by
  have hdistance := hload.distance
  rintro (heq | ⟨hne, hzero⟩)
  · exact h.bss heq
  · rw [hdistance] at hne
    exact (h.moved hne).1 hzero

theorem dataPlaced_below (h : Loadable p k) {a : ℕ} (ha : a < p) : dataPlaced p k m a = m a := by
  have hdistance := h.distance
  have himage := h.image_fits
  have hmem := h.mem_le
  rw [dataPlaced]
  split_ifs
  · exact blit_outside (Or.inl ha)
  · rw [copyUp_outside _ (by omega) (by omega)]
    exact blit_outside (Or.inl ha)

theorem placed_add (p : ℕ) (file : ByteMem) (i : ℕ) : placed p file (p + i) = file i := by
  rw [placed, Nat.add_sub_cancel_left]

theorem placed_readDword (p : ℕ) (file : ByteMem) (i : ℕ) :
    readDword (placed p file) (p + i) = readDword file i := by
  simp only [readDword, readWord, Nat.add_assoc, placed_add]

theorem Bootable.parse (h : Bootable p size file kernelEnd k) (hm : ∀ i < size, m (p + i) = file i) :
    parseELFHeader p m = .ok (kernelEnd, k) := by
  have hheaders := h.headers
  rw [← placed_readDword p file] at hheaders
  rw [← h.parsed]
  refine parseELFHeader_congr (fun i hi => ?_) h.fits (by omega) hheaders
  rw [hm i hi, placed_add]

/-- The image of a kernel that is in memory as in its file is laid out, and below it nothing changes. -/
theorem Bootable.prepare (h : Bootable p size file kernelEnd k) (hm : ∀ i < size, m (p + i) = file i) :
    ∃ s, prepareKernel wordSize p k ⟨m, []⟩ = some s ∧ KernelInPlace p k file s.bytes ∧
      ∀ a < p, s.bytes a = m a := by
  have hload := h.loadable
  have hmovable : Movable p k m := by
    refine ⟨h.movable.bss, fun hne => ⟨(h.movable.moved hne).1, fun d hd i hi => ?_⟩⟩
    have hfile := (h.movable.moved hne).2 d hd i hi
    have hsegments := h.segments
    rw [Nat.add_assoc, Nat.add_assoc, placed_add, placed_add] at hfile
    rw [Nat.add_assoc, Nat.add_assoc, hm _ (by omega), hm _ (by omega)]
    exact hfile
  obtain ⟨s, hs, _, hresult⟩ := hload.prepare m
  obtain ⟨hbytes, _⟩ := hresult (not_overruns hmovable hload)
  obtain ⟨_, fuel, t, ht, himage⟩ := (buildsImage_iff p kernelEnd k m (h.parse hm) hload).mpr hmovable
  obtain rfl := prepareKernel_unique hs ht
  refine ⟨s, hs, ⟨fun i hi => ?_, fun i hi => ?_⟩, fun a ha => ?_⟩
  · have hcode := himage.code (k.kernelCodeVirtAddress + i) (by omega) (by omega)
    rw [Nat.add_sub_cancel_left] at hcode
    have hfile := hload.file_order
    have hsegments := h.segments
    rw [hcode, Nat.add_assoc, hm _ (by omega)]
  · have hdata := himage.data (k.kernelDataVirtAddress + i) (by omega) (by omega)
    have hvirt := hload.virt_order
    have hsegments := h.segments
    rw [Nat.add_sub_cancel_left, show p + (k.kernelDataVirtAddress + i - k.kernelCodeVirtAddress) =
      p + (k.kernelDataVirtAddress - k.kernelCodeVirtAddress) + i by omega] at hdata
    rw [hdata]
    split_ifs with hin hin' hin'
    · rw [Nat.add_assoc, hm _ (by omega)]
    · omega
    · omega
    · rfl
  · rw [hbytes, blit_outside (by omega)]
    exact dataPlaced_below hload ha

theorem Bootable.checkKernel (h : Bootable p size file kernelEnd k) (hm : ∀ i < size, m (p + i) = file i)
    (hfuel : wordSize ≤ fuel) (printed : List String) :
    ∃ r, checkKernel fuel p m printed = some r ∧ r.eax = kernelEnd ∧ r.printed = printed ++ [msgDot] ∧
      KernelInPlace p k file r.mem ∧ ∀ a < p, r.mem a = m a := by
  obtain ⟨s, hs, hplace, hbelow⟩ := h.prepare hm
  have hmarked := h.marked
  refine ⟨⟨kernelEnd, s.bytes, printed ++ [msgDot]⟩, ?_, rfl, rfl, hplace, hbelow⟩
  rw [BootLoading.checkKernel, h.parse hm]
  simp only
  rw [if_neg (Nat.not_le.mpr hmarked), prepareKernel_mono hfuel hs, Option.map_some]

end Prepared

section Kernel
variable {v : Volume} {disk : ℕ → ByteMem} {name dir : ℕ → UInt8} {fat file : ByteMem} {n i : ℕ}
  {cs : List ℕ} {p kernelEnd : ℕ} {k : KernelImage}

/-- The bytes of the clusters one after the other. -/
theorem holds_bytes {lba : ℕ → ℕ} {cs : List ℕ} {m : ByteMem} (h : Holds v.toBPB disk lba p cs m)
    (hfile : Holds v.toBPB disk lba 0 cs file) {i : ℕ} (hi : i < 512 * v.sectorsPerCluster * cs.length) :
    m (p + i) = file i := by
  have hpos : 0 < 512 * v.sectorsPerCluster := Nat.mul_pos (by decide) v.cluster_pos
  have hk := Nat.div_lt_of_lt_mul hi
  have hj := Nat.mod_lt i hpos
  have hsplit := Nat.div_add_mod i (512 * v.sectorsPerCluster)
  have hmem := h _ hk _ hj
  rw [← hfile _ hk _ hj, Nat.add_assoc, hsplit, Nat.zero_add, hsplit] at hmem
  exact hmem

theorem FileOnDisk.loadFound (hdisk : FileOnDisk v disk name dir fat file n i cs)
    (hboot : Bootable p (512 * v.sectorsPerCluster * (cs.length + 1)) file kernelEnd k) {fuel : ℕ}
    (hlength : cs.length + 1 ≤ fuel) (hword : wordSize ≤ fuel) (mem : ByteMem) {printed : List String}
    (hprinted : Dots printed) :
    ∃ r, loadFound v.toBPB disk fuel (cluster dir i) p mem printed = some r ∧ r.eax = kernelEnd ∧
      KernelInPlace p k file r.mem ∧ KeepsLoader mem r.mem ∧ Dots r.printed := by
  obtain ⟨w, hw, hfat, hkept⟩ := hdisk.loadFAT mem
  have hhigh := hboot.loadable.above
  obtain ⟨t, ht, hholds, hkept', hdots⟩ := showFile_chain disk hdisk.chain hhigh hboot.fits hdisk.reach hfat
    hlength
  obtain ⟨r, hr, heax, hmessages, hplace, hbelow⟩ := hboot.checkKernel
    (fun i hi => holds_bytes hholds hdisk.bytes hi) hword (printed ++ [msgDot, msgDot] ++ t.printed ++ [msgDot])
  refine ⟨r, ?_, heax, hplace, (hkept.trans hkept').trans fun a _ hlt => hbelow a ?_, ?_⟩
  · rw [BootLoading.loadFound]
    simp only [Option.bind_eq_bind, hw, ht, Option.bind_some, hr]
  · exact Nat.lt_of_lt_of_le hlt hhigh
  · rw [hmessages]
    exact (((hprinted.append (dots_one.append dots_one)).append hdots).append dots_one).append dots_one

/-- A kernel that is on a disk without read errors and that `prepareKernel` can lay out is brought to its place.
Nothing is read or moved into the loader, and only the progress is printed. -/
theorem kernel_loaded (hdisk : FileOnDisk v disk name dir fat file n i cs)
    (hboot : Bootable p (512 * v.sectorsPerCluster * (cs.length + 1)) file kernelEnd k) (mem : ByteMem) :
    ∃ fuel r, kloaderLoadKernel v.toBPB disk fuel name p mem = some r ∧ r.eax = kernelEnd ∧
      KernelInPlace p k file r.mem ∧ KeepsLoader mem r.mem ∧ Dots r.printed := by
  obtain ⟨m, hm, hloaded, hkept⟩ := hdisk.loadRootDirectory mem
  obtain ⟨fuel, s, hs, hcluster, hlow⟩ := hdisk.findFile hloaded
  obtain ⟨enough, hfuel, hlength, hword⟩ : ∃ x, fuel ≤ x ∧ cs.length + 1 ≤ x ∧ wordSize ≤ x :=
    ⟨max fuel (max (cs.length + 1) wordSize), by omega, by omega, by omega⟩
  have hsearch : findFile v.toBPB enough name m 0 0 = some s := whileLoop_mono hfuel hs
  obtain ⟨r, hr, heax, hplace, hkept', hdots⟩ := hdisk.loadFound hboot hlength hword m dots_one
  refine ⟨enough, r, ?_, heax, hplace, hkept.trans hkept', hdots⟩
  rw [kloaderLoadKernel]
  simp only [Option.bind_eq_bind, hm, Option.bind_some, hsearch]
  rw [if_neg (Nat.not_le.mpr hlow), hcluster, hr]

end Kernel

section Failure
variable {v : BPB} {disk : ℕ → ByteMem} {fuel : ℕ} {mem : ByteMem}

/-- The error code is not what `displayLoadError` looks at. -/
theorem displayLoadError_none (registers : Fin 8 → ℕ) (code : ℕ) {name : ℕ} (hname : errLastError < name)
    (stack : List ℕ) : displayLoadError registers (code :: name :: stack) = [] := by
  have hax : (List.ofFn registers ++ code :: name :: stack).getD (18 / 2) 0 = name := by
    simp
  rw [errLastError] at hname
  unfold displayLoadError
  simp only [hax, errLoadRoot, errNoFile, errLoadFAT, errLoadKernel, errNotExecELF, errNumSegments,
    errSegmentLayout, errSegmentAlign]
  rw [if_neg (by omega), if_neg (by omega), if_neg (by omega), if_neg (by omega), if_neg (by omega),
    if_neg (by omega), if_neg (by omega), if_neg (by omega)]
  rfl

theorem parseELFHeader_error {p e : ℕ} {m : ByteMem} (h : parseELFHeader p m = .error e) :
    e ≤ errLastError := by
  unfold parseELFHeader at h
  simp only at h
  split_ifs at h
  all_goals
    cases h
    decide

/-- A kernel that is told from an error, after nothing but the progress, or an error with its message. -/
inductive Outcome (r : Returned) : Prop where
  | loaded (hend : errLastError < r.eax) (hdots : Dots r.printed)
  | refused (dots : List String) (message : String) (hcode : r.eax ≤ errLastError) (hdots : Dots dots)
    (hmessage : message = msgLoadFindError ∨ message = msgParseELFError)
    (hprinted : r.printed = dots ++ [msgError, crLf, message, crLf])

theorem checkKernel_outcome {p : ℕ} {printed : List String} (hdots : Dots printed) {r : Returned}
    (h : checkKernel fuel p mem printed = some r) : Outcome r := by
  unfold checkKernel at h
  cases hparse : parseELFHeader p mem with
  | error e =>
    rw [hparse] at h
    obtain rfl := Option.some.inj h
    exact .refused printed _ (parseELFHeader_error hparse) hdots (Or.inr rfl) rfl
  | ok image =>
    rw [hparse] at h
    simp only at h
    split_ifs at h with hsmall
    · obtain rfl := Option.some.inj h
      exact .refused printed _ hsmall hdots (Or.inr rfl) rfl
    · obtain ⟨s, _, rfl⟩ := Option.map_eq_some_iff.mp h
      exact .loaded (Nat.not_le.mp hsmall) (hdots.append dots_one)

theorem kloaderLoadKernel_outcome {name : ℕ → UInt8} {p : ℕ} {r : Returned}
    (h : kloaderLoadKernel v disk fuel name p mem = some r) : Outcome r := by
  rw [kloaderLoadKernel] at h
  obtain ⟨m, _, h⟩ := Option.bind_eq_some_iff.mp h
  obtain ⟨s, _, h⟩ := Option.bind_eq_some_iff.mp h
  split_ifs at h
  · obtain rfl := Option.some.inj h
    exact .refused [msgDot] _ (show errNoFile ≤ errLastError by decide) dots_one (Or.inl rfl) rfl
  · rw [loadFound] at h
    obtain ⟨w, _, h⟩ := Option.bind_eq_some_iff.mp h
    obtain ⟨t, ht, h⟩ := Option.bind_eq_some_iff.mp h
    exact checkKernel_outcome (((dots_one.append (dots_one.append dots_one)).append (showFile_dots ht)).append
      dots_one) h

/-- Without a file that nearly has the name the load stops after the root directory. -/
theorem missing_kernel {v : Volume} {dir : ℕ → UInt8} {n : ℕ}
    (hdir : DirectoryOnDisk v disk kernelFilename dir n) (hnone : ∀ i, ¬NearlyNamed kernelFilename dir n i)
    (registers : Fin 8 → ℕ) {name : ℕ} (hname : errLastError < name) (stack : List ℕ) (mem : ByteMem) :
    ∃ fuel, loadPhase v.toBPB disk fuel registers name stack mem =
      some ⟨[msgLoadingKernel, msgDot, msgError, crLf, msgLoadFindError, crLf], none⟩ := by
  obtain ⟨m, hm, hloaded, _⟩ := hdir.loadRootDirectory mem
  obtain ⟨fuel, s, hs, _, hreturned⟩ := findFile_spec hloaded hdir.some_entry 0 0
  have hload : kloaderLoadKernel v.toBPB disk fuel kernelFilename kernelPhysical mem =
      some (failed errNoFile msgLoadFindError m [msgDot]) := by
    rw [kloaderLoadKernel]
    simp only [Option.bind_eq_bind, hm, hs, Option.bind_some]
    rw [hreturned hnone, if_pos (by decide)]
  have hcode : ¬errLastError < (failed errNoFile msgLoadFindError m [msgDot]).eax :=
    show ¬(10 : ℕ) < 2 by decide
  refine ⟨fuel, ?_⟩
  rw [loadPhase, hload, Option.map_some, if_neg hcode, displayLoadError_none registers _ hname]
  rfl

end Failure

section Floppy

/-- The headers of a kernel with a byte of code and one of data, in two clusters of the file and a page apart in
memory. -/
def tinyHeaders : List UInt8 :=
  [0x7F, 0x45, 0x4C, 0x46, 1, 1, 1, 0, 0, 0, 0, 0, 0, 0, 0, 0,
    2, 0, 3, 0, 1, 0, 0, 0, 0, 0, 0, 0xC0, 0x34, 0, 0, 0, 0, 0, 0, 0, 0, 0, 0, 0, 0x34, 0, 0x20, 0,
    2, 0, 0, 0, 0, 0, 0, 0,
    1, 0, 0, 0, 0x80, 0, 0, 0, 0, 0, 0, 0xC0, 0, 0, 0, 0xC0, 1, 0, 0, 0, 1, 0, 0, 0, 5, 0, 0, 0,
    0, 0x10, 0, 0,
    1, 0, 0, 0, 0, 2, 0, 0, 0, 0x10, 0, 0xC0, 0, 0x10, 0, 0xC0, 1, 0, 0, 0, 2, 0, 0, 0,
    6, 0, 0, 0, 0, 0x10, 0, 0]

def tinyFile : ByteMem := fun a => tinyHeaders.getD a 0xF4

def tinyKernel : KernelImage where
  kernelEntryPoint := 0xC0000000
  kernelCodeOffset := 0x80
  kernelCodeVirtAddress := 0xC0000000
  kernelCodeFileSize := 1
  kernelDataOffset := 0x200
  kernelDataVirtAddress := 0xC0001000
  kernelDataFileSize := 1
  kernelDataMemSize := 2

/-- One entry, for a file that starts in cluster 2. -/
def kernelDirectory (a : ℕ) : UInt8 := if a < 11 then kernelFilename a else if a = 26 then 2 else 0

/-- A floppy with the kernel in its first two clusters. -/
def kernelFloppy : ℕ → ByteMem := fun l o =>
  if l < 19 then pairFAT (512 * (l - 1) + o)
  else if l < 33 then kernelDirectory (512 * (l - 19) + o)
  else tinyFile (512 * (l - 33) + o)

theorem kernelFloppy_directory : DirectoryOnDisk floppy kernelFloppy kernelFilename kernelDirectory 224 where
  heads := by decide
  sector := by decide
  track := by decide
  entries := by decide
  dirFits := by decide
  directory := by
    intro a ha
    change kernelFloppy (19 + a / 512) (a % 512) = kernelDirectory a
    rw [kernelFloppy, if_neg (by omega), if_pos (by omega), Nat.add_sub_cancel_left, Nat.div_add_mod]
  some_entry := by decide
  name_ne_zero := by decide
  name_ne_deleted := by decide

theorem kernelFloppy_file :
    FileOnDisk floppy kernelFloppy kernelFilename kernelDirectory pairFAT tinyFile 224 0 [3] where
  toDirectoryOnDisk := kernelFloppy_directory
  table := by
    intro i hi
    change kernelFloppy (1 + i / 512) (i % 512) = pairFAT i
    have hlow : i < 512 * 9 := hi
    rw [kernelFloppy, if_pos (by omega), Nat.add_sub_cancel_left, Nat.div_add_mod]
  named := by
    refine ⟨by decide, fun k hk => absurd hk (Nat.not_lt_zero k), by decide, fun j hj => ?_⟩
    rw [Nat.mul_zero, Nat.zero_add]
    exact if_pos hj
  apart := fun k hk => absurd hk (Nat.not_lt_zero k)
  chain := fileChain_pair
  reach := by constructor <;> decide
  bytes := by
    intro k hk j hj
    have hfirst : k = 0 ∨ k = 1 := by
      have hlength : k < 2 := hk
      omega
    have hsector : clusterLBA floppy.toBPB ([2, 3].get ⟨k, hk⟩) = 33 + k := by
      rcases hfirst with rfl | rfl <;> rfl
    change tinyFile (0 + 512 * 1 * k + j) =
      sectorByte kernelFloppy (clusterLBA floppy.toBPB ([2, 3].get ⟨k, hk⟩)) j
    rw [hsector]
    have hlow : j < 512 := hj
    change _ = kernelFloppy (33 + k + j / 512) (j % 512)
    rw [kernelFloppy, if_neg (by omega), if_neg (by omega), Nat.mod_eq_of_lt hlow]
    congr 1
    omega

theorem tinyFile_bootable : Bootable kernelPhysical (512 * 1 * 2) tinyFile 0xC0001002 tinyKernel where
  parsed := rfl
  headers := by decide
  segments := by decide
  loadable := by
    constructor <;> simp only [tinyKernel, kernelPhysical, wordSize_eq] <;> decide
  movable := by
    refine ⟨by decide, fun _ => ⟨by decide, fun d hd i hi => ?_⟩⟩
    have hlow : i + d < 1 := hi
    obtain rfl : d = 0 := by omega
    rfl
  fits := by decide
  marked := by decide

theorem blankFloppy_directory :
    DirectoryOnDisk floppy (fun _ _ => 0) kernelFilename (fun _ => 0) 224 where
  heads := by decide
  sector := by decide
  track := by decide
  entries := by decide
  dirFits := by decide
  directory := fun _ _ => rfl
  some_entry := by decide
  name_ne_zero := by decide
  name_ne_deleted := by decide

theorem blankFloppy_missing (i : ℕ) : ¬NearlyNamed kernelFilename (fun _ => 0) 224 i :=
  fun h => absurd h.agrees.first (by decide)

end Floppy

theorem kernel_loaded_floppy : ∃ fuel r,
    kloaderLoadKernel floppy.toBPB kernelFloppy fuel kernelFilename kernelPhysical (fun _ => 0) = some r ∧
      r.eax = 0xC0001002 ∧ KernelInPlace kernelPhysical tinyKernel tinyFile r.mem ∧
      KeepsLoader (fun _ => 0) r.mem ∧ Dots r.printed :=
  kernel_loaded kernelFloppy_file tinyFile_bootable fun _ => 0

/-- A load that ends, on a disk without read errors, either goes on to the kernel or stops with one of two
messages. What `displayLoadError` has to say is never printed. -/
theorem loadPhase_outcome {v : BPB} {disk : ℕ → ByteMem} {fuel : ℕ} {mem : ByteMem}
    {registers : Fin 8 → ℕ} {name : ℕ} {stack : List ℕ} {t : Started} (hname : errLastError < name)
    (h : loadPhase v disk fuel registers name stack mem = some t) :
    (∃ dots kernelEnd m, Dots dots ∧ errLastError < kernelEnd ∧
      t = ⟨msgLoadingKernel :: dots, some (kernelEnd, m)⟩) ∨
    ∃ dots message, Dots dots ∧ (message = msgLoadFindError ∨ message = msgParseELFError) ∧
      t = ⟨msgLoadingKernel :: (dots ++ [msgError, crLf, message, crLf]), none⟩ := by
  obtain ⟨r, hr, rfl⟩ := Option.map_eq_some_iff.mp h
  cases kloaderLoadKernel_outcome hr with
  | loaded hend hdots => exact Or.inl ⟨r.printed, r.eax, r.mem, hdots, hend, if_pos hend⟩
  | refused dots message hcode hdots hmessage hprinted =>
    refine Or.inr ⟨dots, message, hdots, hmessage, ?_⟩
    rw [if_neg (Nat.not_lt.mpr hcode), displayLoadError_none registers _ hname, List.append_nil, hprinted]

theorem loadPhase_outcome_blank : ∃ fuel t,
    loadPhase floppy.toBPB (fun _ _ => 0) fuel (fun _ => 0) bootstubAddress [] (fun _ => 0) = some t ∧
      ((∃ dots kernelEnd m, Dots dots ∧ errLastError < kernelEnd ∧
          t = ⟨msgLoadingKernel :: dots, some (kernelEnd, m)⟩) ∨
        ∃ dots message, Dots dots ∧ (message = msgLoadFindError ∨ message = msgParseELFError) ∧
          t = ⟨msgLoadingKernel :: (dots ++ [msgError, crLf, message, crLf]), none⟩) := by
  obtain ⟨fuel, hrun⟩ := missing_kernel blankFloppy_directory blankFloppy_missing (fun _ => 0)
    (show errLastError < bootstubAddress by decide) [] (fun _ => 0)
  exact ⟨fuel, _, hrun, loadPhase_outcome (by decide) hrun⟩

end Ktux.BootLoading
