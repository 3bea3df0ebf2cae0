import Ktux.LoadFile
import Mathlib.Tactic.IntervalCases

set_option autoImplicit false

/-!
# The search for a file in the root directory

`findFile` of `klLoadKernel.s` and the loop of `bootsect.s`, over the root directory at `ROOTDIR_BUFFER`. An
offset in a segment is a 16-bit register.
-/
namespace Ktux.DirectoryLookup
open Words Loops ByteMemory LoadFile

@[simp] def rootDirBuffer : ℕ := 0x1000
@[simp] def fatFileEntryDeleted : UInt8 := 0xE5
@[simp] def fatFilenameSize : ℕ := 0x0A
@[simp] def fatRootEntryStartCluster : ℕ := 0x1A
@[simp] def fatRootEntryFileSize : ℕ := 0x1C

/-- The zero flag after `repe cmpsb` with a count other than 0. -/
def repeCmpsb (source dest : ℕ → UInt8) : (cx si di : ℕ) → Bool
  | 0, _, _ => true
  | cx + 1, si, di => source si == dest di && repeCmpsb source dest cx (si + 1) (di + 1)

inductive Exit where
  | foundFile
  | file404
  deriving DecidableEq

/-- `fileSize` is in kilobytes, and `returned` the word that `findFile` leaves on the stack. -/
structure Search where
  currentDirEntry : ℕ
  fileSize : ℕ
  returned : ℕ
  exit : Option Exit

def searching (s : Search) : Bool := s.exit.isNone

/-- The end of the directory is computed again each time; `mul` leaves its low word in AX. -/
def nextFile (v : BPB) (s : Search) : Search :=
  let s := { s with currentDirEntry := (s.currentDirEntry + fatRootDirEntrySize) % 2 ^ 16 }
  if v.bytesPerSector * (computeVolumeInfo v).rootDirSectorCount % 2 ^ 16 ≤ s.currentDirEntry then
    { s with returned := 0xFFFF, exit := some .file404 }
  else s

def foundFile (es : ℕ → UInt8) (s : Search) : Search :=
  let size := readDword es (s.currentDirEntry + fatRootEntryFileSize)
  { s with
    returned := readWord es (s.currentDirEntry + fatRootEntryStartCluster)
    fileSize := (if size % 1024 = 0 then size / 1024 else size / 1024 + 1) % 2 ^ 16
    exit := some .foundFile }

def entryLoop (v : BPB) (filename es : ℕ → UInt8) (s : Search) : Search :=
  if es s.currentDirEntry = fatFileEntryDeleted then nextFile v s
  else if es s.currentDirEntry = 0 then { s with returned := 0xFFFF, exit := some .file404 }
  else if repeCmpsb filename es fatFilenameSize 0 s.currentDirEntry then foundFile es s
  else nextFile v s

def findFile (v : BPB) (fuel : ℕ) (filename : ℕ → UInt8) (mem : ByteMem) (fileSize returned : ℕ) :
    Option Search :=
  whileLoop searching (fun s => some (entryLoop v filename (segmentAt rootDirBuffer mem) s)) fuel
    ⟨0, fileSize, returned, none⟩

structure BootSearch where
  cx : ℕ
  di : ℕ
  exit : Option Exit

def bootSearching (s : BootSearch) : Bool := s.exit.isNone

/-- `loop` takes one off CX before it tests it. -/
def bootLoop (filename es : ℕ → UInt8) (s : BootSearch) : BootSearch :=
  if repeCmpsb filename es fatFilenameSize 0 s.di then { s with exit := some .foundFile }
  else
    let s := { s with di := (s.di + fatRootDirEntrySize) % 2 ^ 16, cx := dec16 s.cx }
    if s.cx = 0 then { s with exit := some .file404 } else s

def bootFind (v : BPB) (fuel : ℕ) (filename : ℕ → UInt8) (mem : ByteMem) : Option BootSearch :=
  whileLoop bootSearching (fun s => some (bootLoop filename (segmentAt 0 mem) s)) fuel
    ⟨v.maxRootDirEntryCount, rootDirBuffer, none⟩

section Directory
variable (name dir : ℕ → UInt8)

/-- Entry `i` has the first `length` characters of the name. -/
def Agrees (length i : ℕ) : Prop := ∀ j < length, dir (32 * i + j) = name j

def cluster (i : ℕ) : ℕ := readWord dir (32 * i + 0x1A)

/-- The file that the name, with its 8 and 3 characters, stands for in a directory of `n` entries. -/
structure Named (n i : ℕ) : Prop where
  inside : i < n
  before : ∀ k < i, dir (32 * k) ≠ 0 ∧ ¬(dir (32 * k) ≠ 0xE5 ∧ Agrees name dir 11 k)
  notDeleted : dir (32 * i) ≠ 0xE5
  agrees : Agrees name dir 11 i

end Directory

/-- Wherever the directory is in its buffer, `findFile` returns the cluster of the named file and else -1, and
the boot sector comes to the entry of the named file. -/
def FindsNamed (v : BPB) (n : ℕ) (name dir : ℕ → UInt8) : Prop :=
  ∀ mem : ByteMem, (∀ a < 32 * n, mem (rootDirBuffer + a) = dir a) →
    (∀ fileSize returned, ∃ fuel s, findFile v fuel name mem fileSize returned = some s ∧
      (∀ i, Named name dir n i → s.returned = cluster dir i) ∧
      ((∀ i, ¬Named name dir n i) → s.returned = 0xFFFF)) ∧
    ∀ i, Named name dir n i → ∃ fuel s, bootFind v fuel name mem = some s ∧ s.exit = some .foundFile ∧
      s.di = rootDirBuffer + 32 * i

/-- The first entry that agrees in ten characters, before the end of the directory. -/
structure NearlyNamed (name dir : ℕ → UInt8) (n i : ℕ) : Prop where
  inside : i < n
  before : ∀ k < i, dir (32 * k) ≠ 0 ∧ ¬Agrees name dir 10 k
  agrees : Agrees name dir 10 i

/-- No name that differs in its last character only comes before the named file, and none stands in for it;
the entry of the named file is in the first 64 KB of memory. -/
structure ToldApart (n : ℕ) (name dir : ℕ → UInt8) : Prop where
  some_entry : 0 < n
  named : ∀ i, Named name dir n i → rootDirBuffer + 32 * i < 2 ^ 16 ∧ ∀ k < i, ¬Agrees name dir 10 k
  unnamed : (∀ i, ¬Named name dir n i) → ∀ k, NearlyNamed name dir n k → cluster dir k = 0xFFFF

section Compare
variable {source dest : ℕ → UInt8} {cx si di : ℕ}

theorem repeCmpsb_iff : repeCmpsb source dest cx si di = true ↔ ∀ j < cx, source (si + j) = dest (di + j) := by
  induction cx generalizing si di with
  | zero => simp [repeCmpsb]
  | succ cx ih =>
    rw [repeCmpsb, Bool.and_eq_true, beq_iff_eq, ih]
    constructor
    · rintro ⟨hfirst, hrest⟩ j hj
      cases j with
      | zero => exact hfirst
      | succ j =>
        have h := hrest j (by omega)
        rwa [Nat.add_assoc, Nat.add_assoc, Nat.add_comm 1] at h
    · intro hall
      refine ⟨hall 0 (by omega), fun j hj => ?_⟩
      rw [Nat.add_assoc, Nat.add_assoc, Nat.add_comm 1]
      exact hall (j + 1) (by omega)

end Compare

/-- A directory in its buffer, and the name of a file that is there. -/
structure Loaded (v : BPB) (n : ℕ) (name dir : ℕ → UInt8) (mem : ByteMem) : Prop where
  bytes : 32 * n = v.bytesPerSector * (computeVolumeInfo v).rootDirSectorCount
  name_ne_zero : name 0 ≠ 0
  name_ne_deleted : name 0 ≠ 0xE5
  holds : ∀ a < 32 * n, mem (rootDirBuffer + a) = dir a

section Search
variable {v : BPB} {n k : ℕ} {name dir : ℕ → UInt8} {mem : ByteMem} {s : Search}

/-- The loader counts in sectors, and its product of 16 bits is all there is. -/
theorem entries_le (h : 32 * n = v.bytesPerSector * (computeVolumeInfo v).rootDirSectorCount) :
    32 * n < 2 ^ 16 ∧ n ≤ v.maxRootDirEntryCount := by
  have hle : 32 * n ≤ 32 * v.maxRootDirEntryCount % 2 ^ 16 := by
    rw [h]
    exact Nat.mul_div_le _ _
  omega

theorem Agrees.first {length : ℕ} (h : Agrees name dir (length + 1) k) : dir (32 * k) = name 0 :=
  h 0 (Nat.succ_pos length)

theorem NearlyNamed.unique {i : ℕ} (h : NearlyNamed name dir n i) (h' : NearlyNamed name dir n k) : i = k := by
  rcases Nat.lt_trichotomy i k with hlt | heq | hlt
  · exact absurd h.agrees (h'.before i hlt).2
  · exact heq
  · exact absurd h'.agrees (h.before k hlt).2

theorem Agrees.shorter (h : Agrees name dir 11 k) : Agrees name dir 10 k := fun j hj => h j (by omega)

theorem entryLoop_match {es : ℕ → UInt8} (hfirst : es s.currentDirEntry = name 0) (hzero : name 0 ≠ 0)
    (hdeleted : name 0 ≠ 0xE5) (hmatch : repeCmpsb name es fatFilenameSize 0 s.currentDirEntry = true) :
    entryLoop v name es s = foundFile es s := by
  have hkept : name 0 ≠ fatFileEntryDeleted := hdeleted
  rw [entryLoop, hfirst, if_neg hkept, if_neg hzero, if_pos hmatch]

namespace Loaded

theorem byte (h : Loaded v n name dir mem) {a : ℕ} (ha : a < 32 * n) :
    segmentAt rootDirBuffer mem a = dir a := by
  have hn := (entries_le h.bytes).1
  rw [segmentAt, Nat.mod_eq_of_lt (by omega)]
  exact h.holds a ha

theorem compare (h : Loaded v n name dir mem) (hk : k < n) :
    repeCmpsb name (segmentAt rootDirBuffer mem) fatFilenameSize 0 (32 * k) = true ↔ Agrees name dir 10 k := by
  rw [repeCmpsb_iff]
  constructor
  · intro hall j hj
    rw [← h.byte (by omega), ← hall j hj, Nat.zero_add]
  · intro hagrees j hj
    rw [fatFilenameSize] at hj
    rw [h.byte (by omega), hagrees j hj, Nat.zero_add]

theorem cluster_eq (h : Loaded v n name dir mem) (hk : k < n) :
    readWord (segmentAt rootDirBuffer mem) (32 * k + 0x1A) = cluster dir k := by
  unfold cluster readWord
  rw [h.byte (by omega), h.byte (by omega)]

theorem entryLoop_end (h : Loaded v n name dir mem) (hk : k < n) (hs : s.currentDirEntry = 32 * k)
    (hend : dir (32 * k) = 0) : entryLoop v name (segmentAt rootDirBuffer mem) s =
      { s with returned := 0xFFFF, exit := some .file404 } := by
  rw [entryLoop, hs, h.byte (by omega), hend]
  rfl

theorem entryLoop_found (h : Loaded v n name dir mem) (hk : k < n) (hs : s.currentDirEntry = 32 * k)
    (hagrees : Agrees name dir 10 k) : entryLoop v name (segmentAt rootDirBuffer mem) s =
      foundFile (segmentAt rootDirBuffer mem) s := by
  refine entryLoop_match ?_ h.name_ne_zero h.name_ne_deleted ?_
  · rw [hs, h.byte (by omega), hagrees.first]
  · rw [hs]
    exact (h.compare hk).mpr hagrees

theorem entryLoop_next (h : Loaded v n name dir mem) (hk : k < n) (hs : s.currentDirEntry = 32 * k)
    (hmore : dir (32 * k) ≠ 0) (hagrees : ¬Agrees name dir 10 k) :
    entryLoop v name (segmentAt rootDirBuffer mem) s = nextFile v s := by
  rw [entryLoop, hs, h.byte (by omega), if_neg hmore, if_neg (mt (h.compare hk).mp hagrees), ite_self]

theorem nextFile_eq (h : Loaded v n name dir mem) (hk : k < n) (hs : s.currentDirEntry = 32 * k) : nextFile v s =
    if k + 1 = n then { s with currentDirEntry := 32 * n, returned := 0xFFFF, exit := some .file404 }
    else { s with currentDirEntry := 32 * (k + 1) } := by
  have hn := (entries_le h.bytes).1
  have hnext : (s.currentDirEntry + fatRootDirEntrySize) % 2 ^ 16 = 32 * (k + 1) := by
    rw [hs, fatRootDirEntrySize]
    omega
  have hlimit : 32 * n % 2 ^ 16 = 32 * n := Nat.mod_eq_of_lt hn
  rw [nextFile]
  simp only [hnext, ← h.bytes, hlimit]
  by_cases hlast : k + 1 = n
  · rw [if_pos hlast, if_pos (by omega), hlast]
  · rw [if_neg hlast, if_neg (by omega)]

end Loaded

theorem findFile_last {u : Search} (hs : s.exit = none) {es : ℕ → UInt8} (hu : entryLoop v name es s = u)
    (hdone : u.exit ≠ none) : whileLoop searching (fun s => some (entryLoop v name es s)) 2 s = some u := by
  have hgo : searching s = true := by rw [searching, hs]; rfl
  have hstop : searching u = false := by
    rw [searching, Option.isNone_eq_false_iff, Option.isSome_iff_ne_none]
    exact hdone
  rw [whileLoop_next hgo hu, whileLoop_stop hstop]

/-- From entry `k` on, the search ends with entry `m`, or behind the last one. -/
theorem findFile_run (h : Loaded v n name dir mem) {m : ℕ} (hk : k < n) (hkm : k ≤ m)
    (hs : s.currentDirEntry = 32 * k) (hexit : s.exit = none) (hm : m ≤ n)
    (hbefore : ∀ j < m, dir (32 * j) ≠ 0 ∧ ¬Agrees name dir 10 j)
    (hlast : m < n → dir (32 * m) = 0 ∨ Agrees name dir 10 m) :
    ∃ fuel t, whileLoop searching (fun s => some (entryLoop v name (segmentAt rootDirBuffer mem) s)) fuel s =
      some t ∧ (m < n → Agrees name dir 10 m → t.returned = cluster dir m) ∧
      ((m < n → ¬Agrees name dir 10 m) → t.returned = 0xFFFF) := by
  induction hd : m - k generalizing k s with
  | zero =>
    obtain rfl : k = m := by omega
    by_cases hagrees : Agrees name dir 10 k
    · refine ⟨2, _, findFile_last hexit (h.entryLoop_found hk hs hagrees) (Option.some_ne_none _), fun _ _ => ?_,
        fun hnot => absurd hagrees (hnot hk)⟩
      change readWord _ (s.currentDirEntry + 0x1A) = _
      rw [hs, h.cluster_eq hk]
    · have hend := (hlast hk).resolve_right hagrees
      exact ⟨2, _, findFile_last hexit (h.entryLoop_end hk hs hend) (Option.some_ne_none _),
        fun _ hyes => absurd hyes hagrees, fun _ => rfl⟩
  | succ d ih =>
    obtain ⟨hmore, hagrees⟩ := hbefore k (by omega)
    have hnext := (h.entryLoop_next hk hs hmore hagrees).trans (h.nextFile_eq hk hs)
    by_cases hend : k + 1 = n
    · rw [if_pos hend] at hnext
      refine ⟨2, _, findFile_last hexit hnext (Option.some_ne_none _), fun hlt => ?_, fun _ => rfl⟩
      omega
    · rw [if_neg hend] at hnext
      obtain ⟨fuel, t, hrun, ht⟩ := @ih (k + 1) { s with currentDirEntry := 32 * (k + 1) } (by omega) (by omega)
        rfl hexit (by omega)
      have hgo : searching s = true := by rw [searching, hexit]; rfl
      exact ⟨fuel + 1, t, (whileLoop_next hgo hnext fuel).trans hrun, ht⟩

theorem findFile_spec (h : Loaded v n name dir mem) (hn : 0 < n) (fileSize returned : ℕ) :
    ∃ fuel t, findFile v fuel name mem fileSize returned = some t ∧
      (∀ i, NearlyNamed name dir n i → t.returned = cluster dir i) ∧
      ((∀ i, ¬NearlyNamed name dir n i) → t.returned = 0xFFFF) := by
  obtain ⟨m, hm, hbefore, hstop⟩ := exists_first_not
    (P := fun j => j < n ∧ dir (32 * j) ≠ 0 ∧ ¬Agrees name dir 10 j) (n := n) fun h => Nat.lt_irrefl n h.1
  obtain ⟨fuel, t, hrun, hfound, hnot⟩ := findFile_run (s := ⟨0, fileSize, returned, none⟩) h hn (Nat.zero_le m)
    rfl rfl hm (fun j hj => (hbefore j hj).2) fun hlt => by
      by_contra hneither
      exact hstop ⟨hlt, not_or.mp hneither⟩
  refine ⟨fuel, t, hrun, fun i hi => ?_, fun hnone => hnot fun hlt hagrees => ?_⟩
  · have hle : m ≤ i := by
      by_contra hlt
      exact (hbefore i (Nat.not_le.mp hlt)).2.2 hi.agrees
    have hlt : m < n := Nat.lt_of_le_of_lt hle hi.inside
    have hnear : NearlyNamed name dir n m := by
      refine ⟨hlt, fun k hk => (hbefore k hk).2, ?_⟩
      by_contra hagrees
      rcases Nat.eq_or_lt_of_le hle with rfl | hmi
      · exact hagrees hi.agrees
      · exact hstop ⟨hlt, hi.before m hmi⟩
    rw [hi.unique hnear]
    exact hfound hlt hnear.agrees
  · exact hnone m ⟨hlt, fun k hk => (hbefore k hk).2, hagrees⟩

end Search

section Boot
variable {v : BPB} {n k : ℕ} {name dir : ℕ → UInt8} {mem : ByteMem} {s : BootSearch}

theorem Loaded.boot_compare (h : Loaded v n name dir mem) (hk : k < n) (hlow : rootDirBuffer + 32 * k < 2 ^ 16) :
    repeCmpsb name (segmentAt 0 mem) fatFilenameSize 0 (rootDirBuffer + 32 * k) = true ↔ Agrees name dir 10 k := by
  rw [rootDirBuffer] at hlow
  have hbyte : ∀ j < 10, segmentAt 0 mem (rootDirBuffer + 32 * k + j) = dir (32 * k + j) := by
    intro j hj
    rw [segmentAt, Nat.zero_add, rootDirBuffer, Nat.mod_eq_of_lt (by omega), Nat.add_assoc]
    exact h.holds _ (by omega)
  rw [repeCmpsb_iff]
  constructor
  · intro hall j hj
    rw [← hbyte j hj, ← hall j hj, Nat.zero_add]
  · intro hagrees j hj
    rw [hbyte j hj, hagrees j hj, Nat.zero_add]

/-- From entry `k` on, with a pass left for each entry up to `m`, the search stops there. -/
theorem bootFind_run (h : Loaded v n name dir mem) {m : ℕ} (hkm : k ≤ m) (hm : m < n)
    (hlow : rootDirBuffer + 32 * m < 2 ^ 16) (hdi : s.di = rootDirBuffer + 32 * k) (hcx : m < s.cx + k)
    (hexit : s.exit = none) (hbefore : ∀ j < m, ¬Agrees name dir 10 j) (hlast : Agrees name dir 10 m) :
    ∃ fuel t, whileLoop bootSearching (fun s => some (bootLoop name (segmentAt 0 mem) s)) fuel s = some t ∧
      t.exit = some .foundFile ∧ t.di = rootDirBuffer + 32 * m := by
  have hgo : bootSearching s = true := by rw [bootSearching, hexit]; rfl
  induction hd : m - k generalizing k s with
  | zero =>
    obtain rfl : k = m := by omega
    have hpass : bootLoop name (segmentAt 0 mem) s = { s with exit := some .foundFile } := by
      rw [bootLoop, if_pos (by rw [hdi]; exact (h.boot_compare hm hlow).mpr hlast)]
    exact ⟨2, _, (whileLoop_next hgo hpass 1).trans (whileLoop_stop rfl 0), rfl, hdi⟩
  | succ d ih =>
    rw [rootDirBuffer] at hlow hdi
    have hnot : ¬repeCmpsb name (segmentAt 0 mem) fatFilenameSize 0 s.di = true := by
      rw [hdi]
      exact mt (h.boot_compare (by omega) (by rw [rootDirBuffer]; omega)).mp (hbefore k (by omega))
    have hnext : (s.di + fatRootDirEntrySize) % 2 ^ 16 = rootDirBuffer + 32 * (k + 1) := by
      rw [hdi, fatRootDirEntrySize, rootDirBuffer]
      omega
    have hleft : dec16 s.cx = s.cx - 1 := dec16_of_pos (by omega)
    have hmore : ¬s.cx - 1 = 0 := by omega
    have hpass : bootLoop name (segmentAt 0 mem) s =
        { s with di := rootDirBuffer + 32 * (k + 1), cx := s.cx - 1 } := by
      rw [bootLoop, if_neg hnot]
      simp only [hnext, hleft, if_neg hmore]
    obtain ⟨fuel, t, hrun, ht⟩ := @ih (k + 1) { s with di := rootDirBuffer + 32 * (k + 1), cx := s.cx - 1 }
      (by omega) rfl (by dsimp only; omega) hexit hgo (by omega)
    exact ⟨fuel + 1, t, (whileLoop_next hgo hpass fuel).trans hrun, ht⟩

/-- The boot sector has no eye for the end of the directory. -/
theorem bootFind_spec (h : Loaded v n name dir mem) {m : ℕ} (hm : m < n)
    (hlow : rootDirBuffer + 32 * m < 2 ^ 16) (hbefore : ∀ j < m, ¬Agrees name dir 10 j)
    (hlast : Agrees name dir 10 m) : ∃ fuel t, bootFind v fuel name mem = some t ∧
      t.exit = some .foundFile ∧ t.di = rootDirBuffer + 32 * m := by
  have hentries := (entries_le h.bytes).2
  exact bootFind_run (k := 0) (s := ⟨v.maxRootDirEntryCount, rootDirBuffer, none⟩) h (Nat.zero_le m) hm hlow rfl
    (Nat.lt_of_lt_of_le hm hentries) rfl hbefore hlast

theorem bootLoop_di (hs : s.di < 2 ^ 16) (es : ℕ → UInt8) : (bootLoop name es s).di < 2 ^ 16 := by
  have hmod : (s.di + fatRootDirEntrySize) % 2 ^ 16 < 2 ^ 16 := Nat.mod_lt _ (by decide)
  rw [bootLoop]
  dsimp only
  split_ifs
  · exact hs
  · exact hmod
  · exact hmod

theorem bootFind_di {fuel : ℕ} {t : BootSearch} (hrun : bootFind v fuel name mem = some t) : t.di < 2 ^ 16 := by
  have hstart : rootDirBuffer < 2 ^ 16 := by decide
  refine (whileLoop_invariant (fun s : BootSearch => s.di < 2 ^ 16) (fun s u hs _ hu => ?_) hstart hrun).1
  rw [← Option.some.inj hu]
  exact bootLoop_di hs _

end Boot

section Lookup
variable {v : BPB} {n i : ℕ} {name dir : ℕ → UInt8}

theorem Named.agrees_nearly (h : Named name dir n i) (hbefore : ∀ k < i, ¬Agrees name dir 10 k) :
    NearlyNamed name dir n i := ⟨h.inside, fun k hk => ⟨(h.before k hk).1, hbefore k hk⟩, h.agrees.shorter⟩

/-- The first entry that nearly has the name is named, if it has it. -/
theorem NearlyNamed.named (hdeleted : name 0 ≠ 0xE5) (h : NearlyNamed name dir n i)
    (hagrees : Agrees name dir 11 i) : Named name dir n i := by
  refine ⟨h.inside, fun k hk => ⟨(h.before k hk).1, fun hk' => (h.before k hk).2 hk'.2.shorter⟩, ?_, hagrees⟩
  rw [hagrees.first]
  exact hdeleted

def only (dir : ℕ → UInt8) : ByteMem := fun a => dir (a - rootDirBuffer)

theorem only_holds (dir : ℕ → UInt8) (a : ℕ) : only dir (rootDirBuffer + a) = dir a := by
  rw [only, Nat.add_sub_cancel_left]

theorem findsNamed_of_toldApart (hbytes : 32 * n = v.bytesPerSector * (computeVolumeInfo v).rootDirSectorCount)
    (hzero : name 0 ≠ 0) (hdeleted : name 0 ≠ 0xE5) (htold : ToldApart n name dir) :
    FindsNamed v n name dir := by
  intro mem hmem
  have h : Loaded v n name dir mem := ⟨hbytes, hzero, hdeleted, hmem⟩
  constructor
  · intro fileSize returned
    obtain ⟨fuel, t, hrun, hnear, hnone⟩ := findFile_spec h htold.some_entry fileSize returned
    refine ⟨fuel, t, hrun, fun i hi => hnear i (hi.agrees_nearly (htold.named i hi).2), fun hnot => ?_⟩
    by_cases hex : ∃ k, NearlyNamed name dir n k
    · obtain ⟨k, hk⟩ := hex
      rw [hnear k hk]
      exact htold.unnamed hnot k hk
    · exact hnone (not_exists.mp hex)
  · intro i hi
    obtain ⟨hlow, hbefore⟩ := htold.named i hi
    exact bootFind_spec h hi.inside hlow hbefore hi.agrees.shorter

theorem findFile_unique {filename : ℕ → UInt8} {mem : ByteMem} {fuel fuel' fileSize returned : ℕ} {s t : Search}
    (h : findFile v fuel filename mem fileSize returned = some s)
    (h' : findFile v fuel' filename mem fileSize returned = some t) : s = t := whileLoop_unique h h'

/-- The first entry is looked at even where there is none. -/
theorem not_findsNamed_empty (hzero : name 0 ≠ 0) (hdeleted : name 0 ≠ 0xE5) : ¬FindsNamed v 0 name dir := by
  intro hfinds
  let stray : ℕ → UInt8 := fun a => if a < 10 then name a else 0
  have hread : ∀ a < 32, segmentAt rootDirBuffer (only stray) a = stray a := by
    intro a ha
    rw [segmentAt, Nat.mod_eq_of_lt (by omega), only_holds]
  obtain ⟨fuel, s, hrun, -, hnone⟩ := (hfinds (only stray) fun a ha => absurd ha (Nat.not_lt_zero a)).1 0 0
  have hpass : entryLoop v name (segmentAt rootDirBuffer (only stray)) ⟨0, 0, 0, none⟩ =
      foundFile (segmentAt rootDirBuffer (only stray)) ⟨0, 0, 0, none⟩ := by
    refine entryLoop_match ((hread 0 (by decide)).trans (if_pos (by decide))) hzero hdeleted ?_
    rw [repeCmpsb_iff]
    intro j hj
    rw [fatFilenameSize] at hj
    rw [Nat.zero_add, hread j (by omega)]
    exact (if_pos hj).symm
  obtain rfl := findFile_unique hrun (findFile_last rfl hpass (Option.some_ne_none _))
  have hreturned : readWord (segmentAt rootDirBuffer (only stray)) 0x1A = 0xFFFF :=
    hnone fun i hi => absurd hi.inside (Nat.not_lt_zero i)
  rw [readWord, hread _ (by decide), hread _ (by decide)] at hreturned
  exact absurd hreturned (show ¬(0 + 256 * 0 = 0xFFFF) by decide)

theorem toldApart_of_findsNamed (hbytes : 32 * n = v.bytesPerSector * (computeVolumeInfo v).rootDirSectorCount)
    (hzero : name 0 ≠ 0) (hdeleted : name 0 ≠ 0xE5) (hfinds : FindsNamed v n name dir) :
    ToldApart n name dir := by
  have hpos : 0 < n := by
    by_contra hn
    obtain rfl : n = 0 := Nat.eq_zero_of_not_pos hn
    exact not_findsNamed_empty hzero hdeleted hfinds
  have h : Loaded v n name dir (only dir) := ⟨hbytes, hzero, hdeleted, fun a _ => only_holds dir a⟩
  obtain ⟨hfile, hboot⟩ := hfinds (only dir) h.holds
  refine ⟨hpos, fun i hi => ?_, fun hnone k hk => ?_⟩
  · obtain ⟨fuel, t, hrun, -, hdi⟩ := hboot i hi
    have hlow : rootDirBuffer + 32 * i < 2 ^ 16 := hdi ▸ bootFind_di hrun
    refine ⟨hlow, fun k hk hagrees => ?_⟩
    -- the first near miss is where the boot sector stops
    obtain ⟨m, hmk, hbefore, hstop⟩ := exists_first_not (P := fun j => ¬Agrees name dir 10 j) (not_not.mpr hagrees)
    have hinside := hi.inside
    rw [rootDirBuffer] at hlow hdi
    obtain ⟨fuel', t', hrun', -, hdi'⟩ := bootFind_spec h (m := m) (by omega) (by rw [rootDirBuffer]; omega)
      hbefore (not_not.mp hstop)
    obtain rfl := whileLoop_unique hrun hrun'
    rw [rootDirBuffer] at hdi'
    omega
  · obtain ⟨fuel, t, hrun, -, hnot⟩ := hfile 0 0
    obtain ⟨fuel', t', hrun', hnear, -⟩ := findFile_spec h hpos 0 0
    obtain rfl := findFile_unique hrun hrun'
    rw [← hnear k hk]
    exact hnot hnone

end Lookup

section Floppy

def floppy : BPB where
  bytesPerSector := 512
  sectorsPerCluster := 1
  reservedSectorCount := 1
  maxRootDirEntryCount := 224
  totalSectors := 2880
  sectorsPerFAT := 9
  sectorsPerTrack := 18
  numberHeads := 2

def kernelName (j : ℕ) : UInt8 := [75, 69, 82, 78, 69, 76, 32, 32, 66, 73, 78].getD j 0

/-- One entry, with a last character of its own, for a file that starts in cluster 5. -/
def oneFile (last : UInt8) (a : ℕ) : UInt8 :=
  if a < 10 then kernelName a else if a = 10 then last else if a = 26 then 5 else 0

theorem oneFile_named {last : UInt8} {n i : ℕ} (h : Named kernelName (oneFile last) n i) : i = 0 := by
  by_contra hi
  have hfirst := h.agrees.first
  rw [oneFile, if_neg (by omega), if_neg (by omega), if_neg (by omega)] at hfirst
  exact absurd hfirst (by decide)

end Floppy

theorem findsNamed_iff {v : BPB} {n : ℕ} {name dir : ℕ → UInt8}
    (hbytes : 32 * n = v.bytesPerSector * (computeVolumeInfo v).rootDirSectorCount) (hzero : name 0 ≠ 0)
    (hdeleted : name 0 ≠ 0xE5) : FindsNamed v n name dir ↔ ToldApart n name dir :=
  ⟨toldApart_of_findsNamed hbytes hzero hdeleted, findsNamed_of_toldApart hbytes hzero hdeleted⟩

theorem findsNamed_floppy : FindsNamed floppy 224 kernelName (oneFile 78) := by
  have hnamed : Named kernelName (oneFile 78) 224 0 :=
    ⟨by decide, fun k hk => absurd hk (Nat.not_lt_zero k), by decide, fun j hj => by interval_cases j <;> rfl⟩
  refine (findsNamed_iff (by decide) (by decide) (by decide)).mpr ⟨by decide, fun i hi => ?_,
    fun hnone => absurd hnamed (hnone 0)⟩
  obtain rfl := oneFile_named hi
  exact ⟨by decide, fun k hk => absurd hk (Nat.not_lt_zero k)⟩

/-- "KERNEL  BIX" is taken for "KERNEL  BIN". -/
theorem findFile_takes_near_miss : ¬FindsNamed floppy 224 kernelName (oneFile 88) := by
  intro hfinds
  have h : Loaded floppy 224 kernelName (oneFile 88) (only (oneFile 88)) :=
    ⟨by decide, by decide, by decide, fun a _ => only_holds _ a⟩
  have hnear : NearlyNamed kernelName (oneFile 88) 224 0 :=
    ⟨by decide, fun k hk => absurd hk (Nat.not_lt_zero k), fun j hj => by
      rw [Nat.mul_zero, Nat.zero_add]
      exact if_pos hj⟩
  obtain ⟨fuel, t, hrun, -, hnot⟩ := (hfinds _ h.holds).1 0 0
  obtain ⟨fuel', t', hrun', hfound, -⟩ := findFile_spec h (by decide) 0 0
  obtain rfl := findFile_unique hrun hrun'
  have hnone : ∀ i, ¬Named kernelName (oneFile 88) 224 i := by
    intro i hi
    obtain rfl := oneFile_named hi
    exact absurd (hi.agrees 10 (by decide)) (by decide)
  have hcluster : cluster (oneFile 88) 0 = 0xFFFF := (hfound 0 hnear).symm.trans (hnot hnone)
  exact absurd hcluster (by decide)

end Ktux.DirectoryLookup
