import Ktux.DetectMemory
import Ktux.ByteMemory

set_option autoImplicit false

/-!
# The memory map in its buffer

`DetectMemory` of the loader has the BIOS store its entries one behind the other and marks their end.
`print_mem_info` of the kernel goes through them up to the mark. The segment registers are 0.
-/
namespace Ktux.MemoryMap
open Words Loops ByteMemory
open DetectMemory (E820MemoryMap BiosReply MemCheck Reports smap memorymapMaxEntries memCheckCount)

@[simp] def memE820EndMap : ℕ := 0xDEADBEEF
@[simp] def entrySize : ℕ := 20

def bufferSize : ℕ := memorymapMaxEntries * entrySize

/-- The loader while it detects memory, with the addresses that it stored to through `es:di`. -/
structure Detector where
  mem : ByteMem
  written : List ℕ
  di : ℕ
  totalMemory : ℕ
  e820BufferAddress : ℕ

def store (n : ℕ) (f : ℕ → UInt8) (s : Detector) : Detector :=
  { s with
    mem := blit s.di n f s.mem
    written := s.written ++ (List.range n).map fun i => s.di + i }

def entryByte (e : E820MemoryMap) (i : ℕ) : UInt8 :=
  if i < 8 then wordByte e.base i
  else if i < 16 then wordByte e.length (i - 8)
  else wordByte e.type (i - 16)

def countMemory (s : Detector) : Detector :=
  if readDword s.mem (s.di + 16) = 1 then
    { s with totalMemory := wadd (readDword s.mem s.di) (readDword s.mem (s.di + 8)) }
  else s

def memCheckNoCount (s : Detector) : Detector := { s with di := (s.di + entrySize) % 2 ^ 16 }

/-- What a successful call of the BIOS and the code up to the test of `ebx` do. -/
def takeEntry (s : Detector) (e : E820MemoryMap) : Detector :=
  memCheckNoCount (countMemory (store entrySize (entryByte e) s))

/-- `none` is `kloaderFatalError`. Nothing counts the entries. -/
def memCheckLoop : List BiosReply → Detector → Option Detector
  | [], _ => none
  | reply :: replies, s =>
    if reply.carry then none
    else if reply.eax ≠ smap then none
    else if reply.ecx ≠ entrySize then none
    else if reply.ebx = 0 then some (takeEntry s reply.entry)
    else memCheckLoop replies (takeEntry s reply.entry)

def memCheckDone (e820Buffer : ℕ) (s : Detector) : Detector :=
  { store 4 (wordByte memE820EndMap) s with e820BufferAddress := e820Buffer }

def detectMemory (e820Buffer : ℕ) (replies : List BiosReply) (mem : ByteMem) : Option Detector :=
  (memCheckLoop replies ⟨mem, [], e820Buffer, 0, 0⟩).map (memCheckDone e820Buffer)

def entryAt (mem : ByteMem) (a : ℕ) : E820MemoryMap :=
  ⟨readQword mem a, readQword mem (a + 8), readDword mem (a + 16)⟩

structure Walk where
  e820Entry : ℕ
  visited : List E820MemoryMap

/-- The constant of the comparison is extended to the 64 bits of `base`. -/
def printMemInfo (fuel : ℕ) (mem : ByteMem) (memoryInfo : ℕ) : Option Walk :=
  whileLoop (fun s => decide (readQword mem s.e820Entry ≠ memE820EndMap))
    (fun s => some ⟨wadd s.e820Entry entrySize, s.visited ++ [entryAt mem s.e820Entry]⟩) fuel ⟨memoryInfo, []⟩

/-- The entries have the sizes of their fields. -/
structure Packed (e : E820MemoryMap) : Prop where
  base : e.base < 2 ^ 64
  length : e.length < 2 ^ 64
  type : e.type < 2 ^ 32

/-- The buffer lies in the loader's segment and is filled with zeros. -/
structure BufferReady (e820Buffer : ℕ) (mem : ByteMem) : Prop where
  segment : e820Buffer + bufferSize ≤ 2 ^ 16
  zeroed : ∀ i < bufferSize, mem (e820Buffer + i) = 0

/-- The loader stores inside its buffer only, and the kernel visits the entries of the map in order and
stops, unless a base looks like the mark. -/
def HandsOver (e820Buffer : ℕ) (replies : List BiosReply) (map : List E820MemoryMap) (mem : ByteMem) : Prop :=
  ∃ s, detectMemory e820Buffer replies mem = some s ∧
    (∀ a ∈ s.written, e820Buffer ≤ a ∧ a < e820Buffer + bufferSize) ∧
    ((∀ e ∈ map, e.base ≠ memE820EndMap) →
      ∃ fuel t, printMemInfo fuel s.mem s.e820BufferAddress = some t ∧ t.visited = map)

section Writer
variable {s : Detector} {e : E820MemoryMap} {map : List E820MemoryMap} {a : ℕ}

theorem countMemory_eq (s : Detector) : ∃ total, countMemory s = { s with totalMemory := total } := by
  unfold countMemory
  split_ifs
  · exact ⟨_, rfl⟩
  · exact ⟨s.totalMemory, rfl⟩

theorem takeEntry_mem (s : Detector) (e : E820MemoryMap) :
    (takeEntry s e).mem = blit s.di entrySize (entryByte e) s.mem := by
  obtain ⟨total, htotal⟩ := countMemory_eq (store entrySize (entryByte e) s)
  rw [takeEntry, htotal]
  rfl

theorem takeEntry_di (s : Detector) (e : E820MemoryMap) :
    (takeEntry s e).di = (s.di + entrySize) % 2 ^ 16 := by
  obtain ⟨total, htotal⟩ := countMemory_eq (store entrySize (entryByte e) s)
  rw [takeEntry, htotal]
  rfl

theorem takeEntry_written (s : Detector) (e : E820MemoryMap) :
    (takeEntry s e).written = s.written ++ (List.range entrySize).map fun i => s.di + i := by
  obtain ⟨total, htotal⟩ := countMemory_eq (store entrySize (entryByte e) s)
  rw [takeEntry, htotal]
  rfl

theorem memCheckLoop_reports {replies : List BiosReply} (h : Reports replies map) (s : Detector) :
    memCheckLoop replies s = some (map.foldl takeEntry s) := by
  induction h generalizing s with
  | last e => simp [memCheckLoop]
  | more e hebx _ ih =>
    simp only [memCheckLoop, entrySize, hebx, if_false, ne_eq, not_true_eq_false, Bool.false_eq_true]
    rw [ih, List.foldl_cons]

theorem foldl_di (map : List E820MemoryMap) (s : Detector) (hdi : s.di < 2 ^ 16) :
    (map.foldl takeEntry s).di = (s.di + entrySize * map.length) % 2 ^ 16 := by
  induction map generalizing s with
  | nil => exact (Nat.mod_eq_of_lt hdi).symm
  | cons e map ih =>
    rw [List.foldl_cons, ih _ (by rw [takeEntry_di]; exact Nat.mod_lt _ (by decide)), takeEntry_di,
      List.length_cons]
    simp only [entrySize]
    omega

/-- The stores before the `k`th entry stay in the list. -/
theorem written_mono (map : List E820MemoryMap) (s : Detector) (h : a ∈ s.written) :
    a ∈ (map.foldl takeEntry s).written := by
  induction map generalizing s with
  | nil => exact h
  | cons e map ih =>
    refine ih _ ?_
    rw [takeEntry_written]
    exact List.mem_append_left _ h

theorem entryByte_base (e : E820MemoryMap) {i : ℕ} (hi : i < 8) : entryByte e i = wordByte e.base i :=
  if_pos hi

theorem entryByte_length (e : E820MemoryMap) {i : ℕ} (hi : i < 8) :
    entryByte e (8 + i) = wordByte e.length i := by
  rw [entryByte, if_neg (by omega), if_pos (by omega), Nat.add_sub_cancel_left]

theorem entryByte_type (e : E820MemoryMap) (i : ℕ) : entryByte e (16 + i) = wordByte e.type i := by
  rw [entryByte, if_neg (by omega), if_neg (by omega), Nat.add_sub_cancel_left]

/-- Twenty bytes read back as the entry that they were stored for. -/
theorem entryAt_eq {mem : ByteMem} (hbytes : ∀ i < entrySize, mem (a + i) = entryByte e i) (he : Packed e) :
    entryAt mem a = e := by
  rw [entrySize] at hbytes
  have hbase : readQword mem a = e.base % 2 ^ 64 := readQword_of_bytes fun i hi =>
    (hbytes i (by omega)).trans (entryByte_base e hi)
  have hlength : readQword mem (a + 8) = e.length % 2 ^ 64 := readQword_of_bytes fun i hi => by
    rw [Nat.add_assoc, hbytes _ (by omega), entryByte_length e hi]
  have htype : readDword mem (a + 16) = e.type % 2 ^ 32 := readDword_of_bytes fun i hi => by
    rw [Nat.add_assoc, hbytes _ (by omega), entryByte_type]
  rw [entryAt, hbase, hlength, htype, Nat.mod_eq_of_lt he.base, Nat.mod_eq_of_lt he.length,
    Nat.mod_eq_of_lt he.type]

/-- The buffer at `e820Buffer` holds the entries of the list, and what lies behind them is untouched. -/
structure Filled (e820Buffer : ℕ) (mem : ByteMem) (map : List E820MemoryMap) (s : Detector) : Prop where
  di : s.di = (e820Buffer + entrySize * map.length) % 2 ^ 16
  entries : ∀ k (hk : k < map.length), ∀ i < entrySize,
    s.mem (e820Buffer + entrySize * k + i) = entryByte map[k] i
  rest : ∀ a, e820Buffer + entrySize * map.length ≤ a → s.mem a = mem a
  inside : ∀ a ∈ s.written, e820Buffer ≤ a ∧ a < e820Buffer + entrySize * map.length

variable {e820Buffer : ℕ} {mem : ByteMem}

theorem Filled.takeEntry (h : Filled e820Buffer mem map s)
    (hroom : e820Buffer + entrySize * map.length < 2 ^ 16) (e : E820MemoryMap) :
    Filled e820Buffer mem (map ++ [e]) (takeEntry s e) := by
  have hdi : s.di = e820Buffer + entrySize * map.length := h.di.trans (Nat.mod_eq_of_lt hroom)
  have hlength : entrySize * (map ++ [e]).length = entrySize * map.length + entrySize := by
    rw [List.length_append, List.length_singleton, Nat.mul_succ]
  constructor
  · rw [takeEntry_di, hdi, hlength, Nat.add_assoc]
  · intro k hk i hi
    rw [takeEntry_mem, hdi]
    rw [List.length_append, List.length_singleton] at hk
    by_cases hlast : k = map.length
    · subst hlast
      rw [blit_inside hi, List.getElem_concat_length rfl]
    · have hlow : k + 1 ≤ map.length := by omega
      have hbelow := Nat.mul_le_mul_left entrySize hlow
      rw [Nat.mul_succ] at hbelow
      rw [blit_outside (Or.inl (by omega)), List.getElem_append_left (by omega)]
      exact h.entries k (by omega) i hi
  · intro a ha
    rw [hlength] at ha
    rw [takeEntry_mem, hdi, blit_outside (Or.inr (by omega))]
    exact h.rest a (by omega)
  · intro a ha
    rw [hlength]
    rw [takeEntry_written, hdi] at ha
    rcases List.mem_append.mp ha with hold | hnew
    · have hin := h.inside a hold
      omega
    · obtain ⟨i, hi, rfl⟩ := List.mem_map.mp hnew
      have hi := List.mem_range.mp hi
      omega

theorem Filled.run (map : List E820MemoryMap) (hroom : e820Buffer + entrySize * map.length ≤ 2 ^ 16)
    (hsegment : e820Buffer < 2 ^ 16) :
    Filled e820Buffer mem map (map.foldl MemoryMap.takeEntry ⟨mem, [], e820Buffer, 0, 0⟩) := by
  induction map using List.reverseRecOn with
  | nil =>
    exact ⟨(Nat.mod_eq_of_lt hsegment).symm, fun k hk => absurd hk (Nat.not_lt_zero k), fun _ _ => rfl,
      fun a ha => absurd ha List.not_mem_nil⟩
  | append_singleton map e ih =>
    rw [List.length_append, List.length_singleton, Nat.mul_succ] at hroom
    rw [List.foldl_append, List.foldl_cons, List.foldl_nil]
    refine (ih (by omega)).takeEntry ?_ e
    simp only [entrySize] at hroom ⊢
    omega

end Writer

section HandOver
variable {e820Buffer : ℕ} {replies : List BiosReply} {map : List E820MemoryMap} {mem : ByteMem}

theorem detectMemory_reports (h : Reports replies map) (e820Buffer : ℕ) (mem : ByteMem) :
    detectMemory e820Buffer replies mem =
      some (memCheckDone e820Buffer (map.foldl takeEntry ⟨mem, [], e820Buffer, 0, 0⟩)) := by
  rw [detectMemory, memCheckLoop_reports h, Option.map_some]

/-- The marker of 4 bytes and the zeros behind it are the mark as the kernel compares it. -/
theorem readQword_marker {s : Detector} (hfilled : Filled e820Buffer mem map s)
    (hready : BufferReady e820Buffer mem) (hroom : map.length < memorymapMaxEntries) :
    readQword (memCheckDone e820Buffer s).mem (e820Buffer + entrySize * map.length) = memE820EndMap := by
  have hsize := hready.segment
  have hzeroed := hready.zeroed
  rw [bufferSize, memorymapMaxEntries, entrySize] at hsize hzeroed
  rw [memorymapMaxEntries] at hroom
  have hdi : s.di = e820Buffer + entrySize * map.length := by
    rw [hfilled.di, entrySize, Nat.mod_eq_of_lt (by omega)]
  have hbytes : ∀ i < 8, (memCheckDone e820Buffer s).mem (e820Buffer + entrySize * map.length + i) =
      wordByte memE820EndMap i := by
    intro i hi
    change blit s.di 4 (wordByte memE820EndMap) s.mem _ = _
    rw [hdi]
    by_cases hlow : i < 4
    · rw [blit_inside hlow]
    · have hzero := hzeroed (entrySize * map.length + i) (by rw [entrySize]; omega)
      rw [← Nat.add_assoc] at hzero
      rw [blit_outside (Or.inr (by omega)), hfilled.rest _ (by omega), hzero]
      have hpow : 256 ^ 4 ≤ 256 ^ i := Nat.pow_le_pow_right (by decide) (Nat.le_of_not_lt hlow)
      exact (wordByte_eq_zero (lt_of_lt_of_le (by decide) hpow)).symm
  rw [readQword_of_bytes hbytes]
  rfl

theorem memCheckDone_entry {s : Detector} (hfilled : Filled e820Buffer mem map s)
    (hroom : e820Buffer + entrySize * map.length < 2 ^ 16) {k : ℕ} (hk : k < map.length)
    (hpacked : Packed map[k]) :
    entryAt (memCheckDone e820Buffer s).mem (e820Buffer + entrySize * k) = map[k] := by
  refine entryAt_eq (fun i hi => ?_) hpacked
  have hdi : s.di = e820Buffer + entrySize * map.length := hfilled.di.trans (Nat.mod_eq_of_lt hroom)
  have hbelow := Nat.mul_le_mul_left entrySize hk
  rw [Nat.mul_succ] at hbelow
  change blit s.di 4 (wordByte memE820EndMap) s.mem _ = _
  rw [hdi, blit_outside (Or.inl (by omega))]
  exact hfilled.entries k hk i hi

theorem memCheckDone_inside {s : Detector} (hfilled : Filled e820Buffer mem map s)
    (hready : BufferReady e820Buffer mem) (hroom : map.length < memorymapMaxEntries) :
    ∀ a ∈ (memCheckDone e820Buffer s).written, e820Buffer ≤ a ∧ a < e820Buffer + bufferSize := by
  have hsize := hready.segment
  rw [bufferSize, memorymapMaxEntries] at *
  simp only [entrySize] at hsize
  intro a ha
  rcases List.mem_append.mp ha with hentry | hmarker
  · have hin := hfilled.inside a hentry
    simp only [entrySize] at hin ⊢
    omega
  · obtain ⟨i, hi, rfl⟩ := List.mem_map.mp hmarker
    have hi := List.mem_range.mp hi
    rw [hfilled.di, Nat.mod_eq_of_lt (by simp only [entrySize]; omega)]
    simp only [entrySize]
    omega

theorem bufferReady_zero : BufferReady 0x9000 fun _ => 0 := ⟨by decide, fun _ _ => rfl⟩

/-- With `rest` entries to go the kernel has visited those before them. -/
structure Visiting (memoryInfo : ℕ) (map : List E820MemoryMap) (rest : ℕ) (w : Walk) : Prop where
  left : rest ≤ map.length
  at_entry : w.e820Entry = memoryInfo + entrySize * (map.length - rest)
  visited : w.visited = map.take (map.length - rest)

theorem Visiting.pass {memoryInfo rest : ℕ} {w : Walk} (h : Visiting memoryInfo map (rest + 1) w)
    (hroom : memoryInfo + entrySize * map.length < wordSize)
    (hentries : ∀ k (hk : k < map.length), entryAt mem (memoryInfo + entrySize * k) = map[k])
    (hplain : ∀ e ∈ map, e.base ≠ memE820EndMap) :
    readQword mem w.e820Entry ≠ memE820EndMap ∧
      Visiting memoryInfo map rest ⟨wadd w.e820Entry entrySize, w.visited ++ [entryAt mem w.e820Entry]⟩ := by
  have hleft := h.left
  have hk : map.length - (rest + 1) < map.length := by omega
  have hnext : map.length - rest = map.length - (rest + 1) + 1 := by omega
  have hat := hentries _ hk
  rw [← h.at_entry] at hat
  have hbase : readQword mem w.e820Entry = map[map.length - (rest + 1)].base :=
    congrArg E820MemoryMap.base hat
  constructor
  · rw [hbase]
    exact hplain _ (List.getElem_mem hk)
  · refine ⟨by omega, ?_, ?_⟩
    · rw [h.at_entry, hnext, Nat.mul_succ, ← Nat.add_assoc]
      refine wadd_of_lt ?_
      rw [entrySize] at hroom ⊢
      omega
    · rw [hat, h.visited, hnext, List.take_append_getElem]

/-- The walk stops at the first base that looks like the mark. -/
theorem printMemInfo_visits {memoryInfo : ℕ} (hroom : memoryInfo + entrySize * map.length < wordSize)
    (hentries : ∀ k (hk : k < map.length), entryAt mem (memoryInfo + entrySize * k) = map[k])
    (hplain : ∀ e ∈ map, e.base ≠ memE820EndMap)
    (hend : readQword mem (memoryInfo + entrySize * map.length) = memE820EndMap) :
    ∃ t, printMemInfo (map.length + 1) mem memoryInfo = some t ∧ t.visited = map := by
  have hstart : Visiting memoryInfo map map.length ⟨memoryInfo, []⟩ := by
    refine ⟨le_rfl, ?_, ?_⟩
    all_goals rw [Nat.sub_self]
    · rfl
    · rfl
  have hstop : ∀ w, Visiting memoryInfo map 0 w →
      decide (readQword mem w.e820Entry ≠ memE820EndMap) = false := by
    intro w hw
    rw [hw.at_entry, Nat.sub_zero, hend]
    exact decide_eq_false fun h => h rfl
  obtain ⟨t, ht, hdone⟩ := whileLoop_total
    (b := fun w => some ⟨wadd w.e820Entry entrySize, w.visited ++ [entryAt mem w.e820Entry]⟩)
    (Visiting memoryInfo map)
    (fun rest w hw => ⟨decide_eq_true (hw.pass hroom hentries hplain).1, _, rfl,
      (hw.pass hroom hentries hplain).2⟩) hstop hstart
  refine ⟨t, ht, ?_⟩
  rw [hdone.visited, Nat.sub_zero, List.take_length]

/-- Entry 32 and the marker behind 32 entries are stored behind the buffer. -/
theorem written_outside (hready : BufferReady e820Buffer mem) (hlong : memorymapMaxEntries ≤ map.length) :
    (e820Buffer + bufferSize) % 2 ^ 16 ∈
      (memCheckDone e820Buffer (map.foldl takeEntry ⟨mem, [], e820Buffer, 0, 0⟩)).written := by
  have hsize := hready.segment
  have hlow : e820Buffer < 2 ^ 16 := by
    rw [bufferSize, memorymapMaxEntries] at hsize
    simp only [entrySize] at hsize
    omega
  have hdi : ((map.take memorymapMaxEntries).foldl takeEntry ⟨mem, [], e820Buffer, 0, 0⟩).di =
      (e820Buffer + bufferSize) % 2 ^ 16 := by
    rw [foldl_di _ _ hlow, List.length_take, Nat.min_eq_left hlong, bufferSize, Nat.mul_comm]
  have hsplit := List.take_append_drop memorymapMaxEntries map
  refine List.mem_append.mpr ?_
  cases hdrop : map.drop memorymapMaxEntries with
  | nil =>
    right
    rw [hdrop, List.append_nil] at hsplit
    rw [hsplit] at hdi
    rw [hdi]
    exact List.mem_map.mpr ⟨0, by decide, Nat.add_zero _⟩
  | cons e rest =>
    left
    rw [hdrop] at hsplit
    rw [← hsplit, List.foldl_append, List.foldl_cons]
    refine written_mono rest _ ?_
    rw [takeEntry_written, hdi]
    exact List.mem_append_right _ (List.mem_map.mpr ⟨0, by decide, Nat.add_zero _⟩)

theorem not_handsOver (hreports : Reports replies map) (hready : BufferReady e820Buffer mem)
    (hlong : memorymapMaxEntries ≤ map.length) : ¬ HandsOver e820Buffer replies map mem := by
  have hsize := hready.segment
  have hbytes : bufferSize = 640 := rfl
  rintro ⟨s, hs, hinside, _⟩
  cases (detectMemory_reports hreports e820Buffer mem).symm.trans hs
  have hout := hinside _ (written_outside hready hlong)
  omega

/-- The map is handed over exactly when the buffer has room for one entry more. -/
theorem handsOver_iff (e820Buffer : ℕ) (replies : List BiosReply) (map : List E820MemoryMap) (mem : ByteMem)
    (hreports : Reports replies map) (hpacked : ∀ e ∈ map, Packed e) (hready : BufferReady e820Buffer mem) :
    HandsOver e820Buffer replies map mem ↔ map.length < memorymapMaxEntries := by
  have hdetect := detectMemory_reports hreports e820Buffer mem
  have hsize := hready.segment
  constructor
  · intro h
    by_contra hlong
    exact not_handsOver hreports hready (Nat.le_of_not_lt hlong) h
  · intro hroom
    have hlast : e820Buffer + entrySize * map.length + 4 ≤ e820Buffer + bufferSize := by
      rw [bufferSize]
      simp only [memorymapMaxEntries, entrySize] at hroom ⊢
      omega
    have hfilled : Filled e820Buffer mem map (map.foldl takeEntry ⟨mem, [], e820Buffer, 0, 0⟩) :=
      Filled.run map (by omega) (by omega)
    refine ⟨_, hdetect, memCheckDone_inside hfilled hready hroom, fun hplain => ?_⟩
    · have hword : 2 ^ 16 < wordSize := by decide
      have hfits : e820Buffer + entrySize * map.length < 2 ^ 16 := by omega
      obtain ⟨t, ht, hvisited⟩ := printMemInfo_visits (by omega)
        (fun k hk => memCheckDone_entry hfilled hfits hk (hpacked _ (List.getElem_mem hk))) hplain
        (readQword_marker hfilled hready hroom)
      exact ⟨_, t, ht, hvisited⟩

end HandOver

/-- Every entry of the map is the same 4 KB of available memory. -/
def samePage : E820MemoryMap := ⟨0x100000, 0x1000, 1⟩

def pageReplies (n : ℕ) : List BiosReply :=
  List.replicate n ⟨false, smap, 20, 1, samePage⟩ ++ [⟨false, smap, 20, 0, samePage⟩]

theorem pageReplies_reports (n : ℕ) : Reports (pageReplies n) (List.replicate (n + 1) samePage) := by
  induction n with
  | zero => exact Reports.last samePage
  | succ n ih => exact Reports.more samePage Nat.one_ne_zero ih

theorem packed_samePage : Packed samePage := by
  constructor <;> decide

theorem handsOver_two : HandsOver 0x9000 (pageReplies 1) (List.replicate 2 samePage) fun _ => 0 :=
  (handsOver_iff 0x9000 (pageReplies 1) (List.replicate 2 samePage) (fun _ => 0) (pageReplies_reports 1)
    (fun _ he => List.eq_of_mem_replicate he ▸ packed_samePage) bufferReady_zero).mpr (by decide)

/-- The marker behind 32 entries is stored behind the buffer. -/
theorem handsOver_fails :
    Reports (pageReplies 31) (List.replicate memorymapMaxEntries samePage) ∧
      ¬ HandsOver 0x9000 (pageReplies 31) (List.replicate memorymapMaxEntries samePage) fun _ => 0 := by
  have hreports := pageReplies_reports 31
  exact ⟨hreports, not_handsOver hreports bufferReady_zero List.length_replicate.ge⟩

end Ktux.MemoryMap
