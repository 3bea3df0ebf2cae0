import Ktux.ByteMemory
import Ktux.Loops

set_option autoImplicit false

/-!
# Parsing and preparing the kernel image

`parseELFHeader` and `prepareKernel` of `klLoadKernel.s`. The byte loops of `prepareKernel` test their
counter after decrementing it, so a counter of zero makes `2^32` passes.
-/
namespace Ktux.PrepareKernel
open Words Loops ByteMemory

@[simp] def errInvalidELF : ℕ := 5
@[simp] def errNotExecELF : ℕ := 6
@[simp] def errNumSegments : ℕ := 7
@[simp] def errSegmentLayout : ℕ := 8
@[simp] def errSegmentAlign : ℕ := 9
@[simp] def elfFileType : ℕ := 0x10
@[simp] def elfEntryPoint : ℕ := 0x18
@[simp] def elfProgramHeader : ℕ := 0x1C
@[simp] def elfNumSegments : ℕ := 0x2C
@[simp] def elfMagicNumber : ℕ := 0x464C457F
@[simp] def elfETExecutable : ℕ := 2
@[simp] def pageSize : ℕ := 4096
@[simp] def firstMegabyte : ℕ := 0x100000

structure ProgramHeader where
  offset : ℕ
  virtAddress : ℕ
  fileSize : ℕ
  memSize : ℕ
  align : ℕ

/-- Segment type, physical address and flags are skipped. -/
def readProgramHeader (m : ByteMem) (esi : ℕ) : ProgramHeader where
  offset := readDword m (wadd esi 0x4)
  virtAddress := readDword m (wadd esi 0x8)
  fileSize := readDword m (wadd esi 0x10)
  memSize := readDword m (wadd esi 0x14)
  align := readDword m (wadd esi 0x1C)

structure KernelImage where
  kernelEntryPoint : ℕ
  kernelCodeOffset : ℕ
  kernelCodeVirtAddress : ℕ
  kernelCodeFileSize : ℕ
  kernelDataOffset : ℕ
  kernelDataVirtAddress : ℕ
  kernelDataFileSize : ℕ
  kernelDataMemSize : ℕ

/-- An error code, or the end of the kernel and the image's description. -/
def parseELFHeader (pKernelAddress : ℕ) (m : ByteMem) : Except ℕ (ℕ × KernelImage) :=
  if readDword m pKernelAddress ≠ elfMagicNumber then .error errInvalidELF
  else if readWord m (wadd pKernelAddress elfFileType) ≠ elfETExecutable then .error errNotExecELF
  else if readDword m (wadd pKernelAddress elfNumSegments) % 2 ^ 16 ≠ 2 then .error errNumSegments
  else
    let esi := wadd pKernelAddress (readDword m (wadd pKernelAddress elfProgramHeader))
    let code := readProgramHeader m esi
    let data := readProgramHeader m (wadd esi 0x20)
    if code.memSize ≠ code.fileSize then .error errSegmentLayout
    else if code.align ≠ pageSize then .error errSegmentAlign
    else if data.align ≠ pageSize then .error errSegmentAlign
    else
      .ok (wadd data.virtAddress data.memSize,
        { kernelEntryPoint := readDword m (wadd pKernelAddress elfEntryPoint)
          kernelCodeOffset := code.offset
          kernelCodeVirtAddress := code.virtAddress
          kernelCodeFileSize := code.fileSize
          kernelDataOffset := data.offset
          kernelDataVirtAddress := data.virtAddress
          kernelDataFileSize := data.fileSize
          kernelDataMemSize := data.memSize })

/-- Memory and the addresses written so far. -/
structure Store where
  bytes : ByteMem
  written : List ℕ

structure Registers extends Store where
  ecx : ℕ
  esi : ℕ
  edi : ℕ

def moveByte (r : Registers) : Registers where
  bytes := Function.update r.bytes r.edi (r.bytes r.esi)
  written := r.written ++ [r.edi]
  ecx := wsub r.ecx 1
  esi := wadd r.esi 1
  edi := wadd r.edi 1

def zeroByte (r : Registers) : Registers where
  bytes := Function.update r.bytes r.edi 0
  written := r.written ++ [r.edi]
  ecx := wsub r.ecx 1
  esi := r.esi
  edi := wadd r.edi 1

def byteLoop (body : Registers → Registers) (fuel : ℕ) (r : Registers) : Option Store :=
  (doLoop (fun r => some (body r)) (fun r => r.ecx ≠ 0) fuel r).map Registers.toStore

def moveCodeSegment (fuel pKernelAddress : ℕ) (k : KernelImage) (s : Store) : Option Store :=
  byteLoop moveByte fuel
    { toStore := s
      ecx := k.kernelCodeFileSize
      esi := wadd pKernelAddress k.kernelCodeOffset
      edi := pKernelAddress }

def dataDistance (k : KernelImage) : ℕ := wsub k.kernelDataVirtAddress k.kernelCodeVirtAddress

/-- Also the new `kernelDataOffset`. -/
def moveDataSegment (fuel pKernelAddress : ℕ) (k : KernelImage) (s : Store) : Option (ℕ × Store) :=
  if dataDistance k = k.kernelDataOffset then some (k.kernelDataOffset, s)
  else
    (byteLoop moveByte fuel
      { toStore := s
        ecx := k.kernelDataFileSize
        esi := wadd pKernelAddress k.kernelDataOffset
        edi := wadd (dataDistance k) pKernelAddress }).map fun s => (dataDistance k, s)

def zeroData (fuel pKernelAddress dataOffset : ℕ) (k : KernelImage) (s : Store) : Option Store :=
  byteLoop zeroByte fuel
    { toStore := s
      ecx := wsub k.kernelDataMemSize k.kernelDataFileSize
      esi := 0
      edi := wadd (wadd pKernelAddress dataOffset) k.kernelDataFileSize }

def prepareKernel (fuel pKernelAddress : ℕ) (k : KernelImage) (s : Store) : Option Store := do
  let s ← moveCodeSegment fuel pKernelAddress k s
  let (dataOffset, s) ← moveDataSegment fuel pKernelAddress k s
  zeroData fuel pKernelAddress dataOffset k s

/-- Images whose segments are in order and fit the address space. -/
structure Loadable (pKernelAddress : ℕ) (k : KernelImage) : Prop where
  above : firstMegabyte ≤ pKernelAddress
  code_pos : 0 < k.kernelCodeFileSize
  mem_le : k.kernelDataFileSize ≤ k.kernelDataMemSize
  file_order : k.kernelCodeOffset + k.kernelCodeFileSize ≤ k.kernelDataOffset
  virt_order : k.kernelCodeVirtAddress + k.kernelCodeFileSize ≤ k.kernelDataVirtAddress
  file_fits : pKernelAddress + k.kernelDataOffset + k.kernelDataFileSize ≤ wordSize
  virt_fits : k.kernelDataVirtAddress + k.kernelDataMemSize < wordSize
  image_fits : pKernelAddress + (k.kernelDataVirtAddress - k.kernelCodeVirtAddress) +
    k.kernelDataMemSize < wordSize

/-- `s` holds the segments of the file that was at `pKernelAddress` in `m`. -/
structure HoldsImage (pKernelAddress : ℕ) (k : KernelImage) (m : ByteMem) (s : Store) : Prop where
  code : ∀ v, k.kernelCodeVirtAddress ≤ v → v < k.kernelCodeVirtAddress + k.kernelCodeFileSize →
    s.bytes (pKernelAddress + (v - k.kernelCodeVirtAddress)) =
      m (pKernelAddress + k.kernelCodeOffset + (v - k.kernelCodeVirtAddress))
  data : ∀ v, k.kernelDataVirtAddress ≤ v → v < k.kernelDataVirtAddress + k.kernelDataMemSize →
    s.bytes (pKernelAddress + (v - k.kernelCodeVirtAddress)) =
      if v < k.kernelDataVirtAddress + k.kernelDataFileSize then
        m (pKernelAddress + k.kernelDataOffset + (v - k.kernelDataVirtAddress)) else 0
  below : ∀ a ∈ s.written, a <
    pKernelAddress + (k.kernelDataVirtAddress + k.kernelDataMemSize - k.kernelCodeVirtAddress)

/-- An image that `parseELFHeader` has accepted with the result `kernelEnd` is laid out as its headers say. -/
def BuildsImage (pKernelAddress : ℕ) (k : KernelImage) (kernelEnd : ℕ) (m : ByteMem) : Prop :=
  kernelEnd = k.kernelDataVirtAddress + k.kernelDataMemSize ∧
    ∃ fuel s, prepareKernel fuel pKernelAddress k ⟨m, []⟩ = some s ∧ HoldsImage pKernelAddress k m s

/-- There are bytes to clear, and the data segment is in its place, or it can be moved there from the
lowest byte up. -/
structure Movable (pKernelAddress : ℕ) (k : KernelImage) (m : ByteMem) : Prop where
  bss : k.kernelDataFileSize ≠ k.kernelDataMemSize
  moved : k.kernelDataVirtAddress - k.kernelCodeVirtAddress ≠ k.kernelDataOffset →
    k.kernelDataFileSize ≠ 0 ∧
      ∀ d, k.kernelDataVirtAddress - k.kernelCodeVirtAddress = k.kernelDataOffset + d →
        ∀ i, i + d < k.kernelDataFileSize →
          m (pKernelAddress + k.kernelDataOffset + (i + d)) = m (pKernelAddress + k.kernelDataOffset + i)

section Loop
variable {r : Registers} {body : Registers → Registers}

structure ByteBody (body : Registers → Registers) : Prop where
  ecx : ∀ r, (body r).ecx = wsub r.ecx 1
  edi : ∀ r, (body r).edi = wadd r.edi 1
  written : ∀ r, (body r).written = r.written ++ [r.edi]

theorem byteBody_move : ByteBody moveByte := ⟨fun _ => rfl, fun _ => rfl, fun _ => rfl⟩

theorem byteBody_zero : ByteBody zeroByte := ⟨fun _ => rfl, fun _ => rfl, fun _ => rfl⟩

def passes (ecx : ℕ) : ℕ := if ecx = 0 then wordSize else ecx

theorem wadd_wadd (a k : ℕ) : wadd (wadd a k) 1 = wadd a (k + 1) := by
  unfold wadd
  rw [wordSize_eq]
  omega

theorem wadd_zero {a : ℕ} (ha : a < wordSize) : wadd a 0 = a := wadd_of_lt ha

theorem ByteBody.iterate_ecx (h : ByteBody body) (hecx : r.ecx < wordSize) (k : ℕ) :
    (body^[k] r).ecx = wsub r.ecx k := by
  induction k with
  | zero => exact (wsub_of_le (Nat.zero_le _) hecx).symm
  | succ k ih =>
    rw [Function.iterate_succ_apply', h.ecx, ih]
    unfold wsub
    rw [wordSize_eq]
    omega

theorem ByteBody.iterate_edi (h : ByteBody body) (hedi : r.edi < wordSize) (k : ℕ) :
    (body^[k] r).edi = wadd r.edi k := by
  induction k with
  | zero => exact (wadd_zero hedi).symm
  | succ k ih => rw [Function.iterate_succ_apply', h.edi, ih, wadd_wadd]

theorem ByteBody.iterate_written (h : ByteBody body) (hedi : r.edi < wordSize) (k : ℕ) (a : ℕ) :
    a ∈ (body^[k] r).written ↔ a ∈ r.written ∨ ∃ j < k, a = wadd r.edi j := by
  induction k with
  | zero => simp
  | succ k ih =>
    rw [Function.iterate_succ_apply', h.written, List.mem_append, ih, List.mem_singleton,
      h.iterate_edi hedi, or_assoc]
    refine or_congr_right ⟨?_, ?_⟩
    · rintro (⟨j, hj, hja⟩ | hk)
      · exact ⟨j, by omega, hja⟩
      · exact ⟨k, by omega, hk⟩
    · rintro ⟨j, hj, hja⟩
      rcases Nat.lt_succ_iff_lt_or_eq.mp hj with hj | rfl
      · exact Or.inl ⟨j, hj, hja⟩
      · exact Or.inr hja

theorem ByteBody.byteLoop (h : ByteBody body) (hecx : r.ecx < wordSize) :
    byteLoop body wordSize r = some (body^[passes r.ecx] r).toStore := by
  have hpasses : 0 < passes r.ecx ∧ passes r.ecx ≤ wordSize ∧ wsub r.ecx (passes r.ecx) = 0 ∧
      ∀ k, 0 < k → k < passes r.ecx → wsub r.ecx k ≠ 0 := by
    unfold passes wsub
    rw [wordSize_eq] at *
    split_ifs with hzero
    · exact ⟨by omega, by omega, by omega, fun k _ _ => by omega⟩
    · exact ⟨by omega, by omega, by omega, fun k _ _ => by omega⟩
  obtain ⟨hpos, hle, hend, hgoes⟩ := hpasses
  obtain ⟨k, hk⟩ : ∃ k, passes r.ecx = k + 1 := ⟨passes r.ecx - 1, by omega⟩
  have hloop := doLoop_iterate (b := fun r => some (body r)) (c := fun r => r.ecx ≠ 0) body
    (fun _ => rfl) k r (fun j hj => by
      rw [h.iterate_ecx hecx]
      exact decide_eq_true (hgoes _ (Nat.succ_pos j) (by omega)))
    (by
      rw [h.iterate_ecx hecx, ← hk]
      exact decide_eq_false (fun hne => hne hend))
  rw [PrepareKernel.byteLoop, doLoop_mono (by omega) hloop, hk]
  rfl

theorem byteLoop_unique {fuel fuel' : ℕ} {s s' : Store} (h : byteLoop body fuel r = some s)
    (h' : byteLoop body fuel' r = some s') : s = s' := by
  obtain ⟨u, hu, rfl⟩ := Option.map_eq_some_iff.mp h
  obtain ⟨u', hu', rfl⟩ := Option.map_eq_some_iff.mp h'
  rw [doLoop_unique hu hu']

/-- A counter of zero makes the loop write everywhere. -/
theorem ByteBody.written_all (h : ByteBody body) (hedi : r.edi < wordSize) {a : ℕ} (ha : a < wordSize) :
    a ∈ (body^[passes 0] r).written := by
  refine (h.iterate_written hedi _ a).mpr (Or.inr ⟨wsub a r.edi, wsub_lt _ _, ?_⟩)
  unfold wadd wsub
  rw [wordSize_eq] at *
  omega

/-- A counter that does not reach the end of memory makes the loop write its range. -/
theorem ByteBody.written_range (h : ByteBody body) {n : ℕ} (hn : r.edi + n < wordSize) {a : ℕ} :
    a ∈ (body^[n] r).written ↔ a ∈ r.written ∨ r.edi ≤ a ∧ a < r.edi + n := by
  rw [h.iterate_written (by omega)]
  refine or_congr_right ⟨?_, ?_⟩
  · rintro ⟨j, hj, rfl⟩
    rw [wadd_of_lt (by omega)]
    omega
  · rintro ⟨hle, hlt⟩
    exact ⟨a - r.edi, by omega, by rw [wadd_of_lt (by omega)]; omega⟩

theorem ByteBody.run (h : ByteBody body) (hecx : r.ecx < wordSize) (hedi : r.edi < wordSize) :
    ∃ s, PrepareKernel.byteLoop body wordSize r = some s ∧ (∀ a ∈ r.written, a ∈ s.written) ∧
      (r.ecx = 0 → ∀ a < wordSize, a ∈ s.written) ∧
      (r.ecx ≠ 0 → r.edi + r.ecx < wordSize → s.bytes = (body^[r.ecx] r).bytes ∧
        ∀ a, a ∈ s.written ↔ a ∈ r.written ∨ r.edi ≤ a ∧ a < r.edi + r.ecx) := by
  refine ⟨_, h.byteLoop hecx, fun a ha => ?_, fun hzero a ha => ?_, fun hne hfits => ?_⟩
  · exact (h.iterate_written hedi _ a).mpr (Or.inl ha)
  · rw [hzero]
    exact h.written_all hedi ha
  · have hpasses : passes r.ecx = r.ecx := if_neg hne
    rw [hpasses]
    exact ⟨rfl, fun a => h.written_range hfits⟩

theorem moveByte_iterate (hesi : r.esi < wordSize) (hedi : r.edi < wordSize) (k : ℕ) :
    (moveByte^[k] r).bytes = copyUp 1 k r.esi r.edi r.bytes ∧ (moveByte^[k] r).esi = wadd r.esi k := by
  induction k with
  | zero => exact ⟨rfl, (wadd_zero hesi).symm⟩
  | succ k ih =>
    obtain ⟨hbytes, hsrc⟩ := ih
    rw [Function.iterate_succ_apply']
    constructor
    · rw [copyUp, moveUnit, blit_one, Nat.one_mul, Nat.add_zero, ← hbytes, ← hsrc,
        ← byteBody_move.iterate_edi hedi]
      rfl
    · rw [← wadd_wadd, ← hsrc]
      rfl

theorem zeroByte_iterate {n : ℕ} (hn : r.edi + n ≤ wordSize) :
    (zeroByte^[n] r).bytes = blit r.edi n (fun _ => 0) r.bytes := by
  induction n with
  | zero => exact (blit_zero _ _ r.bytes).symm
  | succ n ih =>
    have hedi := byteBody_zero.iterate_edi (r := r) (by omega) n
    rw [wadd_of_lt (by omega)] at hedi
    rw [Function.iterate_succ_apply', ← blit_blit, ← ih (by omega), blit_one, ← hedi]
    rfl

end Loop

section Stages
variable {p : ℕ} {k : KernelImage}

def codeMoved (p : ℕ) (k : KernelImage) (m : ByteMem) : ByteMem :=
  blit p k.kernelCodeFileSize (fun i => m (p + k.kernelCodeOffset + i)) m

theorem Loadable.distance (h : Loadable p k) :
    dataDistance k = k.kernelDataVirtAddress - k.kernelCodeVirtAddress := by
  have horder := h.virt_order
  have hfits := h.virt_fits
  exact wsub_of_le (by omega) (by omega)

theorem Loadable.moveCode (h : Loadable p k) (m : ByteMem) :
    ∃ s, moveCodeSegment wordSize p k ⟨m, []⟩ = some s ∧ s.bytes = codeMoved p k m ∧
      ∀ a, a ∈ s.written ↔ p ≤ a ∧ a < p + k.kernelCodeFileSize := by
  obtain ⟨_, hpos, _, hfile, hvirt, hfits, _, himage⟩ := h
  have hsrc : wadd p k.kernelCodeOffset = p + k.kernelCodeOffset := wadd_of_lt (by omega)
  obtain ⟨s, hs, _, _, hrun⟩ := byteBody_move.run (r := ⟨⟨m, []⟩, k.kernelCodeFileSize,
    wadd p k.kernelCodeOffset, p⟩) (by simp only; omega) (by simp only; omega)
  obtain ⟨hbytes, hwritten⟩ := hrun (by simp only; omega) (by simp only; omega)
  refine ⟨s, hs, ?_, fun a => ?_⟩
  · rw [hbytes, (moveByte_iterate (by simp only; omega) (by simp only; omega) _).1, codeMoved]
    simp only [hsrc]
    rw [copyUp_eq m Nat.zero_lt_one (by omega) (by omega) (by omega), Nat.one_mul]
  · rw [hwritten]
    simp

theorem Loadable.moveData (h : Loadable p k) (hne : dataDistance k ≠ k.kernelDataOffset) (s : Store) :
    ∃ t, moveDataSegment wordSize p k s = some (dataDistance k, t) ∧
      (k.kernelDataFileSize = 0 → ∀ a < wordSize, a ∈ t.written) ∧
      (k.kernelDataFileSize ≠ 0 →
        t.bytes = copyUp 1 k.kernelDataFileSize (p + k.kernelDataOffset) (p + dataDistance k) s.bytes ∧
        ∀ a, a ∈ t.written ↔ a ∈ s.written ∨
          p + dataDistance k ≤ a ∧ a < p + dataDistance k + k.kernelDataFileSize) := by
  have hdistance := h.distance
  obtain ⟨_, hpos, hmem, hfile, hvirt, hfits, _, himage⟩ := h
  rw [← hdistance] at himage
  have hdst : wadd (dataDistance k) p = p + dataDistance k := by
    rw [wadd_of_lt (by omega), Nat.add_comm]
  obtain ⟨t, ht, _, hall, hrun⟩ := byteBody_move.run (r := ⟨s, k.kernelDataFileSize,
    wadd p k.kernelDataOffset, p + dataDistance k⟩) (by simp only; omega) (by simp only; omega)
  refine ⟨t, ?_, hall, fun hzero => ?_⟩
  · rw [moveDataSegment, if_neg hne, hdst, ht]
    rfl
  · obtain ⟨hbytes, hwritten⟩ := hrun hzero (by simp only; omega)
    have hsrc : wadd p k.kernelDataOffset = p + k.kernelDataOffset := wadd_of_lt (by omega)
    refine ⟨?_, hwritten⟩
    rw [hbytes, (moveByte_iterate (wadd_lt _ _) (by simp only; omega) _).1]
    simp only [hsrc]

theorem Loadable.zeroData (h : Loadable p k) (s : Store) :
    ∃ t, zeroData wordSize p (dataDistance k) k s = some t ∧ (∀ a ∈ s.written, a ∈ t.written) ∧
      (k.kernelDataFileSize = k.kernelDataMemSize → ∀ a < wordSize, a ∈ t.written) ∧
      (k.kernelDataFileSize ≠ k.kernelDataMemSize →
        t.bytes = blit (p + dataDistance k + k.kernelDataFileSize)
          (k.kernelDataMemSize - k.kernelDataFileSize) (fun _ => 0) s.bytes ∧
        ∀ a, a ∈ t.written ↔ a ∈ s.written ∨ p + dataDistance k + k.kernelDataFileSize ≤ a ∧
          a < p + dataDistance k + k.kernelDataMemSize) := by
  have hdistance := h.distance
  obtain ⟨_, hpos, hmem, hfile, hvirt, hfits, _, himage⟩ := h
  rw [← hdistance] at himage
  have hcount : wsub k.kernelDataMemSize k.kernelDataFileSize =
      k.kernelDataMemSize - k.kernelDataFileSize := wsub_of_le hmem (by omega)
  have hstart : wadd (wadd p (dataDistance k)) k.kernelDataFileSize =
      p + dataDistance k + k.kernelDataFileSize := by
    rw [wadd_of_lt (a := p) (by omega), wadd_of_lt (by omega)]
  obtain ⟨t, ht, hkeep, hall, hrun⟩ := byteBody_zero.run (r := ⟨s, k.kernelDataMemSize -
    k.kernelDataFileSize, 0, p + dataDistance k + k.kernelDataFileSize⟩) (by simp only; omega)
    (by simp only; omega)
  refine ⟨t, ?_, hkeep, fun heq => hall (by simp only; omega), fun hne => ?_⟩
  · rw [PrepareKernel.zeroData, hcount, hstart]
    exact ht
  · obtain ⟨hbytes, hwritten⟩ := hrun (by simp only; omega) (by simp only; omega)
    refine ⟨?_, fun a => ?_⟩
    · rw [hbytes, zeroByte_iterate (by simp only; omega)]
    · rw [hwritten]
      simp only
      refine or_congr_right ?_
      omega

def dataPlaced (p : ℕ) (k : KernelImage) (m : ByteMem) : ByteMem :=
  if dataDistance k = k.kernelDataOffset then codeMoved p k m
  else copyUp 1 k.kernelDataFileSize (p + k.kernelDataOffset) (p + dataDistance k) (codeMoved p k m)

def Overruns (k : KernelImage) : Prop :=
  k.kernelDataFileSize = k.kernelDataMemSize ∨
    dataDistance k ≠ k.kernelDataOffset ∧ k.kernelDataFileSize = 0

theorem prepareKernel_stages {fuel d : ℕ} {s₀ s u t : Store}
    (hs : moveCodeSegment fuel p k s₀ = some s) (hu : moveDataSegment fuel p k s = some (d, u))
    (ht : zeroData fuel p d k u = some t) : prepareKernel fuel p k s₀ = some t := by
  rw [prepareKernel, hs]
  simp only [Option.bind_eq_bind, Option.bind_some, hu, ht]

theorem Loadable.prepare (h : Loadable p k) (m : ByteMem) :
    ∃ s, prepareKernel wordSize p k ⟨m, []⟩ = some s ∧ (Overruns k → ∀ a < wordSize, a ∈ s.written) ∧
      (¬ Overruns k →
        s.bytes = blit (p + dataDistance k + k.kernelDataFileSize)
          (k.kernelDataMemSize - k.kernelDataFileSize) (fun _ => 0) (dataPlaced p k m) ∧
        ∀ a ∈ s.written, a < p + dataDistance k + k.kernelDataMemSize) := by
  have hdistance := h.distance
  obtain ⟨s, hs, hsbytes, hswritten⟩ := h.moveCode m
  have hbelow : ∀ a ∈ s.written, a < p + dataDistance k + k.kernelDataMemSize := by
    intro a ha
    have hin := (hswritten a).mp ha
    have horder := h.virt_order
    omega
  obtain ⟨u, hu, hukept, hbytes⟩ : ∃ u, moveDataSegment wordSize p k s = some (dataDistance k, u) ∧
      (dataDistance k ≠ k.kernelDataOffset ∧ k.kernelDataFileSize = 0 → ∀ a < wordSize, a ∈ u.written) ∧
      (¬ Overruns k → u.bytes = dataPlaced p k m ∧
        ∀ a ∈ u.written, a < p + dataDistance k + k.kernelDataMemSize) := by
    by_cases heq : dataDistance k = k.kernelDataOffset
    · refine ⟨s, ?_, fun hover => absurd heq hover.1, fun _ => ⟨?_, hbelow⟩⟩
      · rw [moveDataSegment, if_pos heq, heq]
      · rw [hsbytes, dataPlaced, if_pos heq]
    · obtain ⟨u, hu, hall, hmoved⟩ := h.moveData heq s
      refine ⟨u, hu, fun hover => hall hover.2, fun hover => ?_⟩
      obtain ⟨hubytes, huwritten⟩ := hmoved fun hzero => hover (Or.inr ⟨heq, hzero⟩)
      refine ⟨?_, fun a ha => ?_⟩
      · rw [hubytes, hsbytes, dataPlaced, if_neg heq]
      · have hmem := h.mem_le
        rcases (huwritten a).mp ha with ha | ha
        · exact hbelow a ha
        · omega
  obtain ⟨t, ht, hkeep, hall, hzeroed⟩ := h.zeroData u
  refine ⟨t, prepareKernel_stages hs hu ht, ?_, fun hover => ?_⟩
  · rintro (heq | hover) a ha
    · exact hall heq a ha
    · exact hkeep a (hukept hover a ha)
  · obtain ⟨htbytes, htwritten⟩ := hzeroed fun heq => hover (Or.inl heq)
    obtain ⟨hubytes, hubelow⟩ := hbytes hover
    refine ⟨by rw [htbytes, hubytes], fun a ha => ?_⟩
    rcases (htwritten a).mp ha with ha | ha
    · exact hubelow a ha
    · exact ha.2

theorem prepareKernel_unique {fuel fuel' : ℕ} {s t t' : Store} (h : prepareKernel fuel p k s = some t)
    (h' : prepareKernel fuel' p k s = some t') : t = t' := by
  simp only [prepareKernel, Option.bind_eq_bind] at h h'
  obtain ⟨a, ha, h⟩ := Option.bind_eq_some_iff.mp h
  obtain ⟨a', ha', h'⟩ := Option.bind_eq_some_iff.mp h'
  cases byteLoop_unique ha ha'
  obtain ⟨⟨d, b⟩, hb, h⟩ := Option.bind_eq_some_iff.mp h
  obtain ⟨⟨d', b'⟩, hb', h'⟩ := Option.bind_eq_some_iff.mp h'
  have hsame : d = d' ∧ b = b' := by
    unfold moveDataSegment at hb hb'
    split_ifs at hb hb'
    · cases hb
      cases hb'
      exact ⟨rfl, rfl⟩
    · obtain ⟨x, hx, hxb⟩ := Option.map_eq_some_iff.mp hb
      obtain ⟨x', hx', hxb'⟩ := Option.map_eq_some_iff.mp hb'
      cases byteLoop_unique hx hx'
      exact Prod.mk.inj (hxb.symm.trans hxb')
  obtain ⟨rfl, rfl⟩ := hsame
  exact byteLoop_unique h h'

theorem codeMoved_outside {m : ByteMem} {a : ℕ} (ha : p + k.kernelCodeFileSize ≤ a) :
    codeMoved p k m a = m a := blit_outside (Or.inr ha)

theorem Loadable.placed_code (h : Loadable p k) (m : ByteMem) {i : ℕ} (hi : i < k.kernelCodeFileSize) :
    dataPlaced p k m (p + i) = m (p + k.kernelCodeOffset + i) := by
  have hdistance := h.distance
  obtain ⟨_, _, hmem, _, hvirt, _, _, himage⟩ := h
  unfold dataPlaced
  split_ifs
  · exact blit_inside hi
  · rw [copyUp_outside _ (by omega) (by omega)]
    exact blit_inside hi

theorem Loadable.placed_data (h : Loadable p k) (m : ByteMem) {i : ℕ} (hi : i < k.kernelDataFileSize) :
    dataPlaced p k m (p + dataDistance k + i) = m (p + k.kernelDataOffset +
      if dataDistance k ≤ k.kernelDataOffset then i else i % (dataDistance k - k.kernelDataOffset)) := by
  have hdistance := h.distance
  obtain ⟨_, _, hmem, hfile, hvirt, hfits, _, himage⟩ := h
  unfold dataPlaced
  split_ifs with heq hle hle
  · rw [codeMoved_outside (by omega), heq]
  · omega
  · rw [copyUp_eq _ Nat.zero_lt_one (by omega) (by omega) (by omega), Nat.one_mul, blit_inside hi,
      codeMoved_outside (by omega)]
  · obtain ⟨d, hd⟩ := Nat.exists_eq_add_of_le (Nat.le_of_not_le hle)
    rw [hd, ← Nat.add_assoc, Nat.add_sub_cancel_left, copyUp_overlap _ (by omega) (by omega) hi,
      codeMoved_outside (by omega)]

end Stages

section Image
variable {p kernelEnd : ℕ} {k : KernelImage} {m : ByteMem}

theorem parseELFHeader_end (h : parseELFHeader p m = .ok (kernelEnd, k)) :
    kernelEnd = wadd k.kernelDataVirtAddress k.kernelDataMemSize := by
  unfold parseELFHeader at h
  simp only at h
  split_ifs at h
  obtain ⟨rfl, rfl⟩ := Prod.mk.inj (Except.ok.inj h)
  rfl

/-- When no loop overruns, the segment's initialized data is in place exactly when the copy does not
repeat its start. -/
theorem Loadable.data_iff (h : Loadable p k) (m : ByteMem) :
    (∀ i < k.kernelDataFileSize,
      dataPlaced p k m (p + dataDistance k + i) = m (p + k.kernelDataOffset + i)) ↔
    ∀ d, dataDistance k = k.kernelDataOffset + d → ∀ i, i + d < k.kernelDataFileSize →
      m (p + k.kernelDataOffset + (i + d)) = m (p + k.kernelDataOffset + i) := by
  by_cases hle : dataDistance k ≤ k.kernelDataOffset
  · refine iff_of_true (fun i hi => ?_) fun d hd i _ => ?_
    · rw [h.placed_data m hi, if_pos hle]
    · rw [show d = 0 by omega, Nat.add_zero]
  · obtain ⟨d, hd⟩ := Nat.exists_eq_add_of_le (Nat.le_of_not_le hle)
    have hperiodic := @mod_eq_iff_periodic _ (fun i => m (p + k.kernelDataOffset + i))
      k.kernelDataFileSize d
    constructor
    · intro hplaced d' hd'
      have hdd : d' = d := by omega
      rw [hdd]
      refine hperiodic.mp fun i hi => ?_
      rw [← hplaced i hi, h.placed_data m hi, if_neg hle, hd, Nat.add_sub_cancel_left]
    · intro hrepeat i hi
      rw [h.placed_data m hi, if_neg hle, hd, Nat.add_sub_cancel_left]
      exact hperiodic.mpr (hrepeat d hd) i hi

theorem BuildsImage.not_overruns (hbuilds : BuildsImage p k kernelEnd m) (h : Loadable p k) :
    ¬ Overruns k := by
  intro hover
  obtain ⟨_, fuel, s, hs, himg⟩ := hbuilds
  obtain ⟨t, ht, hoverrun, _⟩ := h.prepare m
  cases prepareKernel_unique hs ht
  have hdistance := h.distance
  have hvirt := h.virt_order
  have himage := h.image_fits
  have hbeyond := himg.below _ (hoverrun hover (p + dataDistance k + k.kernelDataMemSize) (by omega))
  omega

/-- The loader builds the image of exactly those kernels whose loops all have bytes to move or to clear and
whose data is not overwritten while it moves. -/
theorem buildsImage_iff (p kernelEnd : ℕ) (k : KernelImage) (m : ByteMem)
    (hparse : parseELFHeader p m = .ok (kernelEnd, k)) (h : Loadable p k) :
    BuildsImage p k kernelEnd m ↔ Movable p k m := by
  have hend : kernelEnd = k.kernelDataVirtAddress + k.kernelDataMemSize :=
    (parseELFHeader_end hparse).trans (wadd_of_lt h.virt_fits)
  have hdistance := h.distance
  have hvirt := h.virt_order
  have himage := h.image_fits
  have hmem := h.mem_le
  obtain ⟨t, ht, _, hresult⟩ := h.prepare m
  constructor
  · intro hbuilds
    have hover := hbuilds.not_overruns h
    obtain ⟨_, fuel, s, hs, himg⟩ := hbuilds
    cases prepareKernel_unique hs ht
    refine ⟨fun heq => hover (Or.inl heq), fun hne => ⟨fun hzero => hover (Or.inr ⟨?_, hzero⟩), ?_⟩⟩
    · rwa [hdistance]
    · rw [← hdistance]
      refine (h.data_iff m).mp fun i hi => ?_
      have hdata := himg.data (k.kernelDataVirtAddress + i) (by omega) (by omega)
      rw [if_pos (by omega), (hresult hover).1, Nat.add_sub_cancel_left,
        show p + (k.kernelDataVirtAddress + i - k.kernelCodeVirtAddress) = p + dataDistance k + i by omega,
        blit_outside (by omega)] at hdata
      exact hdata
  · intro hmov
    have hover : ¬ Overruns k := by
      rintro (heq | ⟨hne, hzero⟩)
      · exact hmov.bss heq
      · rw [hdistance] at hne
        exact (hmov.moved hne).1 hzero
    obtain ⟨hbytes, hbelow⟩ := hresult hover
    refine ⟨hend, wordSize, t, ht, fun v hle hlt => ?_, fun v hle hlt => ?_, fun a ha => ?_⟩
    · rw [hbytes, blit_outside (by omega)]
      exact h.placed_code m (by omega)
    · have haddress : p + (v - k.kernelCodeVirtAddress) =
          p + dataDistance k + (v - k.kernelDataVirtAddress) := by omega
      rw [hbytes, haddress]
      split_ifs with hin
      · rw [blit_outside (by omega)]
        refine (h.data_iff m).mpr (fun d hd => ?_) _ (by omega)
        by_cases hne : dataDistance k = k.kernelDataOffset
        · intro i _
          rw [show d = 0 by omega, Nat.add_zero]
        · rw [hdistance] at hne hd
          exact (hmov.moved hne).2 d hd
      · obtain ⟨i, hi⟩ := Nat.exists_eq_add_of_le
          (show k.kernelDataFileSize ≤ v - k.kernelDataVirtAddress by omega)
        rw [hi, ← Nat.add_assoc, blit_inside (by omega)]
    · have hlt := hbelow a ha
      omega

end Image

/-- The headers of a kernel with one byte of code, one of data and a data segment of `memSize` bytes. -/
def smallHeaders (memSize : UInt8) : List UInt8 :=
  [0x7F, 0x45, 0x4C, 0x46, 1, 1, 1, 0, 0, 0, 0, 0, 0, 0, 0, 0,
    2, 0, 3, 0, 1, 0, 0, 0, 0, 0, 0, 0xC0, 0x34, 0, 0, 0, 0, 0, 0, 0, 0, 0, 0, 0, 0x34, 0, 0x20, 0,
    2, 0, 0, 0, 0, 0, 0, 0,
    1, 0, 0, 0, 0, 0x10, 0, 0, 0, 0, 0, 0xC0, 0, 0, 0, 0xC0, 1, 0, 0, 0, 1, 0, 0, 0, 5, 0, 0, 0,
    0, 0x10, 0, 0,
    1, 0, 0, 0, 0, 0x20, 0, 0, 0, 0x20, 0, 0xC0, 0, 0x20, 0, 0xC0, 1, 0, 0, 0, memSize, 0, 0, 0,
    6, 0, 0, 0, 0, 0x10, 0, 0]

def smallImage (memSize : UInt8) : ByteMem := fun a => (smallHeaders memSize).getD (a - 0x100000) 1

def smallKernel (memSize : ℕ) : KernelImage where
  kernelEntryPoint := 0xC0000000
  kernelCodeOffset := 0x1000
  kernelCodeVirtAddress := 0xC0000000
  kernelCodeFileSize := 1
  kernelDataOffset := 0x2000
  kernelDataVirtAddress := 0xC0002000
  kernelDataFileSize := 1
  kernelDataMemSize := memSize

theorem smallKernel_loadable {memSize : ℕ} (hpos : 0 < memSize) (hsmall : memSize < 256) :
    Loadable 0x100000 (smallKernel memSize) := by
  constructor <;> simp only [smallKernel, firstMegabyte, wordSize_eq] <;> omega

theorem buildsImage_smallKernel : BuildsImage 0x100000 (smallKernel 2) 0xC0002002 (smallImage 2) := by
  refine (buildsImage_iff 0x100000 0xC0002002 (smallKernel 2) (smallImage 2) rfl
    (smallKernel_loadable (by decide) (by decide))).mpr ⟨by decide, fun hne => ?_⟩
  exact absurd rfl hne

/-- Without a byte to clear the loop that clears `.bss` writes everywhere. -/
theorem buildsImage_fails :
    parseELFHeader 0x100000 (smallImage 1) = .ok (0xC0002001, smallKernel 1) ∧
      Loadable 0x100000 (smallKernel 1) ∧
      ¬ BuildsImage 0x100000 (smallKernel 1) 0xC0002001 (smallImage 1) := by
  have hloadable : Loadable 0x100000 (smallKernel 1) := smallKernel_loadable (by decide) (by decide)
  exact ⟨rfl, hloadable, fun h => h.not_overruns hloadable (Or.inl rfl)⟩

end Ktux.PrepareKernel
