import Ktux.AddressSpace

set_option autoImplicit false

/-!
# Entering the kernel and turning paging on

The global descriptor table of `klMain.s`, the jump of `kloaderMain` into the kernel, and `enable_paging`. Until
the kernel has its page tables, a segment base stands in for them.
-/
namespace Ktux.KernelEntry
open Words MemoryLayout TwoLevelPaging KernelMemory FreePageList DetectMemory MapPage AddressSpace

@[simp] def codeSelTmp : ℕ := 0x08
@[simp] def dataSelTmp : ℕ := 0x10
@[simp] def codeSel : ℕ := 0x18
@[simp] def dataSel : ℕ := 0x20
@[simp] def pmStackAddress : ℕ := 0x4000
@[simp] def kernelCodeSelector : ℕ := 0x18
@[simp] def kernelDataSelector : ℕ := 0x20

def gdt : List UInt8 :=
  [0, 0, 0, 0, 0, 0, 0, 0,
    0xFF, 0xFF, 0, 0, 0x10, 0x9A, 0xCF, 0x40,
    0xFF, 0xFF, 0, 0, 0x10, 0x92, 0xCF, 0x40,
    0xFF, 0xFF, 0, 0, 0, 0x9A, 0xCF, 0,
    0xFF, 0xFF, 0, 0, 0, 0x92, 0xCF, 0,
    0x03, 0x01, 0, 0, 0, 0xE9, 0, 0,
    0xFF, 0xFF, 0, 0, 0, 0xFA, 0xCF, 0,
    0xFF, 0xFF, 0, 0, 0, 0xF2, 0xCF, 0]

/-- A segment register, with the base and the last offset that the processor keeps of its descriptor. -/
structure Segment where
  selector : ℕ
  base : ℕ
  limit : ℕ
  deriving DecidableEq

def gdtByte (selector i : ℕ) : ℕ := (gdt.getD (selector / 8 * 8 + i) 0).toNat

/-- The limit counts pages when bit 7 of byte 6 is set. -/
def segmentOf (selector : ℕ) : Segment :=
  let limit := gdtByte selector 0 + 2 ^ 8 * gdtByte selector 1 + 2 ^ 16 * (gdtByte selector 6 % 16)
  { selector := selector
    base := gdtByte selector 2 + 2 ^ 8 * gdtByte selector 3 + 2 ^ 16 * gdtByte selector 4 +
      2 ^ 24 * gdtByte selector 7
    limit := if gdtByte selector 6 / 2 ^ 7 % 2 = 1 then 4096 * limit + 4095 else limit }

/-- A present code segment of ring 0; anything else is a fault. -/
def loadCode (selector : ℕ) : Option Segment :=
  if gdtByte selector 5 / 8 = 0b10011 then some (segmentOf selector) else none

/-- A present, writable data segment of ring 0. -/
def loadData (selector : ℕ) : Option Segment :=
  if gdtByte selector 5 / 8 = 0b10010 ∧ gdtByte selector 5 / 2 % 2 = 1 then some (segmentOf selector) else none

/-- A processor in protected mode. `eip` is where the last transfer of control went, and `stack` the words from
`esp` up. -/
structure Cpu where
  eax : ℕ
  ecx : ℕ
  edx : ℕ
  ebp : ℕ
  esp : ℕ
  eip : ℕ
  cs : Segment
  ds : Segment
  es : Segment
  fs : Segment
  gs : Segment
  ss : Segment
  cr0 : ℕ
  cr3 : ℕ
  stack : List ℕ

abbrev Instr := Cpu → Option Cpu

section Instructions

def push (x : ℕ) (s : Cpu) : Cpu := { s with esp := wsub s.esp 4, stack := x :: s.stack }

def top (s : Cpu) : ℕ := s.stack.headD 0

def drop (s : Cpu) : Cpu := { s with esp := wadd s.esp 4, stack := s.stack.tail }

/-- `mov ss, eax` and `mov esp, PM_STACK_ADDRESS`, after which the stack is empty. -/
def newStack : Instr := fun s =>
  (loadData s.eax).map fun ss => { s with ss := ss, esp := pmStackAddress, stack := [] }

def movDS (selector : Cpu → ℕ) : Instr := fun s => (loadData (selector s)).map fun ds => { s with ds := ds }
def movES (selector : Cpu → ℕ) : Instr := fun s => (loadData (selector s)).map fun es => { s with es := es }
def movFS (selector : Cpu → ℕ) : Instr := fun s => (loadData (selector s)).map fun fs => { s with fs := fs }
def movGS (selector : Cpu → ℕ) : Instr := fun s => (loadData (selector s)).map fun gs => { s with gs := gs }

def jmpFar (selector eip : ℕ) : Instr := fun s =>
  (loadCode selector).map fun cs => { s with cs := cs, eip := eip }

def retf : Instr := fun s =>
  (loadCode (top (drop s) % 2 ^ 16)).map fun cs => { drop (drop s) with cs := cs, eip := top s }

end Instructions

/-- `kloaderMain` from `clearPipeline` on. -/
def enterKernel (hardwareStruct : ℕ) : List Instr :=
  [fun s => some { s with eax := dataSelTmp },
    movDS Cpu.eax, movES Cpu.eax, movFS Cpu.eax, movGS Cpu.eax,
    fun s => some { s with eax := dataSel },
    newStack,
    fun s => some { s with eax := hardwareStruct },
    fun s => some { s with eax := wadd s.eax kernelVirtAddr },
    fun s => some { s with eax := wsub s.eax kernelPhysAddr },
    fun s => some (push s.eax s),
    jmpFar codeSelTmp kernelVirtAddr]

/-- `[ebp+8]` is the third word of the stack here. -/
def enablePaging (updatedCS : ℕ) : List Instr :=
  [fun s => some (push s.ebp s),
    fun s => some { s with ebp := s.esp },
    fun s => some { s with eax := s.stack.getD (8 / 4) 0 },
    fun s => some { s with cr3 := s.eax },
    fun s => some { s with eax := s.cr0 },
    fun s => some { s with eax := s.eax ||| 0x80000000 },
    fun s => some { s with cr0 := s.eax },
    fun s => some { s with ecx := s.cs.selector },
    fun s => some { s with ecx := wadd s.ecx 0x10 },
    fun s => some (push s.ecx s),
    fun s => some (push updatedCS s),
    retf,
    fun s => some { s with edx := s.ds.selector },
    fun s => some { s with edx := wadd s.edx 0x10 },
    movDS Cpu.edx, movES Cpu.edx, movFS Cpu.edx, movGS Cpu.edx,
    fun s => some { drop s with ebp := top s },
    fun s => some { drop s with eip := top s }]

def run (is : List Instr) (s : Cpu) : Option Cpu := is.foldlM (fun s i => i s) s

def paging (s : Cpu) : Bool := s.cr0.testBit 31

/-- The physical address behind an offset in a segment; `none` is a fault. -/
def physical (m : Phys) (s : Cpu) (segment : Segment) (offset : ℕ) : Option ℕ :=
  if offset ≤ segment.limit then
    if paging s then TwoLevelPaging.translate m (frame s.cr3) (wadd segment.base offset)
    else some (wadd segment.base offset)
  else none

/-- A kernel that ends below `start` is at its linked addresses, and the stack is where it is. -/
structure SeesKernel (m : Phys) (start : ℕ) (s : Cpu) : Prop where
  kernel : ∀ segment ∈ [s.cs, s.ds, s.es, s.fs, s.gs], ∀ k < roundUp (start - kernelPhysAddr),
    physical m s segment (kernelVirtAddr + k) = some (kernelPhysAddr + k)
  stack : ∀ v < roundUp start, physical m s s.ss v = some v

section StraightLine
variable {σ : Type*} {P Q : σ → Prop} {is : List (σ → Option σ)} {s : σ}

/-- No instruction fails; `P` holds before, between and after them, and `Q` in the end. -/
def Throughout (P Q : σ → Prop) : List (σ → Option σ) → σ → Prop
  | [], s => P s ∧ Q s
  | i :: is, s => P s ∧ ∃ u, i s = some u ∧ Throughout P Q is u

theorem Throughout.ends (h : Throughout P Q is s) : ∃ u, is.foldlM (fun s i => i s) s = some u ∧ Q u := by
  induction is generalizing s with
  | nil => exact ⟨s, rfl, h.2⟩
  | cons i is ih =>
    obtain ⟨_, u, hu, hrest⟩ := h
    obtain ⟨v, hv, hQ⟩ := ih hrest
    refine ⟨v, ?_, hQ⟩
    rw [List.foldlM_cons, hu]
    exact hv

theorem Throughout.part {pre post : List (σ → Option σ)} (h : Throughout P Q (pre ++ post) s) :
    ∃ u, pre.foldlM (fun s i => i s) s = some u ∧ P u := by
  induction pre generalizing s with
  | nil =>
    refine ⟨s, rfl, ?_⟩
    cases post with
    | nil => exact h.1
    | cons i post => exact h.1
  | cons i pre ih =>
    obtain ⟨_, u, hu, hrest⟩ := h
    obtain ⟨v, hv, hP⟩ := ih hrest
    refine ⟨v, ?_, hP⟩
    rw [List.foldlM_cons, hu]
    exact hv

end StraightLine

/-- The temporary segments bring the kernel's linked addresses to where it was loaded. -/
def Temporary (segment : Segment) : Prop := segment.base = 0x40100000 ∧ segment.limit = 0xFFFFFFFF

def Flat (segment : Segment) : Prop := segment.base = 0 ∧ segment.limit = 0xFFFFFFFF

/-- Segments without an offset are for code and data once the directory is in use. -/
structure Switching (s : Cpu) : Prop where
  kernel : ∀ segment ∈ [s.cs, s.ds, s.es, s.fs, s.gs], Temporary segment ∨ paging s = true ∧ Flat segment
  stack : Flat s.ss
  table : paging s = true → frame s.cr3 = directory

section View
variable {m : Phys} {start : ℕ} {s : Cpu}

theorem translate_mapsTo {v p : ℕ} (h : MapsTo m v p) : TwoLevelPaging.translate m directory v = some p := by
  obtain ⟨pde, pte, hwalk, hp, _⟩ := h
  rw [TwoLevelPaging.translate, hwalk, Option.map_some, hp]

theorem Switching.sees (h : Switching s) (hspace : BootAddressSpace start m) (hlo : kernelPhysAddr < start)
    (hhi : start ≤ 0x400000) : SeesKernel m start s := by
  have hidentity : ∀ v < roundUp start, TwoLevelPaging.translate m directory v = some v :=
    fun v hv => translate_mapsTo (hspace.identity v hv)
  constructor
  · intro segment hmem k hk
    have hlow : kernelPhysAddr + k < roundUp start := by
      rw [kernelPhysAddr] at *
      unfold roundUp at *
      omega
    have hword : kernelVirtAddr + k ≤ 0xFFFFFFFF := by
      rw [kernelVirtAddr]
      unfold roundUp at hk
      omega
    rcases h.kernel segment hmem with ⟨hbase, hlimit⟩ | ⟨hpaging, hbase, hlimit⟩
    · have hlinear : wadd segment.base (kernelVirtAddr + k) = kernelPhysAddr + k := by
        rw [hbase, wadd, wordSize_eq]
        rw [kernelVirtAddr] at *
        rw [kernelPhysAddr]
        omega
      rw [physical, hlimit, if_pos hword, hlinear]
      split_ifs with hpaging
      · rw [h.table hpaging]
        exact hidentity _ hlow
      · rfl
    · have hlinear : wadd segment.base (kernelVirtAddr + k) = kernelVirtAddr + k := by
        rw [hbase, wadd_of_lt, Nat.zero_add]
        rw [wordSize_eq]
        omega
      rw [physical, hlimit, if_pos hword, if_pos hpaging, hlinear, h.table hpaging]
      exact translate_mapsTo (hspace.kernel k hk)
  · intro v hv
    obtain ⟨hbase, hlimit⟩ := h.stack
    have hword : v ≤ 0xFFFFFFFF := by
      unfold roundUp at hv
      omega
    have hlinear : wadd s.ss.base v = v := by
      rw [hbase, wadd_of_lt, Nat.zero_add]
      rw [wordSize_eq]
      omega
    rw [physical, hlimit, if_pos hword, hlinear]
    split_ifs with hpaging
    · rw [h.table hpaging]
      exact hidentity v hv
    · rfl

end View

structure Entered (s : Cpu) : Prop where
  cs : s.cs = segmentOf codeSelTmp
  ds : s.ds = segmentOf dataSelTmp
  es : s.es = segmentOf dataSelTmp
  fs : s.fs = segmentOf dataSelTmp
  gs : s.gs = segmentOf dataSelTmp
  ss : s.ss = segmentOf dataSel
  unpaged : paging s = false

/-- `enable_paging` has returned to `ret`, and every segment is one of `selectors.h`. -/
structure Paged (ret : ℕ) (rest : List ℕ) (t : Cpu) : Prop where
  eip : t.eip = ret
  stack : t.stack = pKernelPageDirectory :: rest
  cs : t.cs = segmentOf kernelCodeSelector
  ds : t.ds = segmentOf kernelDataSelector
  es : t.es = segmentOf kernelDataSelector
  fs : t.fs = segmentOf kernelDataSelector
  gs : t.gs = segmentOf kernelDataSelector
  ss : t.ss = segmentOf kernelDataSelector
  paged : paging t = true
  table : t.cr3 = pKernelPageDirectory

/-- The kernel's own code changes neither a segment register nor CR0. -/
structure SameSegments (e s : Cpu) : Prop where
  cs : s.cs = e.cs
  ds : s.ds = e.ds
  es : s.es = e.es
  fs : s.fs = e.fs
  gs : s.gs = e.gs
  ss : s.ss = e.ss
  cr0 : s.cr0 = e.cr0

section Execution
variable {s : Cpu}

theorem temporary_code : Temporary (segmentOf codeSelTmp) := ⟨rfl, rfl⟩

theorem temporary_data : Temporary (segmentOf dataSelTmp) := ⟨rfl, rfl⟩

theorem flat_code : Flat (segmentOf codeSel) := ⟨rfl, rfl⟩

theorem flat_data : Flat (segmentOf dataSel) := ⟨rfl, rfl⟩

theorem loadCode_tmp : loadCode codeSelTmp = some (segmentOf codeSelTmp) := rfl

theorem loadCode_flat : loadCode codeSel = some (segmentOf codeSel) := rfl

theorem loadData_tmp : loadData dataSelTmp = some (segmentOf dataSelTmp) := rfl

theorem loadData_flat : loadData dataSel = some (segmentOf dataSel) := rfl

theorem unpaged_of {u : Cpu} (h : paging s = false) (hu : u.cr0 = s.cr0) : paging u = false := by
  rw [paging, hu]
  exact h

theorem enterKernel_entered (hpaging : paging s = false) (hardwareStruct : ℕ) :
    ∃ e, run (enterKernel hardwareStruct) s = some e ∧ Entered e ∧ e.eip = kernelVirtAddr ∧
      e.stack = [wsub (wadd hardwareStruct kernelVirtAddr) kernelPhysAddr] := by
  simp only [run, enterKernel, List.foldlM_cons, List.foldlM_nil, Option.bind_eq_bind, Option.bind_some,
    Option.pure_def, Option.map_some, push, movDS, movES, movFS, movGS, newStack, jmpFar, loadCode_tmp,
    loadData_tmp, loadData_flat, Option.some.injEq, exists_eq_left']
  exact ⟨⟨rfl, rfl, rfl, rfl, rfl, rfl, unpaged_of hpaging rfl⟩, trivial, trivial⟩

theorem Entered.switching (h : Entered s) : Switching s := by
  obtain ⟨hcs, hds, hes, hfs, hgs, hss, hunpaged⟩ := h
  refine ⟨?_, hss ▸ flat_data, fun hpaging => ?_⟩
  · simp [hcs, hds, hes, hfs, hgs, temporary_code, temporary_data, -codeSelTmp, -dataSelTmp]
  · rw [hunpaged] at hpaging
    cases hpaging

theorem switching_paged (hcr0 : paging s = true) (hcr3 : s.cr3 = pKernelPageDirectory)
    (hss : s.ss = segmentOf dataSel) (hcs : s.cs = segmentOf codeSelTmp ∨ s.cs = segmentOf codeSel)
    (hdata : ∀ segment ∈ [s.ds, s.es, s.fs, s.gs],
      segment = segmentOf dataSelTmp ∨ segment = segmentOf dataSel) : Switching s := by
  refine ⟨List.forall_mem_cons.mpr ⟨?_, fun segment hmem => ?_⟩, hss ▸ flat_data, fun _ => ?_⟩
  · rcases hcs with h | h
    · exact Or.inl (h ▸ temporary_code)
    · exact Or.inr ⟨hcr0, h ▸ flat_code⟩
  · rcases hdata segment hmem with rfl | rfl
    · exact Or.inl temporary_data
    · exact Or.inr ⟨hcr0, flat_data⟩
  · rw [hcr3]
    rfl

theorem enablePaging_switching (h : Entered s) (updatedCS ret : ℕ) {rest : List ℕ}
    (hstack : s.stack = ret :: pKernelPageDirectory :: rest) :
    Throughout Switching (Paged ret rest) (enablePaging updatedCS) s := by
  obtain ⟨eax, ecx, edx, ebp, esp, eip, cs, ds, es, fs, gs, ss, cr0, cr3, stack⟩ := s
  obtain ⟨hcs, hds, hes, hfs, hgs, hss, hunpaged⟩ := h
  simp only at hcs hds hes hfs hgs hss hstack
  subst hcs hds hes hfs hgs hss hstack
  have hcode : wadd (segmentOf codeSelTmp).selector 0x10 % 2 ^ 16 = codeSel := by decide
  have hdata : wadd (segmentOf dataSelTmp).selector 0x10 = dataSel := by decide
  simp only [Throughout, enablePaging, push, drop, top, retf, movDS, movES, movFS, movGS, List.headD_cons,
    List.tail_cons, List.getD_cons_succ, List.getD_cons_zero, hcode, hdata, loadCode_flat, loadData_flat,
    Option.map_some, Option.some.injEq, exists_eq_left']
  have hpaged : ∀ u : Cpu, u.cr0 = cr0 ||| 0x80000000 → paging u = true := by
    intro u hu
    rw [paging, hu, Nat.testBit_or, show Nat.testBit 0x80000000 31 = true by decide, Bool.or_true]
  and_intros
  iterate 7 exact Entered.switching ⟨rfl, rfl, rfl, rfl, rfl, rfl, unpaged_of hunpaged rfl⟩
  iterate 14 exact switching_paged (hpaged _ rfl) rfl rfl (by simp) (by simp)
  exact ⟨rfl, rfl, rfl, rfl, rfl, rfl, rfl, rfl, hpaged _ rfl, rfl⟩

theorem Entered.same {e : Cpu} (h : Entered e) (hsame : SameSegments e s) : Entered s where
  cs := hsame.cs.trans h.cs
  ds := hsame.ds.trans h.ds
  es := hsame.es.trans h.es
  fs := hsame.fs.trans h.fs
  gs := hsame.gs.trans h.gs
  ss := hsame.ss.trans h.ss
  unpaged := unpaged_of h.unpaged hsame.cr0

/-- The address that is passed to the kernel stands for the structure in the loader. -/
theorem Entered.hardwareStruct (h : Entered s) (m : Phys) {hardwareStruct : ℕ}
    (hlow : hardwareStruct < kernelPhysAddr) :
    physical m s s.ds (wsub (wadd hardwareStruct kernelVirtAddr) kernelPhysAddr) = some hardwareStruct := by
  have hvirt : wsub (wadd hardwareStruct kernelVirtAddr) kernelPhysAddr =
      hardwareStruct + kernelVirtAddr - kernelPhysAddr := by
    rw [kernelVirtAddr, kernelPhysAddr] at *
    rw [wadd_of_lt (by rw [wordSize_eq]; omega), wsub_of_le (by omega) (by rw [wordSize_eq]; omega)]
  have hlinear : wadd 0x40100000 (hardwareStruct + kernelVirtAddr - kernelPhysAddr) = hardwareStruct := by
    rw [kernelVirtAddr, kernelPhysAddr] at *
    rw [wadd, wordSize_eq]
    omega
  obtain ⟨hbase, hlimit⟩ := temporary_data
  rw [hvirt, h.ds, physical, hbase, hlimit, if_pos, h.unpaged, if_neg Bool.false_ne_true, hlinear]
  rw [kernelVirtAddr, kernelPhysAddr] at *
  omega

end Execution

/-- From the jump into the kernel to the end of `enable_paging`, whose directory is the one of `init_virt_mem`,
every address of the kernel stands for the same place in memory. -/
theorem kernel_addresses_kept (kernelEnd totalMemory hardwareStruct updatedCS : ℕ) (m : Memory) (loader : Cpu)
    (hend : kernelVirtAddr < kernelEnd) (hword : kernelEnd < wordSize) (htotal : totalMemory < wordSize)
    (hfits : virt2Phys kernelEnd + totalMemory / 1024 ≤ 0x400000) (hlow : hardwareStruct < kernelPhysAddr)
    (hunpaged : paging loader = false) :
    ∃ e u, run (enterKernel hardwareStruct) loader = some e ∧ e.eip = kernelVirtAddr ∧
      e.stack = [wsub (wadd hardwareStruct kernelVirtAddr) kernelPhysAddr] ∧
      physical u.phys e e.ds (wsub (wadd hardwareStruct kernelVirtAddr) kernelPhysAddr) = some hardwareStruct ∧
      (∀ fuel ≥ wordSize, initVirtMem fuel ⟨totalMemory, kernelEnd⟩ m = some u) ∧
      ∀ s ret rest, SameSegments e s → s.stack = ret :: pKernelPageDirectory :: rest →
        (∀ before after, enablePaging updatedCS = before ++ after → ∃ t, run before s = some t ∧
          SeesKernel u.phys (virt2Phys kernelEnd + totalMemory / 1024) t) ∧
        ∃ t, run (enablePaging updatedCS) s = some t ∧ Paged ret rest t := by
  obtain ⟨e, he, hentered, heip, hstack⟩ := enterKernel_entered hunpaged hardwareStruct
  have hphys := virt2Phys_of_le hend.le hword
  have hstart := markKernelEnd_start (m := m) hend.le hword htotal
  have hlo : kernelPhysAddr < virt2Phys kernelEnd + totalMemory / 1024 := by
    rw [hphys]
    omega
  obtain ⟨pages, hpages⟩ := initVirtMem_returns m hend hword htotal hfits
  have hspace : BootAddressSpace (virt2Phys kernelEnd + totalMemory / 1024)
      (markFreePages (pagingEnabled ⟨totalMemory, kernelEnd⟩ m) pages).phys := by
    rw [← hstart] at hlo hfits ⊢
    exact bootTables_addressSpace hlo hfits
  refine ⟨e, _, he, heip, hstack, hentered.hardwareStruct _ hlow, hpages, fun s ret rest hsame hargs => ?_⟩
  have hrun := enablePaging_switching (hentered.same hsame) updatedCS ret hargs
  refine ⟨fun before after heq => ?_, hrun.ends⟩
  rw [heq] at hrun
  obtain ⟨t, ht, hswitching⟩ := hrun.part
  exact ⟨t, ht, hswitching.sees hspace hlo hfits⟩

def bootProcessor : Cpu where
  eax := 1
  ecx := 0
  edx := 0
  ebp := 0
  esp := 0x7C00
  eip := 0x8000
  cs := segmentOf codeSel
  ds := segmentOf dataSel
  es := segmentOf dataSel
  fs := segmentOf dataSel
  gs := segmentOf dataSel
  ss := segmentOf dataSel
  cr0 := 1
  cr3 := 0
  stack := []

theorem kernel_addresses_kept_small :
    ∃ e u, run (enterKernel 0x9000) bootProcessor = some e ∧ e.eip = kernelVirtAddr ∧
      e.stack = [wsub (wadd 0x9000 kernelVirtAddr) kernelPhysAddr] ∧
      physical u.phys e e.ds (wsub (wadd 0x9000 kernelVirtAddr) kernelPhysAddr) = some 0x9000 ∧
      (∀ fuel ≥ wordSize, initVirtMem fuel ⟨0x4000000, 0xC0042000⟩
        (staticMemory (fun _ => 0xFFFFFFFF) fun _ => 0) = some u) ∧
      ∀ s ret rest, SameSegments e s → s.stack = ret :: pKernelPageDirectory :: rest →
        (∀ before after, enablePaging 0xC0000040 = before ++ after → ∃ t, run before s = some t ∧
          SeesKernel u.phys (virt2Phys 0xC0042000 + 0x4000000 / 1024) t) ∧
        ∃ t, run (enablePaging 0xC0000040) s = some t ∧ Paged ret rest t :=
  kernel_addresses_kept 0xC0042000 0x4000000 0x9000 0xC0000040 _ bootProcessor (by decide) (by decide)
    (by decide) (by decide) (by decide) (by decide)

end Ktux.KernelEntry
