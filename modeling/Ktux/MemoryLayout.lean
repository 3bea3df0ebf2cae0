import Ktux.Words

set_option autoImplicit false

/-!
# Constants and macros of the memory manager

The physical and virtual layout, the i386 paging constants and the paging macros of `memory.h`.
-/
namespace Ktux.MemoryLayout
open Words

@[simp] def pagingEntryShift : ℕ := 10
@[simp] def ptePerPt : ℕ := 1024
@[simp] def pageSizeShift : ℕ := 12
@[simp] def pageSize : ℕ := 4096

@[simp] def kernelPhysAddr : ℕ := 0x00100000
@[simp] def kernelStackSize : ℕ := 0x00001000
@[simp] def pKernelStackAddr : ℕ := 0x00003000
@[simp] def pKernelPageDirectory : ℕ := 0x00004000
@[simp] def pPageTableFirst4mb : ℕ := 0x00005000
@[simp] def pPageTableKernel1 : ℕ := 0x00006000
@[simp] def pPageTableHeap1 : ℕ := 0x00007000
@[simp] def pStartFreeRam : ℕ := 0x00009000

@[simp] def kernelVirtAddr : ℕ := 0xC0000000
@[simp] def vKernelHeapAddr : ℕ := 0xD0000000
@[simp] def vKernelDriverHeap : ℕ := 0xE0000000
@[simp] def vKernelPageTable1 : ℕ := 0xF0000000

@[simp] def pdeFlagPresent : ℕ := 0x001
@[simp] def pdeFlagRw : ℕ := 0x002
@[simp] def pdeFlagKernel : ℕ := 0x000

def pdeAddrMask : ℕ := 0xFFFFF000

def virt2Phys (addr : ℕ) : ℕ := wadd (wsub addr kernelVirtAddr) kernelPhysAddr
def virt2Dir (addr : ℕ) : ℕ := addr >>> 22
def virt2Page (addr : ℕ) : ℕ := (addr >>> 12) &&& 0x3FF
def virt2Map (addr : ℕ) : ℕ := wadd ((addr >>> 22) <<< 12) vKernelPageTable1

/-- `makePDEphys` and `makePTEphys` are the same macro. -/
def makePTEphys (physAddr flags : ℕ) : ℕ := (physAddr &&& pdeAddrMask) ||| (flags &&& 0xFFF)

theorem and_pdeAddrMask (x : ℕ) (hx : x < wordSize) : x &&& pdeAddrMask = x / 4096 * 4096 :=
  and_highMask 12 x (by decide) hx

theorem virt2Dir_eq (v : ℕ) : virt2Dir v = v / 4194304 := Nat.shiftRight_eq_div_pow v 22

theorem virt2Page_eq (v : ℕ) : virt2Page v = v / 4096 % 1024 := by
  rw [virt2Page, Nat.shiftRight_eq_div_pow]
  exact and_lowMask 10 _

theorem virt2Dir_lt {v : ℕ} (hv : v < wordSize) : virt2Dir v < 1024 := by
  rw [virt2Dir_eq]
  rw [wordSize_eq] at hv
  omega

theorem virt2Page_lt (v : ℕ) : virt2Page v < 1024 := by
  rw [virt2Page_eq]
  omega

theorem exists_address {d p : ℕ} (hd : d < 1024) (hp : p < 1024) :
    ∃ v < wordSize, virt2Dir v = d ∧ virt2Page v = p := by
  refine ⟨d * 4194304 + p * 4096, ?_, ?_, ?_⟩
  · rw [wordSize_eq]
    omega
  · rw [virt2Dir_eq]
    omega
  · rw [virt2Page_eq]
    omega

theorem virt2Map_eq {v : ℕ} (hv : v < wordSize) :
    virt2Map v = vKernelPageTable1 + 4096 * virt2Dir v := by
  have hd := virt2Dir_lt hv
  unfold virt2Dir at hd
  rw [virt2Map, Nat.shiftLeft_eq, wadd_of_lt]
  · unfold virt2Dir
    omega
  · rw [vKernelPageTable1, wordSize_eq]
    omega

theorem virt2Phys_of_le {v : ℕ} (hlo : kernelVirtAddr ≤ v) (hhi : v < wordSize) :
    virt2Phys v = v - kernelVirtAddr + kernelPhysAddr := by
  rw [virt2Phys, wsub_of_le hlo hhi, wadd_of_lt]
  rw [kernelVirtAddr, kernelPhysAddr, wordSize_eq] at *
  omega

theorem makePTEphys_eq {p : ℕ} (flags : ℕ) (hp : p < wordSize) :
    makePTEphys p flags = p / 4096 * 4096 + flags % 4096 := by
  rw [makePTEphys, and_pdeAddrMask p hp, show (0xFFF : ℕ) = 2 ^ 12 - 1 from rfl, and_lowMask]
  exact or_low 12 _ _ (Nat.mod_lt _ (by decide))

end Ktux.MemoryLayout
