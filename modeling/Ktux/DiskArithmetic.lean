import Ktux.BootSector
import Mathlib.Tactic.Ring

set_option autoImplicit false

/-!
# FAT entries and CHS addresses in both loaders

`bootsect.s` and `klLoadKernel.s` come to a FAT entry in different ways, and have the same `LBA2CHS`.
-/
namespace Ktux.DiskArithmetic
open Words ByteMemory CString Fat12 LoadFile BootSector

def bootWordAt (c : ℕ) : ℕ := (fatBuffer + (c + c >>> 1)) % 2 ^ 16

def loaderWordAt (c : ℕ) : ℕ := fatBuffer + (c * fatNybblesPerEntry % 2 ^ 16) >>> 1

/-- Both loaders read one word of the table for cluster `c`, and both come to the entry `e`. -/
structure Unpacks (mem : ByteMem) (tableSize c e : ℕ) : Prop where
  same : bootWordAt c = loaderWordAt c
  inside : fatBuffer ≤ loaderWordAt c ∧ loaderWordAt c + 1 < fatBuffer + tableSize
  boot : ∀ bx, bootEntry ⟨mem, c, bx⟩ = e
  loader : ∀ memoryPointer success, fatEntry ⟨mem, c, memoryPointer, success⟩ = e

def div16 (dx ax divisor : ℕ) : Option (ℕ × ℕ) :=
  if divisor = 0 then none
  else if 2 ^ 16 ≤ (dx * 2 ^ 16 + ax) / divisor then none
  else some ((dx * 2 ^ 16 + ax) / divisor, (dx * 2 ^ 16 + ax) % divisor)

/-- `LBA2CHS` of either loader, with the divisions that can fault. -/
def lba2chsDivides (v : BPB) (ax : ℕ) : Option CHS := do
  let (ax, dx) ← div16 0 ax v.sectorsPerTrack
  let sector := (dx % 2 ^ 8 + 1) % 2 ^ 8
  let (ax, dx) ← div16 0 ax v.numberHeads
  return { track := ax % 2 ^ 8, head := dx % 2 ^ 8, sector := sector }

/-- The sector numbers that a track byte can reach with this geometry. -/
def Addressable (v : BPB) (lba : ℕ) : Prop := lba < 2 ^ 16 ∧ lba < 256 * v.sectorsPerTrack * v.numberHeads

structure Addresses (v : BPB) (lba : ℕ) (chs : CHS) : Prop where
  sector_pos : 1 ≤ chs.sector
  sector_le : chs.sector ≤ v.sectorsPerTrack
  head_lt : chs.head < v.numberHeads
  lba_eq : (chs.track * v.numberHeads + chs.head) * v.sectorsPerTrack + chs.sector - 1 = lba

section Entries
variable {c : ℕ}

theorem bootWordAt_eq (hc : c < 4085) : bootWordAt c = fatBuffer + 3 * c / 2 := by
  have hsum : c + c / 2 ^ 1 = 3 * c / 2 := by omega
  rw [bootWordAt, Nat.shiftRight_eq_div_pow, hsum, fatBuffer]
  omega

theorem loaderWordAt_eq (hc : c < 4085) : loaderWordAt c = fatBuffer + 3 * c / 2 := by
  unfold loaderWordAt
  rw [Nat.shiftRight_eq_div_pow, fatBuffer, fatNybblesPerEntry]
  omega

end Entries

theorem unpacks_packed (es : List Entry) (hlength : es.length ≤ 4085) (mem : ByteMem)
    (hmem : ListAt mem fatBuffer (pack es)) (c : ℕ) (hc : c < es.length) :
    Unpacks mem (pack es).length c es[c] := by
  have hlow : c < 4085 := by omega
  have htable : ListAt (fun i => mem (fatBuffer + i)) 0 (pack es) :=
    ListAt.of_getElem fun i hi => by rw [← hmem.getElem hi, Nat.zero_add]
  have hinside := pack_inside hc
  constructor
  · rw [bootWordAt_eq hlow, loaderWordAt_eq hlow]
  · rw [loaderWordAt_eq hlow]
    omega
  · intro bx
    rw [bootEntry_at (show fatBuffer + 3 * c / 2 < 2 ^ 16 by rw [fatBuffer]; omega)]
    exact entry_pack htable hc
  · intro memoryPointer success
    rw [fatEntry_at (show 3 * c < 2 ^ 16 by omega)]
    exact entry_pack htable hc

/-- Three entries take five bytes; both loaders find the odd one in the last three nibbles of the first three. -/
theorem unpacks_packed_three :
    Unpacks (fun a => (pack [0xFF8, 0x123, 0x004]).getD (a - 0x3000) 0) 5 1 0x123 :=
  unpacks_packed [0xFF8, 0x123, 0x004] (by decide) _ ⟨rfl, rfl, rfl, rfl, rfl, trivial⟩ 1 (by decide)

section CHS
variable {v : BPB} {lba : ℕ}

theorem div16_word {ax divisor : ℕ} (hax : ax < 2 ^ 16) (hdivisor : 0 < divisor) :
    div16 0 ax divisor = some (ax / divisor, ax % divisor) := by
  have hquotient : ax / divisor < 2 ^ 16 := Nat.lt_of_le_of_lt (Nat.div_le_self ax divisor) hax
  rw [div16, if_neg (Nat.ne_of_gt hdivisor), Nat.zero_mul, Nat.zero_add, if_neg (Nat.not_le.mpr hquotient)]

theorem lba2chsDivides_eq (hspt : 0 < v.sectorsPerTrack) (hheads : 0 < v.numberHeads) (hlba : lba < 2 ^ 16) :
    lba2chsDivides v lba = some (lba2chs v lba) := by
  have htracks : lba / v.sectorsPerTrack < 2 ^ 16 := Nat.lt_of_le_of_lt (Nat.div_le_self _ _) hlba
  simp only [lba2chsDivides, div16_word hlba hspt, div16_word htracks hheads, Option.bind_eq_bind,
    Option.bind_some]
  rfl

theorem lba2chs_eq (hspt : 1 ≤ v.sectorsPerTrack ∧ v.sectorsPerTrack ≤ 255)
    (hheads : 1 ≤ v.numberHeads ∧ v.numberHeads ≤ 256) (h : Addressable v lba) : lba2chs v lba =
      { track := lba / v.sectorsPerTrack / v.numberHeads
        head := lba / v.sectorsPerTrack % v.numberHeads
        sector := lba % v.sectorsPerTrack + 1 } := by
  have hsector : lba % v.sectorsPerTrack < v.sectorsPerTrack := Nat.mod_lt _ hspt.1
  have hhead : lba / v.sectorsPerTrack % v.numberHeads < v.numberHeads := Nat.mod_lt _ hheads.1
  have htrack : lba / v.sectorsPerTrack / v.numberHeads < 2 ^ 8 := by
    rw [Nat.div_div_eq_div_mul]
    apply Nat.div_lt_of_lt_mul
    calc
      lba < 256 * v.sectorsPerTrack * v.numberHeads := h.2
      _ = v.sectorsPerTrack * v.numberHeads * 256 := by ring
  have hhead8 : lba / v.sectorsPerTrack % v.numberHeads < 2 ^ 8 := by omega
  have hsector8 : lba % v.sectorsPerTrack < 2 ^ 8 := by omega
  have hnext8 : lba % v.sectorsPerTrack + 1 < 2 ^ 8 := by omega
  rw [lba2chs, Nat.mod_eq_of_lt htrack, Nat.mod_eq_of_lt hhead8, Nat.mod_eq_of_lt hsector8,
    Nat.mod_eq_of_lt hnext8]

theorem lba2chs_addresses (hspt : 1 ≤ v.sectorsPerTrack ∧ v.sectorsPerTrack ≤ 255)
    (hheads : 1 ≤ v.numberHeads ∧ v.numberHeads ≤ 256) (h : Addressable v lba) :
    Addresses v lba (lba2chs v lba) := by
  have hdivisions := chsSector_divisions v.sectorsPerTrack v.numberHeads lba
  rw [lba2chs_eq hspt hheads h]
  constructor
  · exact Nat.succ_pos _
  · exact Nat.mod_lt _ hspt.1
  · exact Nat.mod_lt _ hheads.1
  · rw [Nat.add_sub_assoc (Nat.succ_pos _)]
    exact hdivisions

end CHS

theorem lba2chs_faithful (v : BPB) (hspt : 1 ≤ v.sectorsPerTrack ∧ v.sectorsPerTrack ≤ 255)
    (hheads : 1 ≤ v.numberHeads ∧ v.numberHeads ≤ 256) :
    (∀ lba, Addressable v lba → ∃ chs, lba2chsDivides v lba = some chs ∧ Addresses v lba chs) ∧
    ∀ lba lba', Addressable v lba → Addressable v lba' → lba ≠ lba' →
      lba2chsDivides v lba ≠ lba2chsDivides v lba' := by
  have hruns : ∀ lba, Addressable v lba → lba2chsDivides v lba = some (lba2chs v lba) :=
    fun lba h => lba2chsDivides_eq hspt.1 hheads.1 h.1
  refine ⟨fun lba h => ⟨_, hruns lba h, lba2chs_addresses hspt hheads h⟩, fun lba lba' h h' hne heq => hne ?_⟩
  rw [hruns lba h, hruns lba' h', Option.some.injEq] at heq
  calc
    lba = _ := (lba2chs_addresses hspt hheads h).lba_eq.symm
    _ = lba' := by rw [heq, (lba2chs_addresses hspt hheads h').lba_eq]

theorem lba2chs_faithful_floppy : ∃ chs, lba2chsDivides ⟨512, 1, 1, 224, 2880, 9, 18, 2⟩ 2879 = some chs ∧
    Addresses ⟨512, 1, 1, 224, 2880, 9, 18, 2⟩ 2879 chs :=
  (lba2chs_faithful ⟨512, 1, 1, 224, 2880, 9, 18, 2⟩ (by decide) (by decide)).1 2879 ⟨by decide, by decide⟩

end Ktux.DiskArithmetic
