import Ktux.Words

set_option autoImplicit false

/-!
# Byte memory and ascending copies

Copies move fixed-size units from the lowest address up, as string instructions and simple loops do.
Addresses wrap at the word size.
-/
namespace Ktux.ByteMemory
open Words

abbrev ByteMem := ℕ → UInt8

/-- The bytes of a real-mode segment: its register times 16, and a 16-bit offset. -/
def segmentAt (base : ℕ) (mem : ByteMem) (offset : ℕ) : UInt8 := mem (base + offset % 2 ^ 16)

/-- `m` with the `n` bytes from `dst` on replaced by `f`. -/
def blit (dst n : ℕ) (f : ℕ → UInt8) (m : ByteMem) : ByteMem :=
  fun a => if dst ≤ a ∧ a < dst + n then f (a - dst) else m a

def readWord (m : ByteMem) (a : ℕ) : ℕ := (m a).toNat + 256 * (m (a + 1)).toNat

def readDword (m : ByteMem) (a : ℕ) : ℕ := readWord m a + 2 ^ 16 * readWord m (a + 2)

def readQword (m : ByteMem) (a : ℕ) : ℕ := readDword m a + 2 ^ 32 * readDword m (a + 4)

def moveUnit (w src dst : ℕ) (m : ByteMem) : ByteMem := blit dst w (fun i => m (src + i)) m

/-- The first `n` units of `w` bytes, moved in ascending order. -/
def copyUp (w : ℕ) : ℕ → ℕ → ℕ → ByteMem → ByteMem
  | 0, _, _, m => m
  | n + 1, src, dst, m =>
    moveUnit w (wadd src (w * n)) (wadd dst (w * n)) (copyUp w n src dst m)

/-- The bytes of a 16-bit value, low byte first. -/
def wordByte (val i : ℕ) : UInt8 := UInt8.ofNat (val / 256 ^ i)

def storeWord (a val : ℕ) (m : ByteMem) : ByteMem := blit a 2 (wordByte val) m

def storeDword (a val : ℕ) (m : ByteMem) : ByteMem := blit a 4 (wordByte val) m

theorem wordByte_eq_zero {val i : ℕ} (h : val < 256 ^ i) : wordByte val i = 0 := by
  rw [wordByte, Nat.div_eq_of_lt h]
  rfl

section Blit
variable {dst n a i : ℕ} {f : ℕ → UInt8} {m : ByteMem}

theorem blit_inside (h : i < n) : blit dst n f m (dst + i) = f i := by
  unfold blit
  rw [if_pos ⟨Nat.le_add_right dst i, by omega⟩, Nat.add_sub_cancel_left]

theorem blit_outside (h : a < dst ∨ dst + n ≤ a) : blit dst n f m a = m a := if_neg (by omega)

theorem blit_zero (dst : ℕ) (f : ℕ → UInt8) (m : ByteMem) : blit dst 0 f m = m := by
  funext a
  exact blit_outside (by omega)

theorem blit_one (m : ByteMem) (a : ℕ) (f : ℕ → UInt8) : blit a 1 f m = Function.update m a (f 0) := by
  funext x
  by_cases hx : x = a
  · rw [hx, Function.update_self]
    exact blit_inside (i := 0) Nat.zero_lt_one
  · rw [Function.update_of_ne hx, blit_outside (by omega)]

theorem blit_blit (dst n k : ℕ) (f : ℕ → UInt8) (m : ByteMem) :
    blit (dst + n) k (fun i => f (n + i)) (blit dst n f m) = blit dst (n + k) f m := by
  funext a
  unfold blit
  split_ifs with hhigh hlow hall
  · exact congrArg f (by omega)
  · omega
  · rfl
  · omega
  · omega
  · rfl

theorem blit_congr {g : ℕ → UInt8} (h : ∀ i < n, f i = g i) : blit dst n f m = blit dst n g m := by
  funext a
  unfold blit
  split_ifs with hin
  · exact h _ (by omega)
  · rfl

theorem storeWord_low (a val : ℕ) (m : ByteMem) : storeWord a val m a = UInt8.ofNat val := by
  have h := @blit_inside a 2 0 (wordByte val) m Nat.zero_lt_two
  rw [wordByte, pow_zero, Nat.div_one] at h
  exact h

theorem storeWord_high (a val : ℕ) (m : ByteMem) : storeWord a val m (a + 1) = UInt8.ofNat (val / 256) := by
  have h := @blit_inside a 2 1 (wordByte val) m Nat.one_lt_two
  rw [wordByte, pow_one] at h
  exact h

theorem readDword_of_bytes {val : ℕ} (h : ∀ i < 4, m (a + i) = wordByte val i) :
    readDword m a = val % 2 ^ 32 := by
  have h0 := h 0 (by decide)
  have h1 := h 1 (by decide)
  have h2 := h 2 (by decide)
  have h3 := h 3 (by decide)
  rw [Nat.add_zero] at h0
  simp only [readDword, readWord, Nat.add_assoc, Nat.reduceAdd, h0, h1, h2, h3, wordByte, UInt8.toNat_ofNat']
  omega

theorem readDword_storeDword {val : ℕ} (h : val < 2 ^ 32) : readDword (storeDword a val m) a = val := by
  have hread : readDword (storeDword a val m) a = val % 2 ^ 32 := readDword_of_bytes fun i hi => blit_inside hi
  rw [hread, Nat.mod_eq_of_lt h]

theorem readDword_storeDword_other {b val : ℕ} (h : a + 4 ≤ b ∨ b + 4 ≤ a) :
    readDword (storeDword a val m) b = readDword m b := by
  have hkeep : ∀ i < 4, storeDword a val m (b + i) = m (b + i) := fun i hi => blit_outside (by omega)
  have h0 := hkeep 0 (by decide)
  rw [Nat.add_zero] at h0
  simp only [readDword, readWord, Nat.add_assoc, Nat.reduceAdd, h0, hkeep 1 (by decide), hkeep 2 (by decide),
    hkeep 3 (by decide)]

theorem readQword_of_bytes {val : ℕ} (h : ∀ i < 8, m (a + i) = wordByte val i) :
    readQword m a = val % 2 ^ 64 := by
  have hlow : readDword m a = val % 2 ^ 32 := readDword_of_bytes fun i hi => h i (by omega)
  have hhigh : readDword m (a + 4) = val / 2 ^ 32 % 2 ^ 32 := by
    refine readDword_of_bytes fun i hi => ?_
    have hpow : 256 ^ (4 + i) = 2 ^ 32 * 256 ^ i := by
      rw [Nat.pow_add, show 256 ^ 4 = 2 ^ 32 from rfl]
    rw [Nat.add_assoc, h _ (by omega), wordByte, wordByte, Nat.div_div_eq_div_mul, hpow]
  rw [readQword, hlow, hhigh]
  omega

end Blit

/-- A copy that does not run into its own source moves the source as it was. -/
theorem copyUp_eq {w n src dst : ℕ} (m : ByteMem) (hw : 0 < w) (hsrc : src + w * n ≤ wordSize)
    (hdst : dst + w * n ≤ wordSize) (hdir : dst ≤ src ∨ src + w * n ≤ dst) :
    copyUp w n src dst m = blit dst (w * n) (fun i => m (src + i)) m := by
  induction n with
  | zero => exact (blit_zero dst _ m).symm
  | succ n ih =>
    rw [Nat.mul_succ] at hsrc hdst hdir ⊢
    rw [copyUp, ih (by omega) (by omega) (by omega), wadd_of_lt (by omega), wadd_of_lt (by omega),
      ← blit_blit]
    refine blit_congr fun i hi => ?_
    rw [blit_outside (by omega), Nat.add_assoc]

theorem copyUp_outside {w n src dst a : ℕ} (m : ByteMem) (hdst : dst + w * n ≤ wordSize)
    (h : a < dst ∨ dst + w * n ≤ a) : copyUp w n src dst m a = m a := by
  induction n with
  | zero => rfl
  | succ n ih =>
    rw [Nat.mul_succ] at hdst h
    rw [copyUp, moveUnit]
    by_cases hw : w = 0
    · subst hw
      rw [blit_outside (by omega)]
      exact ih (by omega) (by omega)
    · rw [wadd_of_lt (b := w * n) (a := dst) (by omega), blit_outside (by omega)]
      exact ih (by omega) (by omega)

/-- A byte copy up by `d` repeats the first `d` bytes of its source. -/
theorem copyUp_overlap {n src d i : ℕ} (m : ByteMem) (hd : 0 < d) (hdst : src + d + n ≤ wordSize)
    (hi : i < n) : copyUp 1 n src (src + d) m (src + d + i) = m (src + i % d) := by
  induction n generalizing i with
  | zero => omega
  | succ n ih =>
    rw [copyUp, moveUnit, Nat.one_mul, wadd_of_lt (by omega), wadd_of_lt (by omega)]
    by_cases hin : i = n
    · rw [hin, ← Nat.add_zero (src + d + n), blit_inside Nat.zero_lt_one, Nat.add_zero]
      by_cases hnd : n < d
      · rw [copyUp_outside m (by omega) (by omega), Nat.mod_eq_of_lt hnd]
      · have hback : src + n = src + d + (n - d) := by omega
        rw [hback, ih (by omega) (by omega), ← Nat.mod_eq_sub_mod (by omega)]
    · rw [blit_outside (by omega)]
      exact ih (by omega) (by omega)

/-- The first `n` values of `f` repeat its first `d` exactly when each equals the one `d` before it. -/
theorem mod_eq_iff_periodic {β : Type*} {f : ℕ → β} {n d : ℕ} :
    (∀ i < n, f (i % d) = f i) ↔ ∀ i, i + d < n → f (i + d) = f i := by
  constructor
  · intro h i hi
    rw [← h (i + d) hi, Nat.add_mod_right, h i (by omega)]
  · intro h i
    induction i using Nat.strong_induction_on with
    | _ i ih =>
      intro hi
      by_cases hd : i < d
      · rw [Nat.mod_eq_of_lt hd]
      · by_cases hzero : d = 0
        · rw [hzero, Nat.mod_zero]
        · have hstep := h (i - d) (by omega)
          rw [Nat.sub_add_cancel (by omega)] at hstep
          rw [hstep, ← ih (i - d) (by omega) (by omega), ← Nat.mod_eq_sub_mod (by omega)]

end Ktux.ByteMemory
