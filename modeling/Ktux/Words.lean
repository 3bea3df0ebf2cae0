import Mathlib.Data.Nat.Bitwise
import Mathlib.Tactic.Common

set_option autoImplicit false

/-!
# 32-bit machine words

A word is a natural number below `2^32`. Addition and subtraction wrap; a mask of low or of high bits is
a remainder or a rounding.
-/
namespace Ktux.Words

def wordSize : ℕ := 2 ^ 32

def wadd (a b : ℕ) : ℕ := (a + b) % wordSize

def wsub (a b : ℕ) : ℕ := (a + (wordSize - b % wordSize)) % wordSize

def wmul (a b : ℕ) : ℕ := a * b % wordSize

/-- `dec` of a 16-bit register. -/
def dec16 (x : ℕ) : ℕ := if x = 0 then 0xFFFF else x - 1

theorem dec16_of_pos {x : ℕ} (h : 0 < x) : dec16 x = x - 1 := if_neg (Nat.ne_of_gt h)

theorem wordSize_eq : wordSize = 4294967296 := rfl

theorem wadd_of_lt {a b : ℕ} (h : a + b < wordSize) : wadd a b = a + b := Nat.mod_eq_of_lt h

theorem wsub_of_le {a b : ℕ} (h : b ≤ a) (ha : a < wordSize) : wsub a b = a - b := by
  unfold wsub
  rw [wordSize_eq] at *
  omega

theorem wmul_of_lt {a b : ℕ} (h : a * b < wordSize) : wmul a b = a * b := Nat.mod_eq_of_lt h

theorem wadd_lt (a b : ℕ) : wadd a b < wordSize := Nat.mod_lt _ (by decide)

theorem wsub_lt (a b : ℕ) : wsub a b < wordSize := Nat.mod_lt _ (by decide)

/-- The mask of the bits from `k` up, within a word. -/
def highMask (k : ℕ) : ℕ := wordSize - 2 ^ k

theorem and_highMask (k x : ℕ) (hk : k ≤ 32) (hx : x < wordSize) :
    x &&& highMask k = x / 2 ^ k * 2 ^ k := by
  have hmask : highMask k = (2 ^ (32 - k) - 1) <<< k := by
    rw [Nat.shiftLeft_eq, Nat.sub_mul, ← Nat.pow_add, Nat.sub_add_cancel hk, Nat.one_mul]
    rfl
  apply Nat.eq_of_testBit_eq
  intro i
  rw [hmask, Nat.testBit_and, Nat.testBit_shiftLeft, Nat.testBit_two_pow_sub_one,
    Nat.testBit_mul_two_pow, Nat.testBit_div_two_pow]
  by_cases hi : k ≤ i
  · rw [Nat.sub_add_cancel hi]
    by_cases hb : x.testBit i = true
    · have h32 : i < 32 := by
        by_contra hge
        have hxi : x < 2 ^ i := hx.trans_le (Nat.pow_le_pow_right (by omega) (by omega))
        simp [Nat.testBit_lt_two_pow hxi] at hb
      simp [hi, hb]
      omega
    · simp [hb]
  · simp [hi]

theorem or_low (k a b : ℕ) (hb : b < 2 ^ k) : a * 2 ^ k ||| b = a * 2 ^ k + b := by
  rw [Nat.mul_comm, ← Nat.two_pow_add_eq_or_of_lt hb]

theorem and_one (x : ℕ) : x &&& 1 = x % 2 := Nat.and_one_is_mod x

theorem and_lowMask (k x : ℕ) : x &&& (2 ^ k - 1) = x % 2 ^ k := Nat.and_two_pow_sub_one_eq_mod x k

end Ktux.Words
