import Ktux.ByteMemory

set_option autoImplicit false

/-!
# `string.c`
-/
namespace Ktux.KernelString
open Words ByteMemory

def memcpy : (count dst src : ℕ) → ByteMem → ByteMem
  | 0, _, _, m => m
  | count + 1, dst, src, m => memcpy count (wadd dst 1) (wadd src 1) (Function.update m dst (m src))

def memsetw : (count dst val : ℕ) → ByteMem → ByteMem
  | 0, _, _, m => m
  | count + 1, dst, val, m => memsetw count (wadd dst 2) val (storeWord dst val m)

theorem memcpy_eq {count dst src : ℕ} (m : ByteMem) (hdown : dst ≤ src) (hfits : src + count < wordSize) :
    memcpy count dst src m = blit dst count (fun i => m (src + i)) m := by
  induction count generalizing dst src m with
  | zero => exact (blit_zero dst _ m).symm
  | succ count ih =>
    have hfirst : Function.update m dst (m src) = blit dst 1 (fun i => m (src + i)) m :=
      (blit_one m dst fun i => m (src + i)).symm
    have hlater : ∀ i < count, blit dst 1 (fun i => m (src + i)) m (src + 1 + i) = m (src + (1 + i)) := by
      intro i _
      rw [blit_outside (by omega), Nat.add_assoc]
    rw [memcpy, wadd_of_lt (by omega), wadd_of_lt (by omega), ih _ (by omega) (by omega), hfirst,
      blit_congr hlater, Nat.add_comm count 1]
    exact blit_blit dst 1 count (fun i => m (src + i)) m

theorem memsetw_eq {count dst val : ℕ} (m : ByteMem) (hfits : dst + 2 * count < wordSize) :
    memsetw count dst val m = blit dst (2 * count) (fun i => wordByte val (i % 2)) m := by
  induction count generalizing dst m with
  | zero => exact (blit_zero dst _ m).symm
  | succ count ih =>
    have hword : storeWord dst val m = blit dst 2 (fun i => wordByte val (i % 2)) m := by
      refine blit_congr fun i hi => ?_
      rw [Nat.mod_eq_of_lt hi]
    have hshift : (fun i => wordByte val (i % 2)) = fun i => wordByte val ((2 + i) % 2) := by
      funext i
      rw [Nat.add_mod_left]
    rw [memsetw, wadd_of_lt (by omega), ih _ (by omega), hword, Nat.mul_succ, Nat.add_comm (2 * count) 2,
      ← blit_blit, ← hshift]

/-- The bytes of the value at `a`. -/
def HoldsWord (m : ByteMem) (a val : ℕ) : Prop := m a = UInt8.ofNat val ∧ m (a + 1) = UInt8.ofNat (val / 256)

theorem storeWord_keeps {a dst val : ℕ} {m : ByteMem} (hparity : a % 2 = dst % 2) (h : HoldsWord m a val) :
    HoldsWord (storeWord dst val m) a val := by
  by_cases ha : a = dst
  · rw [ha]
    exact ⟨storeWord_low dst val m, storeWord_high dst val m⟩
  · unfold HoldsWord storeWord
    rw [blit_outside (by omega), blit_outside (by omega)]
    exact h

theorem memsetw_keeps {count a dst val : ℕ} {m : ByteMem} (hparity : a % 2 = dst % 2) (h : HoldsWord m a val) :
    HoldsWord (memsetw count dst val m) a val := by
  induction count generalizing dst m with
  | zero => exact h
  | succ count ih =>
    refine ih ?_ (storeWord_keeps hparity h)
    rw [wadd, wordSize_eq]
    omega

/-- Every word of the run holds the value, also where the addresses wrap. -/
theorem memsetw_holds {count dst i : ℕ} (val : ℕ) (m : ByteMem) (hdst : dst < wordSize) (hi : i < count) :
    HoldsWord (memsetw count dst val m) (wadd dst (wmul 2 i)) val := by
  induction count generalizing dst m i with
  | zero => omega
  | succ count ih =>
    cases i with
    | zero =>
      have hfirst : wadd dst (wmul 2 0) = dst := by
        rw [wmul, Nat.mul_zero, Nat.zero_mod]
        exact wadd_of_lt hdst
      rw [hfirst, memsetw]
      refine memsetw_keeps ?_ ⟨storeWord_low dst val m, storeWord_high dst val m⟩
      rw [wadd, wordSize_eq]
      omega
    | succ i =>
      have hnext : wadd dst (wmul 2 (i + 1)) = wadd (wadd dst 2) (wmul 2 i) := by
        unfold wadd wmul
        rw [wordSize_eq]
        omega
      rw [hnext]
      exact ih _ (wadd_lt dst 2) (by omega)

end Ktux.KernelString
