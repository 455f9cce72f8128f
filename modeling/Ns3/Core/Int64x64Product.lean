import Mathlib.Data.Nat.Bitwise
import Mathlib.Tactic.Ring
import Ns3.Core.Int64x64
import Ns3.Lib.FixedPoint

/-!
# Products

The multiplication of magnitudes puts together the 128 bits around the point
(`umul_eq`); its test for an overflow never fires, since `HP_MASK_HI` is the
complement of a `uint64_t` and so zero.
-/

namespace Ns3.Core.Int64x64

open Ns3.Lib

/-! ## Signs -/

/-- The number with a sign and a magnitude. -/
def withSign (negative : Bool) (m : ℕ) : ℤ := if negative then -m else m

@[simp] theorem withSign_true (m : ℕ) : withSign true m = -m := rfl

@[simp] theorem withSign_false (m : ℕ) : withSign false m = m := rfl

theorem withSign_natAbs (a : ℤ) : withSign (decide (a < 0)) a.natAbs = a := by
  by_cases ha : a < 0
  · rw [decide_eq_true ha, withSign_true]
    omega
  · rw [decide_eq_false ha, withSign_false]
    omega

theorem magnitude_toNat (a : BitVec 128) :
    (if a.slt 0 then -a else a).toNat = a.toInt.natAbs := by
  have hlt := a.isLt
  by_cases ha : a.slt 0 = true
  · rw [if_pos ha, BitVec.toNat_neg]
    have hneg : a.toInt < 0 := by simpa [BitVec.slt] using ha
    rw [BitVec.toInt_eq_toNat_cond] at hneg ⊢
    split_ifs at hneg ⊢ with hhalf
    all_goals omega
  · rw [if_neg ha]
    have hpos : ¬ a.toInt < 0 := by simpa [BitVec.slt] using ha
    rw [BitVec.toInt_eq_toNat_cond] at hpos ⊢
    split_ifs at hpos ⊢ with hhalf
    all_goals omega

theorem natAbs_toInt_le (a : BitVec 128) : a.toInt.natAbs ≤ 2 ^ 127 := by
  have hlow := BitVec.le_toInt a
  have hhigh := BitVec.toInt_lt (x := a)
  omega

/-- A magnitude that wraps, given a sign. -/
theorem signed_ofNat {w : ℕ} (negative : Bool) (m : ℕ) :
    (if negative then -BitVec.ofNat w m else BitVec.ofNat w m) =
      BitVec.ofInt w (withSign negative m) := by
  cases negative with
  | false => simp
  | true => simp [BitVec.ofInt_neg]

/-- `output_sign` gives the magnitudes, and whether the signs differ. -/
theorem outputSign_spec (sa sb : BitVec 128) :
    (outputSign sa sb).1 = (decide (sa.toInt < 0) != decide (sb.toInt < 0)) ∧
      (outputSign sa sb).2.1.toNat = sa.toInt.natAbs ∧
      (outputSign sa sb).2.2.toNat = sb.toInt.natAbs := by
  refine ⟨?_, magnitude_toNat sa, magnitude_toNat sb⟩
  have hneg : ∀ a : BitVec 128, a.slt 0 = decide (a.toInt < 0) := fun a => by simp [BitVec.slt]
  show ((sa.slt 0 && !sb.slt 0) || (!sa.slt 0 && sb.slt 0)) = _
  rw [hneg, hneg]
  cases decide (sa.toInt < 0) <;> cases decide (sb.toInt < 0) <;> rfl

theorem withSign_mul (s t : Bool) (m n : ℕ) :
    withSign s m * withSign t n = withSign (s != t) (m * n) := by
  cases s <;> cases t <;> simp

theorem withSign_tdiv (s t : Bool) (m n : ℕ) :
    (withSign s m).tdiv (withSign t n) = withSign (s != t) (m / n) := by
  cases s <;> cases t <;> simp [Int.neg_tdiv, Int.tdiv_neg]

/-- Rounding to `k` places less. -/
theorem withSign_tdiv_two_pow (s : Bool) (m k : ℕ) :
    (withSign s m).tdiv (2 ^ k) = withSign s (m / 2 ^ k) := by
  have hround := withSign_tdiv s false m (2 ^ k)
  rw [Bool.bne_false] at hround
  rw [← hround]
  simp

theorem mul_eq_withSign (a b : ℤ) :
    a * b = withSign (decide (a < 0) != decide (b < 0)) (a.natAbs * b.natAbs) := by
  rw [← withSign_mul, withSign_natAbs, withSign_natAbs]

theorem tdiv_eq_withSign (a b : ℤ) :
    a.tdiv b = withSign (decide (a < 0) != decide (b < 0)) (a.natAbs / b.natAbs) := by
  rw [← withSign_tdiv, withSign_natAbs, withSign_natAbs]

/-! ## The product of magnitudes -/

theorem low_toNat (x : BitVec 128) :
    (x &&& hpMaskLo.setWidth 128).toNat = x.toNat % 2 ^ 64 := by
  rw [BitVec.toNat_and]
  exact Nat.and_two_pow_sub_one_eq_mod x.toNat 64

theorem high_toNat (x : BitVec 128) : (x >>> 64).toNat = x.toNat / 2 ^ 64 := by
  rw [BitVec.toNat_ushiftRight, Nat.shiftRight_eq_div_pow]

/-- The complement of a `uint64_t` has no bit above. -/
theorem hpMaskHi_eq : hpMaskHi = 0 := rfl

theorem high_low_toNat (x : BitVec 128) :
    ((x >>> 64) &&& hpMaskLo.setWidth 128).toNat = x.toNat / 2 ^ 64 := by
  rw [low_toNat, high_toNat]
  have := x.isLt
  omega

/-- The parts of a product put together, wrapped. -/
theorem parts_toNat (lo mid hi : BitVec 128) :
    ((lo >>> 64) + (mid &&& hpMaskLo.setWidth 128) +
      ((mid >>> 64) + (hi &&& hpMaskLo.setWidth 128)) <<< 64).toNat =
      (lo.toNat / 2 ^ 64 + mid.toNat + hi.toNat * 2 ^ 64) % 2 ^ 128 := by
  simp only [BitVec.toNat_add, BitVec.toNat_shiftLeft, Nat.shiftLeft_eq, low_toNat, high_toNat]
  omega

/-- The product of two magnitudes, rounded down and wrapped. -/
theorem umul_eq {a b : BitVec 128} (ha : a.toNat ≤ 2 ^ 127) (hb : b.toNat ≤ 2 ^ 127) :
    umul a b = some (BitVec.ofNat 128 (a.toNat * b.toNat / 2 ^ 64)) := by
  have haL := low_toNat a
  have hbL := low_toNat b
  have haH := high_low_toNat a
  have hbH := high_low_toNat b
  unfold umul
  generalize a &&& hpMaskLo.setWidth 128 = aL at *
  generalize b &&& hpMaskLo.setWidth 128 = bL at *
  generalize a >>> 64 &&& hpMaskLo.setWidth 128 = aH at *
  generalize b >>> 64 &&& hpMaskLo.setWidth 128 = bH at *
  -- no part is longer than 128 bits
  have hlo : aL.toNat * bL.toNat < 2 ^ 64 * 2 ^ 64 :=
    Nat.mul_lt_mul'' (by omega) (by omega)
  have hmid₁ : aL.toNat * bH.toNat ≤ (2 ^ 64 - 1) * 2 ^ 63 :=
    Nat.mul_le_mul (by omega) (by omega)
  have hmid₂ : aH.toNat * bL.toNat ≤ 2 ^ 63 * (2 ^ 64 - 1) :=
    Nat.mul_le_mul (by omega) (by omega)
  have hhi : aH.toNat * bH.toNat ≤ 2 ^ 63 * 2 ^ 63 := Nat.mul_le_mul (by omega) (by omega)
  rw [if_neg (by rw [hpMaskHi_eq]; simp)]
  refine congrArg some (BitVec.eq_of_toNat_eq ?_)
  rw [parts_toNat, BitVec.toNat_ofNat]
  simp only [BitVec.toNat_mul, BitVec.toNat_add]
  have hA : a.toNat = aH.toNat * 2 ^ 64 + aL.toNat := by omega
  have hB : b.toNat = bH.toNat * 2 ^ 64 + bL.toNat := by omega
  rw [hA, hB, mul_halves_div (by norm_num)]
  generalize aL.toNat * bL.toNat = lo at *
  generalize aL.toNat * bH.toNat = mid₁ at *
  generalize aH.toNat * bL.toNat = mid₂ at *
  generalize aH.toNat * bH.toNat = hi at *
  omega

/-! ## The product -/

/-- The exact product, rounded toward zero to 64 places. -/
def exactProduct (x o : Int64x64) : ℤ := (x.v.toInt * o.v.toInt).tdiv (2 ^ 64)

/-- The integer is one of the signed integers of 128 bits. -/
def Fits (z : ℤ) : Prop := -2 ^ 127 ≤ z ∧ z < 2 ^ 127

instance decidableFits (z : ℤ) : Decidable (Fits z) := inferInstanceAs (Decidable (_ ∧ _))

theorem toInt_ofInt_iff (z : ℤ) : (BitVec.ofInt 128 z).toInt = z ↔ Fits z := by
  rw [BitVec.toInt_ofInt, Int.bmod_eq_iff (by norm_num)]
  unfold Fits
  omega

/-- `Mul` never aborts: it returns the exact product, wrapped. -/
theorem mul_eq (x o : Int64x64) : mul x o = some ⟨BitVec.ofInt 128 (exactProduct x o)⟩ := by
  obtain ⟨hsign, ha, hb⟩ := outputSign_spec x.v o.v
  have hle : ∀ a : BitVec 128, a.toInt.natAbs ≤ 2 ^ 127 := natAbs_toInt_le
  unfold mul
  simp only
  rw [umul_eq (ha ▸ hle _) (hb ▸ hle _), Option.map_some, signed_ofNat, hsign, ha, hb]
  unfold exactProduct
  rw [mul_eq_withSign, withSign_tdiv_two_pow]

end Ns3.Core.Int64x64
