import Ns3.Core.Int64x64Quotient

/-!
# Division by a product with an inverse

`Invert` returns the inverse to 128 places rounded up (`invert_spec`): its one probe
is 1 exactly where the inverse is exact. The product of an integer with it is too
large by less than what would change the integer part.
-/

namespace Ns3.Core.Int64x64

open Ns3.Lib

/-! ## Integers -/

theorem ofInteger_toInt (z : BitVec 64) : (ofInteger z).v.toInt = z.toInt * 2 ^ 64 := by
  have hlow := BitVec.le_toInt z
  have hhigh := BitVec.toInt_lt (x := z)
  have hv : (ofInteger z).v = BitVec.ofInt 128 (z.toInt * 2 ^ 64) := by
    rw [BitVec.ofInt_mul]
    exact BitVec.shiftLeft_eq_mul_twoPow _ _
  rw [hv, toInt_ofInt_iff]
  unfold Fits
  omega

/-- `GetInt` rounds toward zero. -/
theorem getInt_toInt (x : Int64x64) : x.getInt.toInt = x.v.toInt.tdiv (2 ^ 64) := by
  have hlow := BitVec.le_toInt x.v
  have hhigh := BitVec.toInt_lt (x := x.v)
  have hmag := magnitude_toNat x.v
  have hneg : x.v.slt 0 = decide (x.v.toInt < 0) := by simp [BitVec.slt]
  unfold getInt
  simp only
  generalize (if x.v.slt 0 then -x.v else x.v) = value at *
  have hval : (value >>> 64).setWidth 64 = BitVec.ofNat 64 (x.v.toInt.natAbs / 2 ^ 64) := by
    rw [← hmag, ← high_toNat]
    rfl
  have hround := withSign_tdiv_two_pow (decide (x.v.toInt < 0)) x.v.toInt.natAbs 64
  rw [withSign_natAbs] at hround
  rw [hval, signed_ofNat, hneg, hround, BitVec.toInt_ofInt, Int.bmod_eq_iff (by norm_num)]
  by_cases hx : x.v.toInt < 0
  · rw [decide_eq_true hx, withSign_true]
    omega
  · rw [decide_eq_false hx, withSign_false]
    omega

/-- `GetHigh` of a number that is not negative. -/
theorem getHigh_of_lt {x : Int64x64} (h : x.v.toNat < 2 ^ 127) :
    x.getHigh = BitVec.ofNat 64 (x.v.toNat / 2 ^ 64) := by
  have hmsb : x.v.msb = false := by
    rw [BitVec.msb_eq_decide, decide_eq_false_iff_not]
    omega
  unfold getHigh
  rw [BitVec.sshiftRight_eq_of_msb_false hmsb, ← high_toNat]
  rfl

/-! ## Products with an inverse -/

/-- By an integer, the parts that `UmulByInvert` adds are the whole product. -/
theorem umulByInvert_toNat {a : BitVec 128} {n : ℕ} (b : BitVec 128) (ha : a.toNat = n * 2 ^ 64)
    (hn : n ≤ 2 ^ 63) : (umulByInvert a b).toNat = n * b.toNat / 2 ^ 64 := by
  have hbL := low_toNat b
  have hbH := high_toNat b
  have haL := low_toNat a
  have haH := high_toNat a
  have hblt := b.isLt
  unfold umulByInvert
  simp only
  generalize a &&& hpMaskLo.setWidth 128 = aL at *
  generalize b &&& hpMaskLo.setWidth 128 = bL at *
  generalize a >>> 64 = aH at *
  generalize b >>> 64 = bH at *
  have haL' : aL.toNat = 0 := by omega
  have haH' : aH.toNat = n := by omega
  have hhi : n * bH.toNat ≤ 2 ^ 63 * (2 ^ 64 - 1) := Nat.mul_le_mul hn (by omega)
  have hmid : n * bL.toNat ≤ 2 ^ 63 * (2 ^ 64 - 1) := Nat.mul_le_mul hn (by omega)
  have hB : b.toNat = bH.toNat * 2 ^ 64 + bL.toNat := by omega
  have hprod : n * b.toNat = 2 ^ 64 * (n * bH.toNat) + n * bL.toNat := by rw [hB]; ring
  rw [hprod, Nat.mul_add_div (by norm_num)]
  simp only [BitVec.toNat_add, BitVec.toNat_mul, high_toNat, haL', haH', Nat.zero_mul]
  generalize n * bH.toNat = hi at *
  generalize n * bL.toNat = mid at *
  omega

/-- `MulByInvert` of an integer. -/
theorem mulByInvert_toInt {x : Int64x64} {z : ℤ} (b : Int64x64) (hx : x.v.toInt = z * 2 ^ 64) :
    (x.mulByInvert b).v.toInt =
      withSign (decide (z < 0)) (z.natAbs * b.v.toNat / 2 ^ 64) := by
  have hle := natAbs_toInt_le x.v
  have hblt := b.v.isLt
  have hmag := magnitude_toNat x.v
  have hneg : x.v.slt 0 = decide (z < 0) := by
    rw [show x.v.slt 0 = decide (x.v.toInt < 0) by simp [BitVec.slt], hx, decide_eq_decide]
    omega
  have hz : z.natAbs ≤ 2 ^ 63 := by omega
  have habs : x.v.toInt.natAbs = z.natAbs * 2 ^ 64 := by rw [hx]; exact Int.natAbs_mul _ _
  unfold mulByInvert
  simp only
  generalize (if x.v.slt 0 then -x.v else x.v) = a at *
  have hval : umulByInvert a b.v = BitVec.ofNat 128 (z.natAbs * b.v.toNat / 2 ^ 64) := by
    rw [← umulByInvert_toNat b.v (hmag.trans habs) hz, BitVec.ofNat_toNat, BitVec.setWidth_eq]
  have hprod : z.natAbs * b.v.toNat ≤ 2 ^ 63 * (2 ^ 128 - 1) := Nat.mul_le_mul hz (by omega)
  rw [hval, signed_ofNat, hneg, toInt_ofInt_iff]
  generalize z.natAbs * b.v.toNat = p at *
  unfold Fits
  cases decide (z < 0) with
  | false =>
    rw [withSign_false]
    omega
  | true =>
    rw [withSign_true]
    omega

/-! ## The inverse -/

/-- The probe of `Invert` is 1 exactly where the inverse needs no rounding. -/
theorem probe_eq_one_iff {v : BitVec 64} {r : BitVec 128} (hlt : v.toNat < 2 ^ 63)
    (hr : v.toNat * r.toNat ≤ 2 ^ 128) :
    ((ofParts v 0).mulByInvert ⟨r⟩).getHigh = 1 ↔ v.toNat * r.toNat = 2 ^ 128 := by
  have hparts : ofParts v 0 = ofInteger v := by
    unfold ofParts ofInteger
    simp
  have hv : v.toInt = v.toNat := BitVec.toInt_eq_toNat_of_lt (by omega)
  have hprobe : ((ofInteger v).mulByInvert ⟨r⟩).v.toInt =
      withSign (decide (v.toInt < 0)) (v.toInt.natAbs * r.toNat / 2 ^ 64) :=
    mulByInvert_toInt ⟨r⟩ (ofInteger_toInt v)
  rw [hv, decide_eq_false (by omega), withSign_false, Int.natAbs_natCast] at hprobe
  rw [hparts]
  generalize (ofInteger v).mulByInvert ⟨r⟩ = tmp at *
  have htmp : tmp.v.toNat = v.toNat * r.toNat / 2 ^ 64 := by
    have := tmp.v.isLt
    rw [BitVec.toInt_eq_toNat_cond] at hprobe
    split_ifs at hprobe with hhalf
    all_goals omega
  rw [getHigh_of_lt (by omega), htmp, ← BitVec.toNat_inj, BitVec.toNat_ofNat]
  show _ = 1 ↔ _
  omega

/-- `Invert` ends, with the inverse to 128 places rounded up. -/
theorem invert_spec {v : BitVec 64} {fuel : ℕ} (hv : 1 < v.toNat) (hlt : v.toNat < 2 ^ 63)
    (hfuel : digits < fuel) :
    ∃ b, invert fuel v = some b ∧ 2 ^ 128 ≤ b.v.toNat * v.toNat ∧
      b.v.toNat * v.toNat < 2 ^ 128 + v.toNat := by
  have hwide : (v.setWidth 128).toNat = v.toNat := by
    rw [BitVec.toNat_setWidth]
    omega
  have hdiv := udiv_eq (a := 1#128 <<< 64) (b := v.setWidth 128) (by omega) (by omega) hfuel
  rw [hwide, show (1#128 <<< 64).toNat * 2 ^ 64 = 2 ^ 128 from rfl] at hdiv
  have hfloor := Nat.div_add_mod (2 ^ 128) v.toNat
  have hmod := Nat.mod_lt (2 ^ 128) (show v.toNat > 0 by omega)
  have hq : 2 ^ 128 / v.toNat ≤ 2 ^ 127 := by
    calc 2 ^ 128 / v.toNat ≤ 2 ^ 128 / 2 := Nat.div_le_div_left hv (by norm_num)
      _ = 2 ^ 127 := by norm_num
  have hr : (BitVec.ofNat 128 (2 ^ 128 / v.toNat)).toNat = 2 ^ 128 / v.toNat := by
    rw [BitVec.toNat_ofNat]
    exact Nat.mod_eq_of_lt (by omega)
  unfold invert
  rw [hdiv]
  simp only [Option.bind_eq_bind, Option.bind_some]
  generalize BitVec.ofNat 128 (2 ^ 128 / v.toNat) = r at *
  rw [← hr] at hfloor hq
  refine ⟨_, rfl, ?_⟩
  by_cases hexact : v.toNat * r.toNat = 2 ^ 128
  · rw [if_neg (not_not.mpr ((probe_eq_one_iff hlt (by omega)).mpr hexact))]
    rw [mul_comm] at hexact
    exact ⟨hexact.ge, by dsimp only; omega⟩
  · rw [if_pos (fun h => hexact ((probe_eq_one_iff hlt (by omega)).mp h))]
    have hnext : (r + 1).toNat * v.toNat = v.toNat * r.toNat + v.toNat := by
      have hone : (r + 1).toNat = r.toNat + 1 := by
        rw [BitVec.toNat_add]
        exact Nat.mod_eq_of_lt (show r.toNat + 1 < 2 ^ 128 by omega)
      rw [hone]
      ring
    dsimp only
    rw [hnext]
    generalize v.toNat * r.toNat = p at *
    omega

/-- Multiplying an integer by an inverse is exact division, rounded toward zero. -/
theorem getInt_mulByInvert_invert {v x : BitVec 64} (hv : 1 < v.toNat) (hlt : v.toNat < 2 ^ 63)
    (hx : x.toInt.natAbs < 2 ^ 63) :
    ∃ rounds, ∀ fuel, rounds < fuel → ∃ b, invert fuel v = some b ∧
      ((ofInteger x).mulByInvert b).getInt.toInt = x.toInt.tdiv v.toNat := by
  refine ⟨digits, fun fuel hfuel => ?_⟩
  obtain ⟨b, hb, hlow, hhigh⟩ := invert_spec hv hlt hfuel
  refine ⟨b, hb, ?_⟩
  have hxv : x.toInt.natAbs * v.toNat ≤ 2 ^ 128 := by
    calc x.toInt.natAbs * v.toNat ≤ 2 ^ 63 * 2 ^ 63 := Nat.mul_le_mul hx.le hlt.le
      _ ≤ 2 ^ 128 := by norm_num
  have hquo := mul_div_of_inverse hlow hhigh hxv
  have hsplit := withSign_tdiv (decide (x.toInt < 0)) false x.toInt.natAbs v.toNat
  rw [withSign_natAbs, withSign_false, Bool.bne_false] at hsplit
  rw [getInt_toInt, mulByInvert_toInt b (ofInteger_toInt x), withSign_tdiv_two_pow,
    Nat.div_div_eq_div_mul, ← pow_add, hquo, hsplit]

theorem getInt_mulByInvert_invert_seven :
    1 < (7 : BitVec 64).toNat ∧ (7 : BitVec 64).toNat < 2 ^ 63 ∧
      (-30 : BitVec 64).toInt.natAbs < 2 ^ 63 ∧
      ∃ rounds, ∀ fuel, rounds < fuel → ∃ b, invert fuel 7 = some b ∧
        ((ofInteger (-30)).mulByInvert b).getInt.toInt =
          (-30 : BitVec 64).toInt.tdiv (7 : BitVec 64).toNat :=
  ⟨by decide, by decide, by decide,
    getInt_mulByInvert_invert (by decide) (by decide) (by decide)⟩

end Ns3.Core.Int64x64
