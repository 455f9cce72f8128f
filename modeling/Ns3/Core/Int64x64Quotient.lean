import Ns3.Core.Int64x64Product

/-!
# Quotients

Every round of the division keeps that the result so far is the quotient to the
places so far, and that remainder and divisor stand in the ratio of what is left
(`Dividing`). The divisor is at most 2^127, so a remainder with its highest bit set
is not less than it, and no bit of the divisor is lost.
-/

namespace Ns3.Core.Int64x64

open Ns3.Lib

theorem lowBit_iff (x : BitVec 128) : (x &&& 1 == 0) = true ↔ x.toNat % 2 = 0 := by
  rw [beq_iff_eq, ← BitVec.toNat_inj, BitVec.toNat_and]
  exact (Nat.and_one_is_mod x.toNat).symm ▸ Iff.rfl

theorem highBit_iff (x : BitVec 128) :
    (x &&& hp128MaskHiBit == 0) = true ↔ x.toNat < 2 ^ 127 := by
  have hlt := x.isLt
  have hmask : hp128MaskHiBit.toNat = 2 ^ 127 := rfl
  rw [beq_iff_eq, ← BitVec.toNat_inj, BitVec.toNat_and, hmask, Nat.and_two_pow,
    Nat.testBit_eq_decide_div_mod_eq]
  simp only [Nat.reducePow, BitVec.ofNat_eq_ofNat, BitVec.toNat_ofNat, Nat.zero_mod]
  simp
  omega

/-- The state of a division of `a` by `b`: `t` zeros of the divisor are cast off, `q` is the
quotient to `digis` places, and `f` is left. -/
structure Dividing (a b t q f : ℕ) (s : Division) : Prop where
  quotient : DividedTo a b s.digis q f
  divisor : s.den.toNat * 2 ^ t = b
  remainder : s.rem.toNat * 2 ^ t = f * 2 ^ s.shift
  result : s.result.toNat = q % 2 ^ 128
  places : s.digis + s.shift ≤ digits

namespace Dividing

variable {a b t q f : ℕ} {s : Division}

theorem halve (h : Dividing a b t q f s) (heven : s.den.toNat % 2 = 0)
    (hlt : s.digis + s.shift < digits) :
    Dividing a b (t + 1) q f { s with shift := s.shift + 1, den := s.den >>> 1 } where
  quotient := h.quotient
  divisor := by
    have hhalf : s.den.toNat / 2 * 2 = s.den.toNat := by omega
    rw [BitVec.toNat_ushiftRight, Nat.shiftRight_eq_div_pow, pow_one, pow_succ', ← mul_assoc, hhalf,
      h.divisor]
  remainder := by
    rw [pow_succ, ← mul_assoc, h.remainder, pow_succ, mul_assoc]
  result := h.result
  places := hlt

theorem double (h : Dividing a b t q f s) (htop : s.rem.toNat < 2 ^ 127)
    (hlt : s.digis + s.shift < digits) :
    Dividing a b t q f { s with shift := s.shift + 1, rem := s.rem <<< 1 } where
  quotient := h.quotient
  divisor := h.divisor
  remainder := by
    have hdouble : (s.rem <<< 1).toNat = s.rem.toNat * 2 := by
      rw [BitVec.toNat_shiftLeft, Nat.shiftLeft_eq]
      omega
    rw [hdouble, mul_right_comm, h.remainder, pow_succ, mul_assoc]
  result := h.result
  places := hlt

theorem den_pos (h : Dividing a b t q f s) : 0 < s.den.toNat := by
  have hb := h.quotient.lt
  rw [← h.divisor] at hb
  exact Nat.pos_of_mul_pos_right (lt_of_le_of_lt (Nat.zero_le _) hb)

/-- The division of the remainder gives `shift` more places. -/
theorem divide (h : Dividing a b t q f s) :
    ∃ q' f', Dividing a b t q' f' s.divide := by
  have hsplit := Nat.div_add_mod s.rem.toNat s.den.toNat
  have hmod := Nat.mod_lt s.rem.toNat h.den_pos
  have hleft : s.rem.toNat % s.den.toNat * 2 ^ t < b := by
    rw [← h.divisor]
    exact Nat.mul_lt_mul_of_pos_right hmod (Nat.two_pow_pos t)
  refine ⟨q * 2 ^ s.shift + s.rem.toNat / s.den.toNat, s.rem.toNat % s.den.toNat * 2 ^ t, ?_⟩
  constructor
  · refine h.quotient.next ?_ hleft
    calc f * 2 ^ s.shift = s.rem.toNat * 2 ^ t := h.remainder.symm
      _ = (s.den.toNat * (s.rem.toNat / s.den.toNat) + s.rem.toNat % s.den.toNat) * 2 ^ t := by
        rw [hsplit]
      _ = s.rem.toNat / s.den.toNat * b + s.rem.toNat % s.den.toNat * 2 ^ t := by
        rw [← h.divisor]
        ring
  · exact h.divisor
  · show (s.rem % s.den).toNat * 2 ^ t = _ * 2 ^ 0
    rw [BitVec.toNat_umod, pow_zero, mul_one]
  · show (s.result <<< s.shift + s.rem / s.den).toNat = _
    rw [BitVec.toNat_add, BitVec.toNat_shiftLeft, BitVec.toNat_udiv, Nat.shiftLeft_eq, h.result]
    simp [Nat.add_mod, Nat.mul_mod]
  · exact h.places

end Dividing

/-! ## The loops -/

section Loops

variable {a b t q f fuel : ℕ} {s : Division}

theorem skipDivisorZeros_spec (h : Dividing a b t q f s) (hd : s.digis = 0)
    (hfuel : digits < fuel) :
    ∃ s' t', s.skipDivisorZeros fuel = some s' ∧ Dividing a b t' q f s' := by
  have hloop := whileLoop_total (c := fun s : Division => s.shift < digits && s.den &&& 1 == 0)
    (f := fun s => some { s with shift := s.shift + 1, den := s.den >>> 1 }) (n := fuel)
    (P := fun s => s.digis = 0 ∧ ∃ t', Dividing a b t' q f s) (fun s => digits - s.shift)
    (fun s ⟨hd, t', h⟩ hc => ?_) ⟨hd, t, h⟩ (by omega)
  · obtain ⟨s', hrun, ⟨-, t', h'⟩, -⟩ := hloop
    exact ⟨s', t', hrun, h'⟩
  · rw [Bool.and_eq_true, decide_eq_true_eq, lowBit_iff] at hc
    exact ⟨_, rfl, ⟨hd, t' + 1, h.halve hc.2 (by omega)⟩, by dsimp only; omega⟩

/-- The remainder is shifted until it has its highest bit set or the places are complete. -/
theorem skipRemainderZeros_spec (h : Dividing a b t q f s) (hfuel : digits < fuel) :
    ∃ s', s.skipRemainderZeros fuel = some s' ∧ Dividing a b t q f s' ∧ s'.digis = s.digis ∧
      (s'.digis + s'.shift < digits → 2 ^ 127 ≤ s'.rem.toNat) := by
  have hloop := whileLoop_total
    (c := fun s : Division => s.digis + s.shift < digits && s.rem &&& hp128MaskHiBit == 0)
    (f := fun s => some { s with shift := s.shift + 1, rem := s.rem <<< 1 }) (n := fuel)
    (P := fun s' => s'.digis = s.digis ∧ Dividing a b t q f s')
    (fun s => digits - (s.digis + s.shift)) (fun s ⟨hd, h⟩ hc => ?_) ⟨rfl, h⟩ (by omega)
  · obtain ⟨s', hrun, ⟨hd, h'⟩, hexit⟩ := hloop
    refine ⟨s', hrun, h', hd, fun hlt => ?_⟩
    by_contra htop
    rw [decide_eq_true hlt, Bool.true_and, ← Bool.not_eq_true, highBit_iff] at hexit
    exact hexit (by omega)
  · rw [Bool.and_eq_true, decide_eq_true_eq, highBit_iff] at hc
    exact ⟨_, rfl, ⟨hd, h.double hc.2 hc.1⟩, by dsimp only; omega⟩

/-- Only zeros are cast off: a remainder with its highest bit set is not less than the divisor. -/
theorem castOff_spec (h : Dividing a b t q f s) (hb : b ≤ 2 ^ 127) (hfuel : digits < fuel)
    (htop : s.digis + s.shift < digits → 2 ^ 127 ≤ s.rem.toNat) :
    ∃ s' t', s.castOff fuel = some s' ∧ Dividing a b t' q f s' ∧ s'.digis = s.digis ∧
      s.shift ≤ s'.shift := by
  have hloop := whileLoop_total
    (c := fun s : Division =>
      s.digis + s.shift < digits && (s.den &&& 1 == 0 || s.rem < s.den))
    (f := fun s => some { s with shift := s.shift + 1, den := s.den >>> 1 }) (n := fuel)
    (P := fun s' => s'.rem = s.rem ∧ s'.digis = s.digis ∧ s.shift ≤ s'.shift ∧
      ∃ t', Dividing a b t' q f s')
    (fun s => digits - (s.digis + s.shift)) (fun s₁ ⟨hrem, hd, hshift, t', h₁⟩ hc => ?_)
    ⟨rfl, rfl, le_refl _, t, h⟩ (by omega)
  · obtain ⟨s', hrun, ⟨-, hd, hshift, t', h'⟩, -⟩ := hloop
    exact ⟨s', t', hrun, h', hd, hshift⟩
  · rw [Bool.and_eq_true, Bool.or_eq_true, decide_eq_true_eq, decide_eq_true_eq, lowBit_iff] at hc
    obtain ⟨hlt, hodd | hless⟩ := hc
    · exact ⟨_, rfl, ⟨hrem, hd, by dsimp only; omega, t' + 1, h₁.halve hodd hlt⟩, by dsimp only; omega⟩
    · have hden : s₁.den.toNat ≤ b := by
        rw [← h₁.divisor]
        exact Nat.le_mul_of_pos_right _ (Nat.two_pow_pos t')
      have htop' := htop (by omega)
      rw [BitVec.lt_def, hrem] at hless
      omega

/-- A round gives at least one more place. -/
theorem round_spec (h : Dividing a b t q f s) (hb : b ≤ 2 ^ 127) (hlt : s.digis < digits)
    (hfuel : digits < fuel) :
    ∃ s' t' q' f', s.round fuel = some s' ∧ Dividing a b t' q' f' s' ∧ s.digis < s'.digis := by
  obtain ⟨s₁, hrun₁, h₁, hd₁, htop⟩ := skipRemainderZeros_spec h hfuel
  obtain ⟨s₂, t₂, hrun₂, h₂, hd₂, hshift⟩ := castOff_spec h₁ hb hfuel htop
  obtain ⟨q', f', h'⟩ := h₂.divide
  refine ⟨s₂.divide, t₂, q', f', ?_, h', ?_⟩
  · unfold Division.round
    rw [hrun₁]
    simp only [Option.bind_eq_bind, Option.bind_some]
    rw [hrun₂, Option.bind_some]
  · -- unshifted, the remainder is less than the divisor and has its highest bit clear
    have hpos : 0 < s₁.shift := by
      by_contra hzero
      have hshift₁ : s₁.shift = 0 := by omega
      have hrem : s₁.rem.toNat ≤ f := by
        have hval := h₁.remainder
        rw [hshift₁, pow_zero, mul_one] at hval
        rw [← hval]
        exact Nat.le_mul_of_pos_right _ (Nat.two_pow_pos t)
      have hf := h₁.quotient.lt
      have := htop (by omega)
      omega
    show s.digis < s₂.digis + s₂.shift
    omega

end Loops

/-- The division of magnitudes ends, with the quotient to 64 places, wrapped. -/
theorem udiv_eq {a b : BitVec 128} {fuel : ℕ} (hpos : 0 < b.toNat) (hb : b.toNat ≤ 2 ^ 127)
    (hfuel : digits < fuel) :
    udiv fuel a b = some (BitVec.ofNat 128 (a.toNat * 2 ^ 64 / b.toNat)) := by
  have hstart : Dividing a.toNat b.toNat 0 (a.toNat / b.toNat) (a.toNat % b.toNat)
      { rem := a % b, den := b, result := a / b, digis := 0, shift := 0 } :=
    { quotient := DividedTo.start hpos
      divisor := by simp
      remainder := by simp
      result := by
        rw [BitVec.toNat_udiv, Nat.mod_eq_of_lt]
        exact lt_of_le_of_lt (Nat.div_le_self _ _) a.isLt
      places := Nat.zero_le _ }
  obtain ⟨s₁, t₁, hrun₁, h₁⟩ := skipDivisorZeros_spec hstart rfl hfuel
  obtain ⟨s₂, hrun₂, ⟨t₂, q₂, f₂, h₂⟩, hexit⟩ :=
    whileLoop_total (c := fun s : Division => s.digis < digits && s.rem != 0)
      (f := Division.round fuel) (n := fuel)
      (P := fun s => ∃ t q f, Dividing a.toNat b.toNat t q f s) (fun s => digits - s.digis)
      (fun s ⟨t, q, f, h⟩ hc => by
        rw [Bool.and_eq_true, decide_eq_true_eq] at hc
        obtain ⟨s', t', q', f', hrun, h', hlt⟩ := round_spec h hb hc.1 hfuel
        exact ⟨s', hrun, ⟨t', q', f', h'⟩, by omega⟩)
      ⟨t₁, _, _, h₁⟩ (by omega)
  unfold udiv
  simp only [Option.bind_eq_bind]
  rw [hrun₁, Option.bind_some, hrun₂, Option.bind_some]
  refine congrArg some (BitVec.eq_of_toNat_eq ?_)
  rw [BitVec.toNat_ofNat]
  have hplaces := h₂.places
  by_cases hd : s₂.digis < digits
  · -- out of remainder
    have hrem : s₂.rem = 0 := by simpa [hd] using hexit
    have hf : f₂ = 0 := by
      have hval := h₂.remainder
      rw [hrem] at hval
      simpa using hval
    have hq := (hf ▸ h₂.quotient).pad (digits - s₂.digis)
    rw [if_pos hd, BitVec.toNat_shiftLeft, Nat.shiftLeft_eq, h₂.result, Nat.mod_mul_mod, hq.eq_div,
      Nat.add_sub_cancel' hd.le]
    rfl
  · have hd' : s₂.digis = 64 := by
      unfold digits at hd hplaces
      omega
    rw [if_neg hd, h₂.result, h₂.quotient.eq_div, hd']

/-- The exact quotient, rounded toward zero to 64 places. -/
def exactQuotient (x o : Int64x64) : ℤ := (x.v.toInt * 2 ^ 64).tdiv o.v.toInt

theorem div_eq {x o : Int64x64} {fuel : ℕ} (ho : o.v ≠ 0) (hfuel : digits < fuel) :
    div fuel x o = some ⟨BitVec.ofInt 128 (exactQuotient x o)⟩ := by
  obtain ⟨hsign, ha, hb⟩ := outputSign_spec x.v o.v
  have hle : o.v.toInt.natAbs ≤ 2 ^ 127 := natAbs_toInt_le o.v
  have hne : o.v.toInt ≠ 0 := fun h => ho (BitVec.eq_of_toInt_eq (by rw [h]; rfl))
  have hquo := tdiv_eq_withSign (x.v.toInt * 2 ^ 64) o.v.toInt
  have hneg : x.v.toInt * 2 ^ 64 < 0 ↔ x.v.toInt < 0 := by omega
  have habs : (x.v.toInt * 2 ^ 64).natAbs = x.v.toInt.natAbs * 2 ^ 64 := Int.natAbs_mul _ _
  rw [decide_eq_decide.mpr hneg, habs] at hquo
  unfold div
  simp only
  rw [udiv_eq (by rw [hb]; omega) (by rw [hb]; exact hle) hfuel, Option.map_some, signed_ofNat, hsign, ha, hb]
  unfold exactQuotient
  rw [hquo]

/-! ## When the operations are exact -/

/-- `Mul` returns the exact product where it fits, and aborts where it does not. -/
def MulExact (x o : Int64x64) : Prop :=
  if Fits (exactProduct x o) then ∃ r, mul x o = some r ∧ r.v.toInt = exactProduct x o
  else mul x o = none

/-- By a number that is not zero, `Udiv` ends with the quotient of the magnitudes, and `Div`
returns the exact quotient where it fits. -/
def DivExact (x o : Int64x64) : Prop :=
  o.v ≠ 0 → ∃ rounds, ∀ fuel, rounds < fuel →
    udiv fuel (outputSign x.v o.v).2.1 (outputSign x.v o.v).2.2 =
      some (BitVec.ofNat 128 (x.v.toInt.natAbs * 2 ^ 64 / o.v.toInt.natAbs)) ∧
    (Fits (exactQuotient x o) →
      ∃ r, div fuel x o = some r ∧ r.v.toInt = exactQuotient x o)

theorem divExact (x o : Int64x64) : DivExact x o := by
  intro ho
  obtain ⟨-, ha, hb⟩ := outputSign_spec x.v o.v
  have hle : o.v.toInt.natAbs ≤ 2 ^ 127 := natAbs_toInt_le o.v
  have hne : o.v.toInt ≠ 0 := fun h => ho (BitVec.eq_of_toInt_eq (by rw [h]; rfl))
  refine ⟨digits, fun fuel hfuel => ⟨?_, fun hfits => ⟨_, div_eq ho hfuel, ?_⟩⟩⟩
  · rw [udiv_eq (by omega) (by omega) hfuel, ha, hb]
  · exact (toInt_ofInt_iff _).mpr hfits

/-- The product of the words, with twice 64 places, is in the range that fits after rounding. -/
theorem fits_exactProduct_iff (x o : Int64x64) : Fits (exactProduct x o) ↔
    -(2 ^ 191 + 2 ^ 64) < x.v.toInt * o.v.toInt ∧ x.v.toInt * o.v.toInt < 2 ^ 191 := by
  unfold exactProduct Fits
  generalize x.v.toInt * o.v.toInt = p
  rcases le_or_gt 0 p with hp | hp
  · rw [Int.tdiv_eq_ediv_of_nonneg hp]
    omega
  · have hround : p.tdiv (2 ^ 64) = -((-p) / 2 ^ 64) := by
      rw [← Int.tdiv_eq_ediv_of_nonneg (by omega), Int.neg_tdiv, neg_neg]
    rw [hround]
    omega

/-- The multiplication and the division are exact exactly where the product fits. -/
theorem mulExact_divExact_iff (x o : Int64x64) : MulExact x o ∧ DivExact x o ↔
    -(2 ^ 191 + 2 ^ 64) < x.v.toInt * o.v.toInt ∧ x.v.toInt * o.v.toInt < 2 ^ 191 := by
  rw [← fits_exactProduct_iff]
  unfold MulExact
  constructor
  · rintro ⟨hmul, -⟩
    by_contra hfits
    rw [if_neg hfits, mul_eq] at hmul
    cases hmul
  · intro hfits
    rw [if_pos hfits]
    exact ⟨⟨_, mul_eq x o, (toInt_ofInt_iff _).mpr hfits⟩, divExact x o⟩

/-- The square of 2^32 is returned as zero. -/
theorem mul_wraps :
    ¬ ∀ x o : Int64x64, MulExact x o ∧ DivExact x o := by
  intro h
  obtain ⟨hmul, -⟩ := h ⟨1#128 <<< 96⟩ ⟨1#128 <<< 96⟩
  unfold MulExact at hmul
  rw [if_neg (by decide)] at hmul
  exact absurd hmul (by decide)

end Ns3.Core.Int64x64
