import Mathlib.Algebra.Order.Archimedean.Basic
import Mathlib.Algebra.Order.Field.Power
import Mathlib.Data.Int.Log
import Mathlib.Data.Rat.Floor
import Mathlib.Data.UInt
import Mathlib.Tactic.Linarith
import Mathlib.Tactic.Positivity
import Mathlib.Tactic.Ring

/-!
# Binary floating point

A format is its number of fraction bits and its least normal exponent. The
code of a nonnegative rational is the integer an IEEE 754 encoding stores for
its nearest value (ties to even), below the sign bit: `2^frac` codes to a
binade, so that a carry out of the significand moves to the next binade by
itself. Codes and values are both monotone, hence so is every conversion, and
any chain of conversions.

`Binary32` is a bit pattern with the comparisons of C++: false on a NaN,
otherwise by sign and magnitude.
-/

namespace Ns3.Lib

/-! ## Rounding to an integer -/

/-- The nearest integer, ties to even. -/
def roundEven (x : ℚ) : ℤ :=
  let k := ⌊x⌋
  if x - k < 1 / 2 then k else if 1 / 2 < x - k then k + 1 else k + k % 2

theorem floor_le_roundEven (x : ℚ) : ⌊x⌋ ≤ roundEven x := by
  simp only [roundEven]
  split_ifs <;> omega

theorem roundEven_le_floor_succ (x : ℚ) : roundEven x ≤ ⌊x⌋ + 1 := by
  simp only [roundEven]
  split_ifs <;> omega

theorem roundEven_mono {x y : ℚ} (h : x ≤ y) : roundEven x ≤ roundEven y := by
  have hf : ⌊x⌋ ≤ ⌊y⌋ := Int.floor_le_floor h
  rcases hf.lt_or_eq with hlt | heq
  · have h₁ := roundEven_le_floor_succ x
    have h₂ := floor_le_roundEven y
    omega
  · have hfrac : x - ⌊x⌋ ≤ y - ⌊y⌋ := by rw [heq]; linarith
    simp only [roundEven]
    -- within one unit only the fraction decides
    rw [heq] at hfrac ⊢
    split_ifs with h₁ h₂ h₃ h₄ h₅ h₆ h₇ <;> first | omega | (exfalso; linarith)

theorem roundEven_intCast (k : ℤ) : roundEven k = k := by simp [roundEven]

/-! ## Formats -/

structure Format where
  /-- Fraction bits. -/
  frac : ℕ
  /-- The exponent of the least normal number, and of every subnormal one. -/
  emin : ℤ

namespace Format

def binary32 : Format := ⟨23, -126⟩
def binary64 : Format := ⟨52, -1022⟩

variable (F : Format)

/-- The binade of `q`, not below the least normal one. -/
def expo (q : ℚ) : ℤ := max (Int.log 2 q) F.emin

/-- The significand of `q` in its binade, as an integer. -/
def mant (q : ℚ) : ℤ := roundEven (q * 2 ^ (F.frac - F.expo q))

/-- The magnitude bits of the nearest value to `q`, for an unbounded exponent range. -/
def code (q : ℚ) : ℕ :=
  if q ≤ 0 then 0 else (F.expo q - F.emin).toNat * 2 ^ F.frac + (F.mant q).toNat

/-- The value of a code, counted in units of the least subnormal. -/
def ulps (n : ℕ) : ℕ :=
  if n < 2 ^ F.frac then n else (2 ^ F.frac + n % 2 ^ F.frac) * 2 ^ (n / 2 ^ F.frac - 1)

def value (n : ℕ) : ℚ := F.ulps n * 2 ^ (F.emin - F.frac)

/-- Round a rational to the format: magnitude by `code`, sign kept. -/
def rnd (q : ℚ) : ℚ := if q < 0 then -F.value (F.code (-q)) else F.value (F.code q)

variable {F}

theorem expo_mono {q r : ℚ} (hq : 0 < q) (h : q ≤ r) : F.expo q ≤ F.expo r :=
  max_le_max_right _ (Int.log_mono_right hq h)

theorem mant_nonneg {q : ℚ} (hq : 0 < q) : 0 ≤ F.mant q := by
  refine le_trans ?_ (floor_le_roundEven _)
  exact Int.floor_nonneg.mpr (by positivity)

/-- A significand fits its binade, up to the carry into the next one. -/
theorem mant_le {q : ℚ} : F.mant q ≤ 2 ^ (F.frac + 1) := by
  have hlt : q < 2 ^ (F.expo q + 1) := by
    refine (Int.lt_zpow_succ_log_self (b := 2) one_lt_two q).trans_le ?_
    exact zpow_le_zpow_right₀ one_le_two (by simp [expo])
  have hs : q * 2 ^ (F.frac - F.expo q) ≤ ((2 ^ (F.frac + 1) : ℤ) : ℚ) := by
    calc q * 2 ^ (F.frac - F.expo q)
        ≤ 2 ^ (F.expo q + 1) * 2 ^ (F.frac - F.expo q) := by gcongr
      _ = ((2 ^ (F.frac + 1) : ℤ) : ℚ) := by
        rw [← zpow_add₀ two_ne_zero, show F.expo q + 1 + (F.frac - F.expo q) = (F.frac + 1 : ℕ) by
          push_cast; ring]
        push_cast
        exact zpow_natCast _ _
  exact (roundEven_mono hs).trans_eq (roundEven_intCast _)

/-- Above the least binade the hidden bit is set. -/
theorem le_mant {q : ℚ} (hq : 0 < q) (h : F.emin < F.expo q) : 2 ^ F.frac ≤ F.mant q := by
  have he : F.expo q = Int.log 2 q := by
    rw [expo] at h ⊢
    exact max_eq_left (by rcases lt_max_iff.mp h with h | h <;> omega)
  have hs : ((2 ^ F.frac : ℤ) : ℚ) ≤ q * 2 ^ (F.frac - F.expo q) := by
    calc ((2 ^ F.frac : ℤ) : ℚ)
        = 2 ^ F.expo q * 2 ^ (F.frac - F.expo q) := by
          rw [← zpow_add₀ two_ne_zero, add_sub_cancel]
          push_cast
          exact (zpow_natCast _ _).symm
      _ ≤ q * 2 ^ (F.frac - F.expo q) := by
          have := Int.zpow_log_le_self (b := 2) one_lt_two hq
          rw [← he, Nat.cast_ofNat] at this
          gcongr
  exact (roundEven_intCast _).symm.trans_le (roundEven_mono hs)

theorem code_mono {q r : ℚ} (h : q ≤ r) : F.code q ≤ F.code r := by
  rcases le_or_gt q 0 with hq | hq
  · simp [code, hq]
  have hr : 0 < r := hq.trans_le h
  have he : F.expo q ≤ F.expo r := expo_mono hq h
  have hmin : F.emin ≤ F.expo q := le_max_right _ _
  simp only [code, not_le.mpr hq, not_le.mpr hr, if_false]
  rcases he.eq_or_lt with heq | hlt
  · have hm : F.mant q ≤ F.mant r := by
      simp only [mant, heq]
      exact roundEven_mono (by gcongr)
    rw [heq]
    exact Nat.add_le_add_left (Int.toNat_le_toNat hm) _
  · have h₁ : (F.mant q).toNat ≤ 2 * 2 ^ F.frac := by
      have := mant_le (F := F) (q := q)
      rw [pow_succ'] at this
      exact Int.toNat_le.mpr (by exact_mod_cast this)
    have h₂ : 2 ^ F.frac ≤ (F.mant r).toNat := by
      have := le_mant (F := F) hr (hmin.trans_lt hlt)
      exact (Int.le_toNat (mant_nonneg hr)).mpr (by exact_mod_cast this)
    have h₃ : (F.expo q - F.emin).toNat + 1 ≤ (F.expo r - F.emin).toNat := by omega
    calc (F.expo q - F.emin).toNat * 2 ^ F.frac + (F.mant q).toNat
        ≤ (F.expo q - F.emin).toNat * 2 ^ F.frac + 2 * 2 ^ F.frac := by gcongr
      _ = ((F.expo q - F.emin).toNat + 1) * 2 ^ F.frac + 2 ^ F.frac := by ring
      _ ≤ (F.expo r - F.emin).toNat * 2 ^ F.frac + (F.mant r).toNat := by gcongr

theorem ulps_succ_le (n : ℕ) : F.ulps n ≤ F.ulps (n + 1) := by
  have hp : 0 < 2 ^ F.frac := by positivity
  simp only [ulps]
  generalize hB : 2 ^ F.frac = B at *
  by_cases h₁ : n + 1 < B
  · rw [if_pos h₁, if_pos (by omega)]
    omega
  rw [if_neg h₁]
  by_cases h₂ : n < B
  · rw [if_pos h₂]
    calc n ≤ (B + (n + 1) % B) * 1 := by omega
      _ ≤ _ := by gcongr; exact Nat.one_le_two_pow
  rw [if_neg h₂]
  have hpos : 1 ≤ n / B := Nat.div_pos (by omega) hp
  by_cases h₃ : (n + 1) % B = 0
  · -- the carry: the last value of a binade is below the first of the next
    have hdiv : (n + 1) / B = n / B + 1 := by
      rw [Nat.succ_div, if_pos (Nat.dvd_of_mod_eq_zero h₃)]
    have hmod : n % B < B := Nat.mod_lt _ hp
    rw [hdiv, h₃, show n / B + 1 - 1 = (n / B - 1) + 1 by omega, pow_succ]
    calc (B + n % B) * 2 ^ (n / B - 1) ≤ (B + B) * 2 ^ (n / B - 1) := by gcongr
      _ = (B + 0) * (2 ^ (n / B - 1) * 2) := by ring
  · have hdiv : (n + 1) / B = n / B := by
      rw [Nat.succ_div, if_neg fun hd => h₃ (Nat.mod_eq_zero_of_dvd hd), add_zero]
    have hmod : n % B ≤ (n + 1) % B := by
      have e₁ := Nat.div_add_mod n B
      have e₂ := Nat.div_add_mod (n + 1) B
      rw [hdiv] at e₂
      omega
    rw [hdiv]
    gcongr

theorem value_mono {m n : ℕ} (h : m ≤ n) : F.value m ≤ F.value n := by
  have hu : F.ulps m ≤ F.ulps n := monotone_nat_of_le_succ ulps_succ_le h
  simp only [value]
  gcongr

theorem rnd_mono_of_nonneg {q r : ℚ} (hq : 0 ≤ q) (h : q ≤ r) : F.rnd q ≤ F.rnd r := by
  simp only [rnd, not_lt.mpr hq, not_lt.mpr (hq.trans h), if_false]
  exact value_mono (code_mono h)

theorem rnd_nonneg {q : ℚ} (hq : 0 ≤ q) : 0 ≤ F.rnd q := by
  simp only [rnd, not_lt.mpr hq, if_false, value]
  positivity

end Format

/-! ## Binary32 -/

/-- A C++ `float`, as its bit pattern. -/
structure Binary32 where
  bits : UInt32
  deriving DecidableEq

namespace Binary32

def magnitude (x : Binary32) : ℕ := x.bits.toNat % 2 ^ 31

/-- The magnitude bits of infinity; anything above is a NaN. -/
def infinity : ℕ := 255 * 2 ^ 23

def isNaN (x : Binary32) : Bool := infinity < x.magnitude

/-- Sign and magnitude as one integer, ordered as the numbers are; both zeros are 0. -/
def key (x : Binary32) : ℤ := if x.bits.toNat < 2 ^ 31 then x.magnitude else -x.magnitude

instance : LT Binary32 := ⟨fun a b => a.isNaN = false ∧ b.isNaN = false ∧ a.key < b.key⟩
instance : LE Binary32 := ⟨fun a b => a.isNaN = false ∧ b.isNaN = false ∧ a.key ≤ b.key⟩
instance : DecidableLT Binary32 := fun _ _ => instDecidableAnd
instance : DecidableLE Binary32 := fun _ _ => instDecidableAnd

theorem lt_def {a b : Binary32} : a < b ↔ a.isNaN = false ∧ b.isNaN = false ∧ a.key < b.key :=
  Iff.rfl

theorem le_def {a b : Binary32} : a ≤ b ↔ a.isNaN = false ∧ b.isNaN = false ∧ a.key ≤ b.key :=
  Iff.rfl

/-- The value of a finite pattern; `none` is an infinity or a NaN. -/
def toRat (x : Binary32) : Option ℚ :=
  if infinity ≤ x.magnitude then none
  else if x.bits.toNat < 2 ^ 31 then some (Format.binary32.value x.magnitude)
  else some (-Format.binary32.value x.magnitude)

/-- The nearest `float` to a nonnegative rational; past the range it is infinity. -/
def ofRat (q : ℚ) : Binary32 := ⟨UInt32.ofNat (min (Format.binary32.code q) infinity)⟩

theorem toNat_bits_ofRat (q : ℚ) :
    (ofRat q).bits.toNat = min (Format.binary32.code q) infinity := by
  refine UInt32.toNat_ofNat_of_lt' (lt_of_le_of_lt (min_le_right _ _) ?_)
  decide

theorem magnitude_ofRat (q : ℚ) :
    (ofRat q).magnitude = min (Format.binary32.code q) infinity := by
  rw [magnitude, toNat_bits_ofRat]
  refine Nat.mod_eq_of_lt (lt_of_le_of_lt (min_le_right _ _) ?_)
  decide

theorem isNaN_ofRat (q : ℚ) : (ofRat q).isNaN = false := by
  simp [isNaN, magnitude_ofRat]

theorem key_ofRat (q : ℚ) : (ofRat q).key = min (Format.binary32.code q) infinity := by
  have h : (ofRat q).bits.toNat < 2 ^ 31 := by
    rw [toNat_bits_ofRat]
    exact lt_of_le_of_lt (min_le_right _ _) (by decide)
  rw [key, if_pos h, magnitude_ofRat]

theorem ofRat_mono {q r : ℚ} (h : q ≤ r) : ofRat q ≤ ofRat r := by
  refine ⟨isNaN_ofRat q, isNaN_ofRat r, ?_⟩
  rw [key_ofRat, key_ofRat]
  exact_mod_cast min_le_min_right _ (Format.code_mono h)

theorem lt_asymm {a b : Binary32} (h : a < b) : ¬ b < a :=
  fun h' => absurd h'.2.2 (not_lt.mpr h.2.2.le)

theorem le_of_lt {a b : Binary32} (h : a < b) : a ≤ b := ⟨h.1, h.2.1, h.2.2.le⟩

theorem le_trans {a b c : Binary32} (h : a ≤ b) (h' : b ≤ c) : a ≤ c :=
  ⟨h.1, h'.2.1, h.2.2.trans h'.2.2⟩

end Binary32

end Ns3.Lib
