import Mathlib.Data.BitVec
import Ns3.Lib.While

/-!
# Fixed-point numbers

`int64x64-128.h` and `.cc`: numbers with 64 bits before and 64 after the point in
one 128-bit word. An `int128_t` and the `uint128_t` of the same bits are the same
word; `toInt` reads it with a sign, `toNat` without. Negation wraps, so the
magnitude of the least number is its own bits, read without a sign.
-/

namespace Ns3.Core

open Ns3.Lib

structure Int64x64 where
  /-- `_v`. -/
  v : BitVec 128
  deriving DecidableEq

namespace Int64x64

/-- `HP128_MASK_HI_BIT`. -/
def hp128MaskHiBit : BitVec 128 := 1#128 <<< 127

/-- `HP_MASK_LO`, a `uint64_t`. -/
def hpMaskLo : BitVec 64 := 0xffffffffffffffff#64

/-- `HP_MASK_HI`, a `uint64_t` too. -/
def hpMaskHi : BitVec 64 := ~~~hpMaskLo

/-- `int64x64_t (const int64_t hi, const uint64_t lo)`. -/
def ofParts (hi lo : BitVec 64) : Int64x64 := ⟨hi.signExtend 128 <<< 64 ||| lo.setWidth 128⟩

/-- `int64x64_t (const long int v)`. -/
def ofInteger (v : BitVec 64) : Int64x64 := ⟨v.signExtend 128 <<< 64⟩

/-- `GetHigh`. -/
def getHigh (x : Int64x64) : BitVec 64 := (x.v.sshiftRight 64).setWidth 64

/-- `GetInt`. -/
def getInt (x : Int64x64) : BitVec 64 :=
  let negative := x.v.slt 0
  let value := if negative then -x.v else x.v
  let retval := (value >>> 64).setWidth 64
  if negative then -retval else retval

/-- `output_sign`: the sign of the result and the two magnitudes. -/
def outputSign (sa sb : BitVec 128) : Bool × BitVec 128 × BitVec 128 :=
  let negA := sa.slt 0
  let negB := sb.slt 0
  let ua := if negA then -sa else sa
  let ub := if negB then -sb else sb
  ((negA && !negB) || (!negA && negB), ua, ub)

/-- `Umul`; no result stands for `NS_ABORT_MSG_IF`. -/
def umul (a b : BitVec 128) : Option (BitVec 128) :=
  let aL := a &&& hpMaskLo.setWidth 128
  let bL := b &&& hpMaskLo.setWidth 128
  let aH := (a >>> 64) &&& hpMaskLo.setWidth 128
  let bH := (b >>> 64) &&& hpMaskLo.setWidth 128
  let loPart := aL * bL
  let midPart := aL * bH + aH * bL
  let hiPart := aH * bH
  if hiPart &&& hpMaskHi.setWidth 128 ≠ 0 then none
  else
    -- the terms of 64 bits, with their carries
    let result := (loPart >>> 64) + (midPart &&& hpMaskLo.setWidth 128)
    let res1 := (midPart >>> 64) + (hiPart &&& hpMaskLo.setWidth 128)
    some (result + res1 <<< 64)

/-- `Mul`. -/
def mul (x o : Int64x64) : Option Int64x64 :=
  let (negative, a, b) := outputSign x.v o.v
  (umul a b).map fun result => ⟨if negative then -result else result⟩

/-! ## Division -/

/-- `DIGITS`. -/
def digits : ℕ := 64

/-- The variables of `Udiv`. -/
structure Division where
  rem : BitVec 128
  den : BitVec 128
  result : BitVec 128
  digis : ℕ
  shift : ℕ

namespace Division

/-- Skip trailing zeros in divisor. -/
def skipDivisorZeros (fuel : ℕ) (s : Division) : Option Division :=
  whileLoop (fun s => s.shift < digits && s.den &&& 1 == 0)
    (fun s => some { s with shift := s.shift + 1, den := s.den >>> 1 }) fuel s

/-- Skip leading zeros in remainder. -/
def skipRemainderZeros (fuel : ℕ) (s : Division) : Option Division :=
  whileLoop (fun s => s.digis + s.shift < digits && s.rem &&& hp128MaskHiBit == 0)
    (fun s => some { s with shift := s.shift + 1, rem := s.rem <<< 1 }) fuel s

/-- Cast off denominator bits. -/
def castOff (fuel : ℕ) (s : Division) : Option Division :=
  whileLoop (fun s => s.digis + s.shift < digits && (s.den &&& 1 == 0 || s.rem < s.den))
    (fun s => some { s with shift := s.shift + 1, den := s.den >>> 1 }) fuel s

/-- Do the division, and add in the quotient as `shift` bits of the fraction. -/
def divide (s : Division) : Division where
  rem := s.rem % s.den
  den := s.den
  result := s.result <<< s.shift + s.rem / s.den
  digis := s.digis + s.shift
  shift := 0

/-- One round of the loop over the digits. -/
def round (fuel : ℕ) (s : Division) : Option Division := do
  let s ← s.skipRemainderZeros fuel
  let s ← s.castOff fuel
  some s.divide

end Division

/-- `Udiv`, each of its loops for less than `fuel` rounds. The divisor is not zero. -/
def udiv (fuel : ℕ) (a b : BitVec 128) : Option (BitVec 128) := do
  let start : Division := { rem := a % b, den := b, result := a / b, digis := 0, shift := 0 }
  let s ← start.skipDivisorZeros fuel
  let s ← whileLoop (fun s => s.digis < digits && s.rem != 0) (Division.round fuel) fuel s
  some (if s.digis < digits then s.result <<< (digits - s.digis) else s.result)

/-- `Div`. -/
def div (fuel : ℕ) (x o : Int64x64) : Option Int64x64 :=
  let (negative, a, b) := outputSign x.v o.v
  (udiv fuel a b).map fun result => ⟨if negative then -result else result⟩

/-! ## Inverses -/

/-- `UmulByInvert`. -/
def umulByInvert (a b : BitVec 128) : BitVec 128 :=
  let ah := a >>> 64
  let bh := b >>> 64
  let al := a &&& hpMaskLo.setWidth 128
  let bl := b &&& hpMaskLo.setWidth 128
  let hi := ah * bh
  let mid := ah * bl + al * bh
  hi + mid >>> 64

/-- `MulByInvert`. -/
def mulByInvert (x o : Int64x64) : Int64x64 :=
  let negResult := x.v.slt 0
  let a := if negResult then -x.v else x.v
  let result := umulByInvert a o.v
  ⟨if negResult then -result else result⟩

/-- `Invert`. -/
def invert (fuel : ℕ) (v : BitVec 64) : Option Int64x64 := do
  let result ← udiv fuel (1#128 <<< 64) (v.setWidth 128)
  let tmp := (ofParts v 0).mulByInvert ⟨result⟩
  some ⟨if tmp.getHigh ≠ 1 then result + 1 else result⟩

end Int64x64

end Ns3.Core
