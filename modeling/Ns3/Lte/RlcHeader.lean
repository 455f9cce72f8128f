import Mathlib.Data.BitVec
import Mathlib.Data.Nat.Bitwise
import Ns3.Lib.Parser

/-!
# The header of an RLC unacknowledged mode PDU

`lte-rlc-sequence-number.h` and `lte-rlc-header.cc`. A header is read back from
its bytes when its length indicators have at most 11 bits, there is one for each
extension bit that announces one, and its length fits the 16 bits it is kept in.
-/

namespace Ns3.Lte

open Ns3.Lib Parser

/-! ## Sequence numbers of 10 bits -/

structure SequenceNumber10 where
  value : BitVec 10
  modulusBase : BitVec 10
  deriving DecidableEq

namespace SequenceNumber10

/-- From a `uint16_t`. -/
def ofNat (value : ℕ) : SequenceNumber10 := ⟨BitVec.ofNat 10 value, 0⟩

def setModulusBase (a base : SequenceNumber10) : SequenceNumber10 :=
  { a with modulusBase := base.value }

def add (a : SequenceNumber10) (delta : ℕ) : SequenceNumber10 :=
  { a with value := a.value + BitVec.ofNat 10 delta }

def sub (a : SequenceNumber10) (delta : ℕ) : SequenceNumber10 :=
  { a with value := a.value - BitVec.ofNat 10 delta }

/-- What `operator >` compares: a remainder in C++, which may be negative, in 16 bits. -/
def rank (a : SequenceNumber10) : ℕ :=
  (((a.value.toNat : ℤ) - a.modulusBase.toNat).tmod 1024 % 2 ^ 16).toNat

def Gt (a b : SequenceNumber10) : Prop := b.rank < a.rank

def Le (a b : SequenceNumber10) : Prop := ¬ a.Gt b

/-- `operator <`, which compares the values themselves for equality. -/
def Lt (a b : SequenceNumber10) : Prop := ¬ a.Gt b ∧ a.value ≠ b.value

instance (a b : SequenceNumber10) : Decidable (a.Gt b) := inferInstanceAs (Decidable (_ < _))

instance (a b : SequenceNumber10) : Decidable (a.Le b) := inferInstanceAs (Decidable (¬ _))

instance (a b : SequenceNumber10) : Decidable (a.Lt b) := inferInstanceAs (Decidable (_ ∧ _))

variable {a b : SequenceNumber10}

/-- From the base upwards the ranks count from 0, and below it they are larger than all of those. -/
theorem rank_eq (a : SequenceNumber10) : a.rank =
    if a.modulusBase.toNat ≤ a.value.toNat then a.value.toNat - a.modulusBase.toNat
    else 2 ^ 16 - (a.modulusBase.toNat - a.value.toNat) := by
  have hvalue := a.value.isLt
  have hbase := a.modulusBase.isLt
  unfold rank
  split
  · rename_i hle
    have hdiff : (a.value.toNat : ℤ) - a.modulusBase.toNat =
        (a.value.toNat - a.modulusBase.toNat : ℕ) := by omega
    rw [hdiff, Int.tmod_eq_emod_of_nonneg (Int.natCast_nonneg _)]
    omega
  · rename_i hlt
    have hdiff : (a.value.toNat : ℤ) - a.modulusBase.toNat =
        -(a.modulusBase.toNat - a.value.toNat : ℕ) := by omega
    rw [hdiff, Int.neg_tmod, Int.tmod_eq_emod_of_nonneg (Int.natCast_nonneg _)]
    omega

/-- The order around the base. -/
theorem gt_iff (h : a.modulusBase = b.modulusBase) :
    a.Gt b ↔ (b.value - b.modulusBase).toNat < (a.value - a.modulusBase).toNat := by
  have ha := a.value.isLt
  have hb := b.value.isLt
  have hbase := b.modulusBase.isLt
  unfold Gt
  rw [rank_eq, rank_eq, BitVec.toNat_sub, BitVec.toNat_sub, h]
  split <;> split <;> omega

theorem lt_iff (h : a.modulusBase = b.modulusBase) :
    a.Lt b ↔ (a.value - a.modulusBase).toNat < (b.value - b.modulusBase).toNat := by
  have hne : a.value ≠ b.value ↔
      (a.value - a.modulusBase).toNat ≠ (b.value - b.modulusBase).toNat := by
    rw [h, not_iff_not, BitVec.toNat_inj, sub_left_inj]
  unfold Lt
  rw [gt_iff h, hne]
  omega

theorem le_iff (h : a.modulusBase = b.modulusBase) :
    a.Le b ↔ (a.value - a.modulusBase).toNat ≤ (b.value - b.modulusBase).toNat := by
  unfold Le
  rw [gt_iff h, Nat.not_lt]

end SequenceNumber10

/-! ## `LteRlcHeader` -/

structure LteRlcHeader where
  headerLength : UInt16
  framingInfo : UInt8
  sequenceNumber : SequenceNumber10
  extensionBits : List UInt8
  lengthIndicators : List UInt16
  deriving DecidableEq

/-- `DATA_FIELD_FOLLOWS`. -/
def dataFieldFollows : UInt8 := 0

/-- `E_LI_FIELDS_FOLLOWS`. -/
def eLiFieldsFollows : UInt8 := 1

namespace LteRlcHeader

def new : LteRlcHeader := ⟨0, 0xff, .ofNat 0xfffa, [], []⟩

def setFramingInfo (h : LteRlcHeader) (framingInfo : UInt8) : LteRlcHeader :=
  { h with framingInfo := framingInfo &&& 0x03 }

def setSequenceNumber (h : LteRlcHeader) (sequenceNumber : SequenceNumber10) : LteRlcHeader :=
  { h with sequenceNumber := sequenceNumber }

def pushExtensionBit (h : LteRlcHeader) (extensionBit : UInt8) : LteRlcHeader :=
  let extensionBits := h.extensionBits ++ [extensionBit]
  { h with
    extensionBits := extensionBits
    headerLength :=
      if extensionBits.length = 1 then 2
      else if extensionBits.length % 2 = 1 then h.headerLength + 1
      else h.headerLength + 2 }

def pushLengthIndicator (h : LteRlcHeader) (lengthIndicator : UInt16) : LteRlcHeader :=
  { h with lengthIndicators := h.lengthIndicators ++ [lengthIndicator] }

/-- An extension bit and the upper bits of a length indicator. -/
def oddByte (oddE : UInt8) (oddLi : UInt16) : UInt8 :=
  UInt8.ofNat (((oddE.toNat <<< 7) &&& 0x80) ||| ((oddLi.toNat >>> 4) &&& 0x7f))

/-- The byte that two length indicators share. -/
def sharedByte (oddLi : UInt16) (evenE : UInt8) (evenLi : UInt16) : UInt8 :=
  UInt8.ofNat (((oddLi.toNat <<< 4) &&& 0xf0) ||| ((evenE.toNat <<< 3) &&& 0x08) |||
    ((evenLi.toNat >>> 8) &&& 0x07))

/-- The loop of `Serialize`. -/
def serializeLis : List UInt8 → List UInt16 → List UInt8
  | oddE :: evenE :: bits, oddLi :: evenLi :: lis =>
    oddByte oddE oddLi :: sharedByte oddLi evenE evenLi :: UInt8.ofNat (evenLi.toNat &&& 0xff) ::
      serializeLis bits lis
  | oddE :: _, oddLi :: _ =>
    [oddByte oddE oddLi, UInt8.ofNat ((oddLi.toNat <<< 4) &&& 0xf0)]
  | _, _ => []

def serialize (h : LteRlcHeader) : List UInt8 :=
  UInt8.ofNat (((h.framingInfo.toNat <<< 3) &&& 0x18) |||
    (((h.extensionBits.headD 0).toNat <<< 2) &&& 0x04) |||
    ((h.sequenceNumber.value.toNat >>> 8) &&& 0x03)) ::
  UInt8.ofNat (h.sequenceNumber.value.toNat &&& 0xff) ::
  serializeLis h.extensionBits.tail h.lengthIndicators

/-- The loop of `Deserialize`, in at most `fuel` rounds. -/
def deserializeLis : ℕ → UInt16 → Parser (UInt16 × List UInt8 × List UInt16)
  | 0, _ => stop .unfinished
  | fuel + 1, headerLength => do
    let byte1 ← readU8
    let byte2 ← readU8
    let oddE := UInt8.ofNat ((byte1.toNat &&& 0x80) >>> 7)
    let oddLi := UInt16.ofNat (((byte1.toNat &&& 0x7f) <<< 4) ||| ((byte2.toNat &&& 0xf0) >>> 4))
    if oddE = eLiFieldsFollows then do
      let byte3 ← readU8
      let evenE := UInt8.ofNat ((byte2.toNat &&& 0x08) >>> 3)
      let evenLi := UInt16.ofNat (((byte2.toNat &&& 0x07) <<< 8) ||| (byte3.toNat &&& 0xff))
      if evenE = eLiFieldsFollows then do
        let (length, bits, lis) ← deserializeLis fuel (headerLength + 2 + 1)
        return (length, oddE :: evenE :: bits, oddLi :: evenLi :: lis)
      else return (headerLength + 2 + 1, [oddE, evenE], [oddLi, evenLi])
    else return (headerLength + 2, [oddE], [oddLi])

def deserialize : Parser LteRlcHeader := do
  let byte1 ← readU8
  let byte2 ← readU8
  let framingInfo := UInt8.ofNat ((byte1.toNat &&& 0x18) >>> 3)
  let sequenceNumber := SequenceNumber10.ofNat (((byte1.toNat &&& 0x03) <<< 8) ||| byte2.toNat)
  let extensionBit := UInt8.ofNat ((byte1.toNat &&& 0x04) >>> 2)
  if extensionBit = dataFieldFollows then
    return ⟨2, framingInfo, sequenceNumber, [extensionBit], []⟩
  else do
    let (length, bits, lis) ← withLength fun length => deserializeLis (length + 1) 2
    return ⟨length, framingInfo, sequenceNumber, extensionBit :: bits, lis⟩

/-! ## Reading back a header -/

/-- The bytes that so many length indicators take. -/
def lisLength : ℕ → ℕ
  | 0 => 0
  | 1 => 2
  | n + 2 => lisLength n + 3

/-- What the sender puts into a header. -/
structure Valid (h : LteRlcHeader) : Prop where
  framing : h.framingInfo.toNat < 4
  base : h.sequenceNumber.modulusBase = 0
  bits : h.extensionBits = List.replicate h.lengthIndicators.length 1 ++ [0]
  lis : ∀ li ∈ h.lengthIndicators, li.toNat < 2048
  length : h.headerLength = UInt16.ofNat (2 + lisLength h.lengthIndicators.length)

theorem le_lisLength : ∀ k, k ≤ lisLength k
  | 0 => Nat.le_refl 0
  | 1 => Nat.le_succ 1
  | k + 2 => Nat.succ_le_succ (Nat.succ_le_succ (Nat.le_succ_of_le (le_lisLength k)))

theorem firstByte_bits : ∀ fi < 4, ∀ e < 2, ∀ x < 4,
    ((fi <<< 3) &&& 0x18 ||| (e <<< 2) &&& 0x04 ||| x &&& 0x03) < 256 ∧
    (((fi <<< 3) &&& 0x18 ||| (e <<< 2) &&& 0x04 ||| x &&& 0x03) &&& 0x18) >>> 3 = fi ∧
    (((fi <<< 3) &&& 0x18 ||| (e <<< 2) &&& 0x04 ||| x &&& 0x03) &&& 0x04) >>> 2 = e ∧
    ((fi <<< 3) &&& 0x18 ||| (e <<< 2) &&& 0x04 ||| x &&& 0x03) &&& 0x03 = x := by
  decide

theorem oddByte_bits : ∀ e < 2, ∀ x < 128,
    ((e <<< 7) &&& 0x80 ||| x &&& 0x7f) < 256 ∧
    (((e <<< 7) &&& 0x80 ||| x &&& 0x7f) &&& 0x80) >>> 7 = e ∧
    ((e <<< 7) &&& 0x80 ||| x &&& 0x7f) &&& 0x7f = x := by
  decide

theorem sharedByte_bits : ∀ x < 16, ∀ e < 2, ∀ y < 8,
    (x <<< 4 ||| (e <<< 3) &&& 0x08 ||| y &&& 0x07) < 256 ∧
    ((x <<< 4 ||| (e <<< 3) &&& 0x08 ||| y &&& 0x07) &&& 0xf0) >>> 4 = x ∧
    ((x <<< 4 ||| (e <<< 3) &&& 0x08 ||| y &&& 0x07) &&& 0x08) >>> 3 = e ∧
    (x <<< 4 ||| (e <<< 3) &&& 0x08 ||| y &&& 0x07) &&& 0x07 = y := by
  decide

theorem shiftLeft_four_and (x : ℕ) : (x <<< 4) &&& 0xf0 = (x % 16) <<< 4 := by
  have h : (0xf0 : ℕ) = (2 ^ 4 - 1) <<< 4 := rfl
  rw [h, ← Nat.shiftLeft_and_distrib, Nat.and_two_pow_sub_one_eq_mod]

theorem shift_or_mod (x n : ℕ) : (x >>> n) <<< n ||| x % 2 ^ n = x := by
  rw [← Nat.shiftLeft_add_eq_or_of_lt (Nat.mod_lt x (Nat.two_pow_pos n)), Nat.shiftLeft_eq,
    Nat.shiftRight_eq_div_pow, Nat.div_add_mod']

section Bits

variable {e : UInt8} {li : UInt16}

theorem oddByte_spec (he : e.toNat < 2) (hli : li.toNat < 2048) :
    UInt8.ofNat (((oddByte e li).toNat &&& 0x80) >>> 7) = e ∧
      (oddByte e li).toNat &&& 0x7f = li.toNat >>> 4 := by
  have hupper : li.toNat >>> 4 < 128 := by
    rw [Nat.shiftRight_eq_div_pow]
    omega
  obtain ⟨hlt, hbit, hrest⟩ := oddByte_bits e.toNat he _ hupper
  unfold oddByte
  rw [UInt8.toNat_ofNat_of_lt' hlt, hbit, UInt8.ofNat_toNat]
  exact ⟨rfl, hrest⟩

theorem sharedByte_spec (li li' : UInt16) (he : e.toNat < 2) (hli' : li'.toNat < 2048) :
    ((sharedByte li e li').toNat &&& 0xf0) >>> 4 = li.toNat % 2 ^ 4 ∧
      UInt8.ofNat (((sharedByte li e li').toNat &&& 0x08) >>> 3) = e ∧
      (sharedByte li e li').toNat &&& 0x07 = li'.toNat >>> 8 := by
  have hupper : li'.toNat >>> 8 < 8 := by
    rw [Nat.shiftRight_eq_div_pow]
    omega
  obtain ⟨hlt, hhigh, hbit, hlow⟩ := sharedByte_bits (li.toNat % 16) (Nat.mod_lt _ (by decide))
    e.toNat he _ hupper
  unfold sharedByte
  rw [shiftLeft_four_and, UInt8.toNat_ofNat_of_lt' hlt, hhigh, hbit, UInt8.ofNat_toNat]
  exact ⟨rfl, rfl, hlow⟩

/-- The last byte of a length indicator that has none to share with. -/
theorem lastByte_eq (li : UInt16) :
    UInt8.ofNat ((li.toNat <<< 4) &&& 0xf0) = sharedByte li 0 0 := by
  unfold sharedByte
  simp

end Bits

theorem lowByte_eq (li : UInt16) : (UInt8.ofNat (li.toNat &&& 0xff)).toNat &&& 0xff =
    li.toNat % 2 ^ 8 := by
  have hand (x : ℕ) : x &&& 0xff = x % 2 ^ 8 := Nat.and_two_pow_sub_one_eq_mod x 8
  rw [hand, hand, UInt8.toNat_ofNat', Nat.mod_mod, Nat.mod_mod]

theorem length_step (length : UInt16) (k : ℕ) :
    length + 2 + 1 + UInt16.ofNat k = length + UInt16.ofNat (k + 3) := by
  rw [UInt16.ofNat_add, UInt16.add_assoc length, UInt16.add_assoc length,
    UInt16.add_comm _ (UInt16.ofNat 3)]
  rfl

/-- All length indicators but the last announce another one. -/
theorem decodes_deserializeLis : ∀ (li : UInt16) (lis : List UInt16) (fuel : ℕ) (length : UInt16),
    (∀ x ∈ li :: lis, x.toNat < 2048) → lis.length < fuel →
    Decodes (deserializeLis fuel length)
      (serializeLis (List.replicate lis.length 1 ++ [0]) (li :: lis))
      (length + UInt16.ofNat (lisLength (lis.length + 1)), List.replicate lis.length 1 ++ [0],
        li :: lis)
  | _, _, 0, _, _, h => absurd h (Nat.not_lt_zero _)
  | li, [], fuel + 1, length, hli, _ => by
    obtain ⟨hbit, hupper⟩ := oddByte_spec (e := 0) (by decide) (hli li List.mem_cons_self)
    obtain ⟨hlower, -, -⟩ := sharedByte_spec li 0 (e := 0) (by decide) (by decide)
    show Decodes _ [oddByte 0 li, UInt8.ofNat ((li.toNat <<< 4) &&& 0xf0)] (length + 2, [0], [li])
    rw [lastByte_eq]
    unfold deserializeLis
    apply Decodes.readU8
    apply Decodes.readU8
    simp only [hbit, hupper, hlower, shift_or_mod, UInt16.ofNat_toNat]
    rw [if_neg (by decide)]
    exact decodes_pure _
  | li, [li'], fuel + 1, length, hli, _ => by
    have hli' := hli li' (List.mem_cons_of_mem _ List.mem_cons_self)
    obtain ⟨hodd, hupper⟩ := oddByte_spec (e := 1) (by decide) (hli li List.mem_cons_self)
    obtain ⟨hlower, heven, hupper'⟩ := sharedByte_spec li li' (e := 0) (by decide) hli'
    show Decodes _ [oddByte 1 li, sharedByte li 0 li', UInt8.ofNat (li'.toNat &&& 0xff)]
      (length + 3, [1, 0], [li, li'])
    unfold deserializeLis
    apply Decodes.readU8
    apply Decodes.readU8
    simp only [hodd, hupper, hlower, shift_or_mod, UInt16.ofNat_toNat]
    rw [if_pos (by decide)]
    apply Decodes.readU8
    simp only [heven, hupper', lowByte_eq, shift_or_mod, UInt16.ofNat_toNat]
    rw [if_neg (by decide), UInt16.add_assoc length]
    exact decodes_pure _
  | li, li' :: li'' :: lis, fuel + 1, length, hli, hfuel => by
    have hli' := hli li' (List.mem_cons_of_mem _ List.mem_cons_self)
    have hrest : ∀ x ∈ li'' :: lis, x.toNat < 2048 := fun x hx =>
      hli x (List.mem_cons_of_mem _ (List.mem_cons_of_mem _ hx))
    obtain ⟨hodd, hupper⟩ := oddByte_spec (e := 1) (by decide) (hli li List.mem_cons_self)
    obtain ⟨hlower, heven, hupper'⟩ := sharedByte_spec li li' (e := 1) (by decide) hli'
    have ih := decodes_deserializeLis li'' lis fuel (length + 2 + 1) hrest
      (by simp only [List.length_cons] at hfuel; omega)
    have hsum : length + UInt16.ofNat (lisLength ((li' :: li'' :: lis).length + 1)) =
        length + 2 + 1 + UInt16.ofNat (lisLength (lis.length + 1)) :=
      (length_step length _).symm
    have hbits : List.replicate (li' :: li'' :: lis).length (1 : UInt8) ++ [0] =
        1 :: 1 :: (List.replicate lis.length 1 ++ [0]) := by
      simp only [List.length_cons, List.replicate_succ, List.cons_append]
    rw [hsum, hbits]
    show Decodes _ (oddByte 1 li :: sharedByte li 1 li' :: UInt8.ofNat (li'.toNat &&& 0xff) ::
      serializeLis (List.replicate lis.length 1 ++ [0]) (li'' :: lis)) _
    unfold deserializeLis
    apply Decodes.readU8
    apply Decodes.readU8
    simp only [hodd, hupper, hlower, shift_or_mod, UInt16.ofNat_toNat]
    rw [if_pos (by decide)]
    apply Decodes.readU8
    simp only [heven, hupper', lowByte_eq, shift_or_mod, UInt16.ofNat_toNat]
    rw [if_pos (by decide)]
    exact ih.last (decodes_pure _)

theorem length_serializeLis : ∀ (li : UInt16) (lis : List UInt16),
    (serializeLis (List.replicate lis.length 1 ++ [0]) (li :: lis)).length =
      lisLength (lis.length + 1)
  | _, [] => rfl
  | _, [_] => rfl
  | _, _ :: li'' :: lis => congrArg (· + 3) (length_serializeLis li'' lis)

variable {h : LteRlcHeader}

/-- A header of valid fields has the length that it says, and is read back from its bytes. -/
theorem Valid.length_serialize (hv : h.Valid) :
    h.serialize.length = 2 + lisLength h.lengthIndicators.length := by
  unfold serialize
  rw [List.length_cons, List.length_cons, hv.bits]
  cases h.lengthIndicators with
  | nil => rfl
  | cons li lis =>
    show (serializeLis (List.replicate lis.length 1 ++ [0]) (li :: lis)).length + 1 + 1 = _
    rw [length_serializeLis, Nat.add_assoc, Nat.add_comm]
    rfl

theorem Valid.decodes (hv : h.Valid) : Decodes deserialize h.serialize h := by
  obtain ⟨hframing, hbase, hbits, hlis, hlength⟩ := hv
  obtain ⟨headerLength, framingInfo, ⟨value, modulusBase⟩, extensionBits, lengthIndicators⟩ := h
  dsimp only at hframing hbase hbits hlis hlength
  subst hbase hbits hlength
  have hvalue := value.isLt
  have hupper : value.toNat >>> 8 < 4 := by
    rw [Nat.shiftRight_eq_div_pow]
    omega
  have hlow : (UInt8.ofNat (value.toNat &&& 0xff)).toNat = value.toNat % 2 ^ 8 := by
    rw [Nat.and_two_pow_sub_one_eq_mod value.toNat 8, UInt8.toNat_ofNat', Nat.mod_mod]
  have hsn : SequenceNumber10.ofNat value.toNat = ⟨value, 0⟩ := by
    rw [SequenceNumber10.ofNat, BitVec.ofNat_toNat, BitVec.setWidth_eq]
  unfold deserialize serialize
  cases lengthIndicators with
  | nil =>
    obtain ⟨hlt, hfi, hbit, hrest⟩ :=
      firstByte_bits framingInfo.toNat hframing 0 (by decide) _ hupper
    apply Decodes.readU8
    apply Decodes.readU8
    simp only [List.length_nil, List.replicate_zero, List.nil_append, List.headD_cons,
      UInt8.toNat_zero, UInt8.toNat_ofNat_of_lt' hlt, hfi, hbit, hrest, hlow, shift_or_mod, hsn]
    rw [if_pos (by decide), UInt8.ofNat_toNat]
    exact decodes_pure _
  | cons li lis =>
    obtain ⟨hlt, hfi, hbit, hrest⟩ :=
      firstByte_bits framingInfo.toNat hframing 1 (by decide) _ hupper
    apply Decodes.readU8
    apply Decodes.readU8
    simp only [List.length_cons, List.replicate_succ, List.cons_append, List.headD_cons,
      UInt8.toNat_one, UInt8.toNat_ofNat_of_lt' hlt, hfi, hbit, hrest, hlow, shift_or_mod, hsn]
    rw [if_neg (by decide), UInt8.ofNat_toNat, UInt16.ofNat_add]
    have htail := decodes_withLength (f := fun length => deserializeLis (length + 1) 2) fun n hn =>
      decodes_deserializeLis li lis (n + 1) 2 hlis (by
        have hlength := length_serializeLis li lis
        have hle := le_lisLength (lis.length + 1)
        omega)
    exact htail.last (decodes_pure _)

end LteRlcHeader

end Ns3.Lte
