import Mathlib.Data.BitVec

/-!
# Sequence numbers

`sequence-number.h`: numbers of `w` bits that wrap around. One is greater than
another when it is ahead by less than half of all numbers. Between numbers that
lie within half of all numbers from a base, this is the order of their offsets
from the base (`gt_seqAt`).
-/

namespace Ns3.Network

/-- `m_value`. -/
abbrev SequenceNumber (w : ℕ) := BitVec w

abbrev SequenceNumber32 := SequenceNumber 32

namespace SequenceNumber

variable {w : ℕ}

/-- Half of the greatest value of the type. -/
def halfMaxValue (w : ℕ) : ℕ := (2 ^ w - 1) / 2

/-- `operator >`. -/
def Gt (a b : SequenceNumber w) : Prop :=
  (b.toNat < a.toNat ∧ (a - b).toNat ≤ halfMaxValue w) ∨
    (a.toNat < b.toNat ∧ halfMaxValue w < (b - a).toNat)

/-- `operator <=`. -/
def Le (a b : SequenceNumber w) : Prop := ¬ Gt a b

/-- `operator >=`. -/
def Ge (a b : SequenceNumber w) : Prop := Gt a b ∨ a = b

/-- `operator <`. -/
def Lt (a b : SequenceNumber w) : Prop := ¬ Gt a b ∧ a ≠ b

instance (a b : SequenceNumber w) : Decidable (Gt a b) := inferInstanceAs (Decidable (_ ∨ _))

instance (a b : SequenceNumber w) : Decidable (Le a b) := inferInstanceAs (Decidable (¬ _))

instance (a b : SequenceNumber w) : Decidable (Ge a b) := inferInstanceAs (Decidable (_ ∨ _))

instance (a b : SequenceNumber w) : Decidable (Lt a b) := inferInstanceAs (Decidable (_ ∧ _))

/-- `operator -` of two numbers: a number of the signed type, read by `toInt`. -/
def sub (a b : SequenceNumber w) : BitVec w :=
  if b.toNat < a.toNat then
    let diff := a - b
    if diff.toNat < halfMaxValue w then diff else -(BitVec.allOnes w - a + 1 + b)
  else
    let diff := b - a
    if diff.toNat < halfMaxValue w then -diff else BitVec.allOnes w - b + 1 + a

/-- `operator >` by the raw values. -/
theorem gt_iff_raw (a b : SequenceNumber w) :
    Gt a b ↔ (b.toNat < a.toNat ∧ 2 * (a.toNat - b.toNat) < 2 ^ w) ∨
      (a.toNat < b.toNat ∧ 2 ^ w ≤ 2 * (b.toNat - a.toNat)) := by
  have ha := a.isLt
  have hb := b.isLt
  unfold Gt halfMaxValue
  refine or_congr (and_congr_right fun hlt => ?_) (and_congr_right fun hlt => ?_)
  · rw [BitVec.toNat_sub_of_le (BitVec.le_def.mpr hlt.le)]
    omega
  · rw [BitVec.toNat_sub_of_le (BitVec.le_def.mpr hlt.le)]
    omega

/-! ## Offsets -/

/-- The number `o` places after the base. -/
def seqAt (base : SequenceNumber w) (o : ℕ) : SequenceNumber w := base + BitVec.ofNat w o

variable {base m : SequenceNumber32} {o o' : ℕ}

theorem seqAt_add (base : SequenceNumber w) (o l : ℕ) :
    seqAt base o + BitVec.ofNat w l = seqAt base (o + l) := by
  unfold seqAt
  rw [BitVec.add_assoc, BitVec.ofNat_add]

@[simp] theorem seqAt_zero (base : SequenceNumber w) : seqAt base 0 = base := by
  simp [seqAt]

theorem toNat_seqAt : (seqAt base o).toNat = (base.toNat + o) % 2 ^ 32 := by
  simp [seqAt, BitVec.toNat_add, BitVec.toNat_ofNat]

/-- The number of an offset has wrapped around once, or not at all. -/
theorem toNat_seqAt_cases (base : SequenceNumber32) (ho : o < 2 ^ 32) :
    (seqAt base o).toNat = base.toNat + o ∨
      (seqAt base o).toNat + 2 ^ 32 = base.toNat + o := by
  have hlt := base.isLt
  rw [toNat_seqAt]
  rcases Nat.lt_or_ge (base.toNat + o) (2 ^ 32) with h | h
  · exact .inl (Nat.mod_eq_of_lt h)
  · refine .inr ?_
    rw [Nat.mod_eq_sub_mod h, Nat.mod_eq_of_lt (by omega), Nat.sub_add_cancel h]

theorem seqAt_inj (ho : o < 2 ^ 32) (ho' : o' < 2 ^ 32) :
    seqAt base o = seqAt base o' ↔ o = o' := by
  refine ⟨fun h => ?_, fun h => by rw [h]⟩
  have h := congrArg BitVec.toNat (add_left_cancel (a := base) h)
  rwa [BitVec.toNat_ofNat, BitVec.toNat_ofNat, Nat.mod_eq_of_lt ho, Nat.mod_eq_of_lt ho'] at h

theorem sub_seqAt (h : o' ≤ o) : seqAt base o - seqAt base o' = BitVec.ofNat 32 (o - o') := by
  obtain ⟨l, rfl⟩ := Nat.exists_eq_add_of_le h
  rw [← seqAt_add, BitVec.add_comm, BitVec.add_sub_cancel, Nat.add_sub_cancel_left]

theorem gt_seqAt (ho : o < 2 ^ 31) (ho' : o' < 2 ^ 31) :
    Gt (seqAt base o) (seqAt base o') ↔ o' < o := by
  rw [gt_iff_raw]
  rcases toNat_seqAt_cases base (ho.trans (by decide)) with h | h <;>
    rcases toNat_seqAt_cases base (ho'.trans (by decide)) with h' | h' <;> omega

theorem le_seqAt (ho : o < 2 ^ 31) (ho' : o' < 2 ^ 31) :
    Le (seqAt base o) (seqAt base o') ↔ o ≤ o' := by
  unfold Le
  rw [gt_seqAt ho ho']
  omega

theorem lt_seqAt (ho : o < 2 ^ 31) (ho' : o' < 2 ^ 31) :
    Lt (seqAt base o) (seqAt base o') ↔ o < o' := by
  unfold Lt
  rw [gt_seqAt ho ho', Ne, seqAt_inj (by omega) (by omega)]
  omega

theorem ge_seqAt (ho : o < 2 ^ 31) (ho' : o' < 2 ^ 31) :
    Ge (seqAt base o) (seqAt base o') ↔ o' ≤ o := by
  unfold Ge
  rw [gt_seqAt ho ho', seqAt_inj (by omega) (by omega)]
  omega

/-- A number that is not before one offset, and before a greater one, has an offset between. -/
theorem exists_between (hlt : o < o') (ho' : o' < 2 ^ 31) (hlow : ¬ Lt m (seqAt base o))
    (hhigh : Lt m (seqAt base o')) : ∃ k, o ≤ k ∧ k < o' ∧ m = seqAt base k := by
  obtain ⟨l, rfl⟩ := Nat.exists_eq_add_of_le hlt.le
  have hm : m = seqAt base (o + (m - seqAt base o).toNat) := by
    rw [← seqAt_add, BitVec.ofNat_toNat, BitVec.setWidth_eq, BitVec.add_comm, BitVec.sub_add_cancel]
  refine ⟨o + (m - seqAt base o).toNat, Nat.le_add_right _ _, Nat.add_lt_add_left ?_ _, hm⟩
  -- the offsets from the lower number
  have hend := toNat_seqAt_cases (seqAt base o) (o := l) (by omega)
  rw [seqAt, seqAt_add] at hend
  generalize seqAt base (o + l) = e at *
  generalize seqAt base o = b at *
  clear hm
  unfold Lt at hlow hhigh
  rw [gt_iff_raw, Ne, ← BitVec.toNat_inj] at hlow hhigh
  have hblt := b.isLt
  rcases Nat.lt_or_ge m.toNat b.toNat with hmb | hmb
  · rw [BitVec.toNat_sub_of_lt (BitVec.lt_def.mpr hmb)]
    omega
  · rw [BitVec.toNat_sub_of_le (BitVec.le_def.mpr hmb)]
    omega

end SequenceNumber

end Ns3.Network
