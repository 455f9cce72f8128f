import Mathlib.Tactic.Ring
import Ns3.Network.SequenceNumber

/-!
# Laws of sequence numbers

Subtraction is exact (`sub_eq`), and a number is greater than another when their
difference is positive, or is half of all numbers and the raw value is the smaller
one (`gt_iff`). Numbers of a window of at most half of all numbers are ordered as
their offsets are (`gt_iff_offset`).
-/

namespace Ns3.Network.SequenceNumber

variable {w : ℕ}

/-- All branches of `operator -` are the difference, wrapped. -/
theorem sub_eq (a b : SequenceNumber w) : sub a b = a - b := by
  have hmax : BitVec.allOnes w = -1 := BitVec.neg_one_eq_allOnes.symm
  unfold sub
  rw [hmax]
  simp only
  split_ifs
  all_goals ring

theorem add_sub (a b : SequenceNumber w) : b + sub a b = a := by
  rw [sub_eq]
  ring

/-! ## The order of two numbers -/

/-- A signed number is positive when its raw value is in the lower half. -/
theorem toInt_pos_iff (d : BitVec w) : 0 < d.toInt ↔ 0 < d.toNat ∧ 2 * d.toNat < 2 ^ w := by
  have hd := d.isLt
  rw [BitVec.toInt_eq_toNat_cond]
  split_ifs with hhalf
  · omega
  · have hwrap : (d.toNat : ℤ) < ((2 ^ w : ℕ) : ℤ) := by exact_mod_cast hd
    omega

theorem eq_intMin_iff (hw : 0 < w) (d : BitVec w) : d = BitVec.intMin w ↔ 2 * d.toNat = 2 ^ w := by
  obtain ⟨k, rfl⟩ : ∃ k, w = k + 1 := ⟨w - 1, by omega⟩
  rw [← BitVec.toNat_inj, BitVec.toNat_intMin_of_pos hw, Nat.add_sub_cancel, pow_succ]
  omega

/-- A number is greater when the difference is positive; where the difference is half of all
numbers, and so negative, the one with the smaller raw value is the greater. -/
theorem gt_iff (a b : SequenceNumber w) : Gt a b ↔
    0 < (sub a b).toInt ∨ (sub a b = BitVec.intMin w ∧ a.toNat < b.toNat) := by
  have ha := a.isLt
  have hb := b.isLt
  rw [gt_iff_raw, sub_eq, toInt_pos_iff]
  rcases Nat.lt_or_ge a.toNat b.toNat with hlt | hge
  · have hw : 0 < w := by
      by_contra hzero
      obtain rfl : w = 0 := by omega
      omega
    rw [eq_intMin_iff hw, BitVec.toNat_sub_of_lt (BitVec.lt_def.mpr hlt)]
    omega
  · rw [BitVec.toNat_sub_of_le (BitVec.le_def.mpr hge)]
    omega

/-- Exactly one of two numbers is greater, or they are equal. -/
theorem trichotomy (a b : SequenceNumber w) :
    (Gt a b ∧ a ≠ b ∧ ¬ Gt b a) ∨ (¬ Gt a b ∧ a = b ∧ ¬ Gt b a) ∨
      (¬ Gt a b ∧ a ≠ b ∧ Gt b a) := by
  rw [gt_iff_raw, gt_iff_raw, Ne, ← BitVec.toNat_inj]
  omega

/-- Going on by a signed number, other than the least, gives a greater one when it is positive. -/
theorem gt_add_iff (a : SequenceNumber w) {d : BitVec w} (hd : d ≠ BitVec.intMin w) :
    Gt (a + d) a ↔ 0 < d.toInt := by
  have hsub : sub (a + d) a = d := by
    rw [sub_eq]
    ring
  rw [gt_iff, hsub]
  exact or_iff_left fun h => hd h.1

/-! ## Windows -/

/-- The number lies less than `n` places after the base. -/
def InWindow (base : SequenceNumber w) (n : ℕ) (a : SequenceNumber w) : Prop :=
  (a - base).toNat < n

section Window

variable {base a b c : SequenceNumber w} {n : ℕ}

/-- In a window of at most half of all numbers, the signed difference is that of the offsets. -/
theorem toInt_sub_of_inWindow (hn : 2 * n ≤ 2 ^ w) (ha : InWindow base n a)
    (hb : InWindow base n b) :
    (sub a b).toInt = ((a - base).toNat : ℤ) - (b - base).toNat := by
  unfold InWindow at ha hb
  have hsplit : sub a b = (a - base) - (b - base) := by
    rw [sub_eq]
    ring
  rw [hsplit, BitVec.toInt_sub, BitVec.toInt_eq_toNat_of_lt (by omega),
    BitVec.toInt_eq_toNat_of_lt (by omega), Int.bmod_eq_of_le_mul_two]
  all_goals push_cast
  all_goals have : ((2 * n : ℕ) : ℤ) ≤ ((2 ^ w : ℕ) : ℤ) := by exact_mod_cast hn
  all_goals push_cast at this
  all_goals omega

/-- Numbers of the window do not lie half of all numbers apart. -/
theorem sub_ne_intMin (hn : 2 * n ≤ 2 ^ w) (ha : InWindow base n a) (hb : InWindow base n b) :
    sub a b ≠ BitVec.intMin w := by
  intro hmin
  have hdiff := toInt_sub_of_inWindow hn ha hb
  unfold InWindow at ha hb
  have hw : 0 < w := by
    by_contra hzero
    obtain rfl : w = 0 := by omega
    omega
  have hhalf := (eq_intMin_iff hw _).mp hmin
  rw [BitVec.toInt_eq_toNat_cond, if_neg (by omega), ← hhalf] at hdiff
  push_cast at hdiff
  omega

theorem gt_iff_offset (hn : 2 * n ≤ 2 ^ w) (ha : InWindow base n a) (hb : InWindow base n b) :
    Gt a b ↔ (b - base).toNat < (a - base).toNat := by
  rw [gt_iff, or_iff_left fun h => sub_ne_intMin hn ha hb h.1, toInt_sub_of_inWindow hn ha hb]
  omega

theorem eq_iff_offset (base : SequenceNumber w) : a = b ↔ (a - base).toNat = (b - base).toNat := by
  rw [BitVec.toNat_inj, sub_left_inj]

/-- Adding one number to both keeps their order. -/
theorem gt_add_right_iff (hn : 2 * n ≤ 2 ^ w) (ha : InWindow base n a) (hb : InWindow base n b)
    (d : BitVec w) : Gt (a + d) (b + d) ↔ Gt a b := by
  have hsub : sub (a + d) (b + d) = sub a b := by
    rw [sub_eq, sub_eq]
    ring
  have hne := sub_ne_intMin hn ha hb
  rw [gt_iff, gt_iff, hsub, or_iff_left fun h => hne h.1, or_iff_left fun h => hne h.1]

end Window

/-! ## The laws -/

/-- The laws of the numbers of `w` bits. -/
structure SequenceLaws (w : ℕ) : Prop where
  add_sub : ∀ a b : SequenceNumber w, b + sub a b = a
  gt_iff : ∀ a b : SequenceNumber w, Gt a b ↔
    0 < (sub a b).toInt ∨ (sub a b = BitVec.intMin w ∧ a.toNat < b.toNat)
  trichotomy : ∀ a b : SequenceNumber w, (Gt a b ∧ a ≠ b ∧ ¬ Gt b a) ∨
    (¬ Gt a b ∧ a = b ∧ ¬ Gt b a) ∨ (¬ Gt a b ∧ a ≠ b ∧ Gt b a)
  gt_add_iff : ∀ (a : SequenceNumber w) (d : BitVec w), d ≠ BitVec.intMin w →
    (Gt (a + d) a ↔ 0 < d.toInt)
  /-- On a window of at most half of all numbers `>` is a strict total order. -/
  irrefl : ∀ (base : SequenceNumber w) (n : ℕ), 2 * n ≤ 2 ^ w →
    ∀ a, InWindow base n a → ¬ Gt a a
  trans : ∀ (base : SequenceNumber w) (n : ℕ), 2 * n ≤ 2 ^ w → ∀ a b c, InWindow base n a →
    InWindow base n b → InWindow base n c → Gt a b → Gt b c → Gt a c
  total : ∀ (base : SequenceNumber w) (n : ℕ), 2 * n ≤ 2 ^ w → ∀ a b, InWindow base n a →
    InWindow base n b → a = b ∨ Gt a b ∨ Gt b a
  gt_add_right_iff : ∀ (base : SequenceNumber w) (n : ℕ), 2 * n ≤ 2 ^ w → ∀ a b,
    InWindow base n a → InWindow base n b → ∀ d : BitVec w, Gt (a + d) (b + d) ↔ Gt a b

theorem sequenceLaws (w : ℕ) : SequenceLaws w where
  add_sub := add_sub
  gt_iff := gt_iff
  trichotomy := trichotomy
  gt_add_iff a _ hd := gt_add_iff a hd
  irrefl _ _ hn _ ha := by
    rw [gt_iff_offset hn ha ha]
    exact lt_irrefl _
  trans _ _ hn _ _ _ ha hb hc := by
    rw [gt_iff_offset hn ha hb, gt_iff_offset hn hb hc, gt_iff_offset hn ha hc]
    exact fun hab hbc => hbc.trans hab
  total base _ hn _ _ ha hb := by
    rw [gt_iff_offset hn ha hb, gt_iff_offset hn hb ha, eq_iff_offset base]
    omega
  gt_add_right_iff _ _ hn _ _ ha hb d := gt_add_right_iff hn ha hb d

/-- Half of all numbers apart, the smaller raw value is greater by a negative difference. -/
theorem gt_of_half_range :
    ¬ (Gt (0 : SequenceNumber32) 0x80000000 ↔ 0 < (sub (0 : SequenceNumber32) 0x80000000).toInt) := by
  decide

end Ns3.Network.SequenceNumber
