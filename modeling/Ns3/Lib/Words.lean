import Mathlib.Data.BitVec
import Mathlib.Algebra.Group.Nat.Defs

/-!
# Bits of a list of words

The words hold a bit string, the first word the lowest bits. `bitAt_append` and
`bitAt_of_getElem?` give a bit by the word that it is in, `sub_mod_of_le` a
difference of unsigned words.
-/

namespace Ns3.Lib

variable {w : ℕ}

/-- Past the last word the bits are 0. -/
def bitAt : List (BitVec w) → ℕ → Bool
  | [], _ => false
  | x :: xs, i => if i < w then x.getLsbD i else bitAt xs (i - w)

@[simp] theorem bitAt_nil (i : ℕ) : bitAt ([] : List (BitVec w)) i = false := rfl

@[simp] theorem bitAt_cons (x : BitVec w) (xs : List (BitVec w)) (i : ℕ) :
    bitAt (x :: xs) i = if i < w then x.getLsbD i else bitAt xs (i - w) := rfl

theorem bitAt_append (xs ys : List (BitVec w)) (i : ℕ) :
    bitAt (xs ++ ys) i =
      if i < w * xs.length then bitAt xs i else bitAt ys (i - w * xs.length) := by
  induction xs generalizing i with
  | nil => simp
  | cons x xs ih =>
    simp only [List.cons_append, bitAt_cons, List.length_cons, Nat.mul_succ]
    by_cases hi : i < w
    · rw [if_pos hi, if_pos hi, if_pos (by omega)]
    · rw [if_neg hi, if_neg hi, ih]
      by_cases hin : i - w < w * xs.length
      · rw [if_pos hin, if_pos (by omega)]
      · rw [if_neg hin, if_neg (by omega)]
        congr 1
        omega

theorem bitAt_singleton (x : BitVec w) (i : ℕ) : bitAt [x] i = x.getLsbD i := by
  rw [bitAt_cons, bitAt_nil]
  by_cases hi : i < w
  · rw [if_pos hi]
  · rw [if_neg hi, BitVec.getLsbD_of_ge x i (by omega)]

/-- A bit is that of its word. -/
theorem bitAt_of_getElem? {xs : List (BitVec w)} {k j : ℕ} {x : BitVec w} (hx : xs[k]? = some x)
    (hj : j < w) : bitAt xs (w * k + j) = x.getLsbD j := by
  induction xs generalizing k with
  | nil => cases hx
  | cons y ys ih =>
    cases k with
    | zero =>
      cases hx
      rw [bitAt_cons, Nat.mul_zero, Nat.zero_add, if_pos hj]
    | succ k =>
      rw [bitAt_cons, Nat.mul_succ, if_neg (by omega), Nat.add_right_comm, Nat.add_sub_cancel]
      exact ih hx

/-- An unsigned difference that does not wrap. -/
theorem sub_mod_of_le {a b m : ℕ} (hle : b ≤ a) (ha : a < m) : (a + m - b) % m = a - b := by
  rw [Nat.sub_add_comm hle, Nat.add_mod_right,
    Nat.mod_eq_of_lt (Nat.lt_of_le_of_lt (Nat.sub_le a b) ha)]

end Ns3.Lib
