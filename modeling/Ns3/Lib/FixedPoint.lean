import Mathlib.Algebra.Order.Group.Nat
import Mathlib.Tactic.Ring
import Mathlib.Tactic.Linarith

/-!
# Multiplying and dividing to a number of binary places

`DividedTo a b d q f`: the quotient of `a` and `b` to `d` places, and what is
left. It starts with the plain division, and the division of what is left gives
the next places. `mul_halves_div` is the middle of a product of halves, and
`mul_div_of_inverse` says when a product with a rounded inverse divides exactly.
-/

namespace Ns3.Lib

variable {a b d q f : ℕ}

/-- `q` is `a / b` with `d` binary places, and `f` is left. -/
structure DividedTo (a b d q f : ℕ) : Prop where
  value : a * 2 ^ d = q * b + f
  lt : f < b

namespace DividedTo

theorem start (hb : 0 < b) : DividedTo a b 0 (a / b) (a % b) where
  value := by rw [pow_zero, mul_one, mul_comm, Nat.div_add_mod]
  lt := Nat.mod_lt a hb

/-- What is left, divided further, gives the next places. -/
theorem next (h : DividedTo a b d q f) {k p g : ℕ} (hf : f * 2 ^ k = p * b + g) (hg : g < b) :
    DividedTo a b (d + k) (q * 2 ^ k + p) g where
  value := by
    calc a * 2 ^ (d + k) = (q * b + f) * 2 ^ k := by rw [pow_add, ← mul_assoc, h.value]
      _ = q * 2 ^ k * b + f * 2 ^ k := by ring
      _ = (q * 2 ^ k + p) * b + g := by rw [hf]; ring
  lt := hg

/-- Where nothing is left, the next places are zeros. -/
theorem pad (h : DividedTo a b d q 0) (k : ℕ) : DividedTo a b (d + k) (q * 2 ^ k) 0 :=
  h.next (p := 0) (by simp) h.lt

theorem eq_div (h : DividedTo a b d q f) : q = a * 2 ^ d / b := by
  rw [h.value, mul_comm q b, Nat.mul_add_div (by have := h.lt; omega), Nat.div_eq_of_lt h.lt,
    add_zero]

end DividedTo

/-- The product of two numbers in halves, without the lowest half of its digits. -/
theorem mul_halves_div {r : ℕ} (hr : 0 < r) (aH aL bH bL : ℕ) :
    (aH * r + aL) * (bH * r + bL) / r = aL * bL / r + (aL * bH + aH * bL) + aH * bH * r := by
  have hprod : (aH * r + aL) * (bH * r + bL) =
      r * (aL * bH + aH * bL + aH * bH * r) + aL * bL := by ring
  rw [hprod, Nat.mul_add_div hr]
  ring

/-- A product with an inverse rounded up by less than `v` divides exactly. -/
theorem mul_div_of_inverse {n b v x : ℕ} (hlow : n ≤ b * v) (hhigh : b * v < n + v)
    (hx : x * v ≤ n) : x * b / n = x / v := by
  have hv : 0 < v := by omega
  rcases Nat.eq_zero_or_pos x with rfl | hpos
  · simp
  have hq : x / v * v ≤ x := Nat.div_mul_le_self x v
  have hr : x + 1 ≤ (x / v + 1) * v := Nat.lt_mul_of_div_lt (Nat.lt_succ_self _) hv
  refine Nat.div_eq_of_lt_le ?_ ?_
  · calc x / v * n ≤ x / v * (b * v) := Nat.mul_le_mul_left _ hlow
      _ = x / v * v * b := by ring
      _ ≤ x * b := Nat.mul_le_mul_right _ hq
  · -- the error of the inverse, `x` times less than `v`, is less than `n`
    have herr : x * (b * v) < (x + 1) * n := by
      calc x * (b * v) < x * (n + v) := Nat.mul_lt_mul_of_pos_left hhigh hpos
        _ = x * n + x * v := Nat.mul_add _ _ _
        _ ≤ (x + 1) * n := by rw [Nat.succ_mul]; omega
    have hscaled : x * b * v < (x / v + 1) * n * v := by
      calc x * b * v = x * (b * v) := Nat.mul_assoc _ _ _
        _ < (x + 1) * n := herr
        _ ≤ (x / v + 1) * v * n := Nat.mul_le_mul_right _ hr
        _ = (x / v + 1) * n * v := by ring
    exact Nat.lt_of_mul_lt_mul_right hscaled

end Ns3.Lib
