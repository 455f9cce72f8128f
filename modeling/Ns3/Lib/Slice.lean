import Mathlib.Data.List.Basic
import Mathlib.Tactic.Common

/-!
# Blocks of memory and lists with a gap

`slice m o n` is `n` entries of `m` from `o` on, and `overwrite m o l` is `m`
with `l` in place of its entries from `o` on. `spread k n a l` is `l` with `n`
times `a` after its first `k` entries: what is represented where a run of equal
entries is not stored. The rules say what both are at the two ends.
-/

namespace Ns3.Lib

variable {α : Type} {m l l' : List α} {o o' n n' k : ℕ} {a : α}

def slice (m : List α) (o n : ℕ) : List α := (m.drop o).take n

def overwrite (m : List α) (o : ℕ) (l : List α) : List α := m.take o ++ l ++ m.drop (o + l.length)

/-- Reading and writing where the memory may end before; no bytes are read and written anywhere. -/
def peek (m : List α) (o n : ℕ) : Option (List α) :=
  if n = 0 ∨ o + n ≤ m.length then some (slice m o n) else none

def poke (m : List α) (o : ℕ) (l : List α) : Option (List α) :=
  if l.length = 0 ∨ o + l.length ≤ m.length then some (overwrite m o l) else none

theorem peek_eq (h : o + n ≤ m.length) : peek m o n = some (slice m o n) := if_pos (.inr h)

theorem poke_eq (h : o + l.length ≤ m.length) : poke m o l = some (overwrite m o l) :=
  if_pos (.inr h)

@[simp] theorem slice_zero : slice m o 0 = [] := by
  rw [slice, List.take_zero]

theorem length_slice (h : o + n ≤ m.length) : (slice m o n).length = n := by
  rw [slice, List.length_take, List.length_drop]
  omega

theorem slice_append (m : List α) (o n n' : ℕ) :
    slice m o (n + n') = slice m o n ++ slice m (o + n) n' := by
  rw [slice, slice, slice, List.take_add, List.drop_drop]

theorem slice_slice (h : o' + n' ≤ n) : slice (slice m o n) o' n' = slice m (o + o') n' := by
  rw [slice, slice, slice, List.drop_take, List.take_take, List.drop_drop]
  congr 1
  omega

theorem drop_slice (m : List α) (o n k : ℕ) : (slice m o n).drop k = slice m (o + k) (n - k) := by
  rw [slice, slice, List.drop_take, List.drop_drop]

theorem take_slice (h : k ≤ n) : (slice m o n).take k = slice m o k := by
  rw [slice, slice, List.take_take, Nat.min_eq_left h]

theorem length_overwrite (h : o + l.length ≤ m.length) : (overwrite m o l).length = m.length := by
  rw [overwrite, List.length_append, List.length_append, List.length_take, List.length_drop]
  omega

theorem overwrite_nil (m : List α) (o : ℕ) : overwrite m o [] = m := by
  rw [overwrite, List.append_nil, List.length_nil, Nat.add_zero, List.take_append_drop]

theorem slice_overwrite_self (h : o + l.length ≤ m.length) :
    slice (overwrite m o l) o l.length = l := by
  have hlen : (m.take o).length = o := by
    rw [List.length_take]
    omega
  rw [slice, overwrite, List.append_assoc, List.drop_append_of_le_length (by omega),
    List.drop_of_length_le (by omega), List.nil_append, List.take_left]

theorem slice_overwrite_below (h : o' + n ≤ o) (ho : o ≤ m.length) :
    slice (overwrite m o l) o' n = slice m o' n := by
  have hlen : (m.take o).length = o := by
    rw [List.length_take]
    omega
  rw [slice, overwrite, List.append_assoc, List.drop_append_of_le_length (by omega),
    List.take_append_of_le_length (by rw [List.length_drop]; omega), List.drop_take, List.take_take,
    slice]
  congr 1
  omega

theorem slice_overwrite_above (h : o + l.length ≤ o') (ho : o + l.length ≤ m.length) :
    slice (overwrite m o l) o' n = slice m o' n := by
  have hlen : (m.take o ++ l).length = o + l.length := by
    rw [List.length_append, List.length_take]
    omega
  rw [slice, overwrite, List.drop_append, List.drop_of_length_le (by omega), List.nil_append,
    List.drop_drop, slice, hlen]
  congr 2
  omega

/-- Overwriting disjoint entries changes no slice. -/
theorem slice_overwrite_of_disjoint (h : o' + n ≤ o ∨ o + l.length ≤ o')
    (ho : o + l.length ≤ m.length) : slice (overwrite m o l) o' n = slice m o' n := by
  rcases h with h | h
  · exact slice_overwrite_below h (by omega)
  · exact slice_overwrite_above h ho

theorem overwrite_append (h : o + l.length + l'.length ≤ m.length) :
    overwrite (overwrite m o l) (o + l.length) l' = overwrite m o (l ++ l') := by
  have hlen : (m.take o ++ l).length = o + l.length := by
    rw [List.length_append, List.length_take]
    omega
  have htake : (overwrite m o l).take (o + l.length) = m.take o ++ l := by
    rw [overwrite, List.take_append_of_le_length (by omega), List.take_of_length_le (by omega)]
  have hdrop : (overwrite m o l).drop (o + l.length + l'.length) =
      m.drop (o + l.length + l'.length) := by
    rw [overwrite, List.drop_append, List.drop_of_length_le (by omega), List.nil_append,
      List.drop_drop, hlen]
    congr 1
    omega
  rw [overwrite, htake, hdrop, overwrite, List.length_append, List.append_assoc, List.append_assoc,
    List.append_assoc, List.append_assoc, Nat.add_assoc]

/-- Three writes, each behind the one before, are one. -/
theorem overwrite_append₃ {l'' : List α}
    (h : o + (l.length + l'.length + l''.length) ≤ m.length) :
    overwrite (overwrite (overwrite m o l) (o + l.length) l') (o + l.length + l'.length) l'' =
      overwrite m o (l ++ (l' ++ l'')) := by
  have hlen : (overwrite m o l).length = m.length := length_overwrite (by omega)
  rw [overwrite_append (by omega), overwrite_append (by rw [List.length_append]; omega)]

/-! ## Gaps -/

def spread (k n : ℕ) (a : α) (l : List α) : List α := l.take k ++ List.replicate n a ++ l.drop k

@[simp] theorem spread_zero (k : ℕ) (a : α) (l : List α) : spread k 0 a l = l := by
  rw [spread, List.replicate_zero, List.append_nil, List.take_append_drop]

theorem length_spread : (spread k n a l).length = l.length + n := by
  rw [spread, List.length_append, List.length_append, List.length_take, List.length_drop,
    List.length_replicate]
  omega

theorem spread_append_left (l' : List α) (k n : ℕ) (a : α) (l : List α) :
    spread (l'.length + k) n a (l' ++ l) = l' ++ spread k n a l := by
  rw [spread, spread, List.take_length_add_append, List.drop_length_add_append]
  simp only [List.append_assoc]

theorem spread_append_right (h : k ≤ l.length) (l' : List α) :
    spread k n a (l ++ l') = spread k n a l ++ l' := by
  rw [spread, spread, List.take_append_of_le_length h, List.drop_append_of_le_length h]
  simp only [List.append_assoc]

/-- A gap at the end can be made longer. -/
theorem spread_at_end (n n' : ℕ) (a : α) (l : List α) :
    spread l.length (n + n') a l = spread l.length n a l ++ List.replicate n' a := by
  rw [spread, spread, List.take_length, List.drop_length, List.append_nil, List.append_nil,
    List.replicate_add, List.append_assoc]

/-- Dropping entries before the gap. -/
theorem drop_spread_before (h : n' ≤ k) (hk : k ≤ l.length) :
    (spread k n a l).drop n' = spread (k - n') n a (l.drop n') := by
  have hsplit : spread k n a l = l.take n' ++ spread (k - n') n a (l.drop n') := by
    have hlen : (l.take n').length = n' := by
      rw [List.length_take]
      omega
    have happ := spread_append_left (l.take n') (k - n') n a (l.drop n')
    rw [List.take_append_drop, hlen] at happ
    rw [← happ]
    congr 1
    omega
  rw [hsplit, List.drop_append, List.drop_of_length_le (by rw [List.length_take]; omega),
    List.nil_append, List.length_take]
  have hzero : n' - min n' l.length = 0 := by omega
  rw [hzero, List.drop_zero]

/-- Dropping all before the gap and a part of the gap. -/
theorem drop_spread_inside (h : k ≤ n') (hn : n' ≤ k + n) (hk : k ≤ l.length) :
    (spread k n a l).drop n' = spread 0 (n - (n' - k)) a (l.drop k) := by
  have hlen : (l.take k).length = k := by
    rw [List.length_take]
    omega
  rw [spread, spread, List.append_assoc, List.drop_append, List.drop_of_length_le (by omega), hlen,
    List.nil_append, List.drop_append_of_le_length (by rw [List.length_replicate]; omega),
    List.drop_replicate, List.take_zero, List.nil_append, List.drop_zero]

/-- Dropping the gap as well. -/
theorem drop_spread_after (h : k + n ≤ n') (hk : k ≤ l.length) :
    (spread k n a l).drop n' = l.drop (n' - n) := by
  have hlen : (l.take k ++ List.replicate n a).length = k + n := by
    rw [List.length_append, List.length_take, List.length_replicate]
    omega
  rw [spread, List.drop_append, List.drop_of_length_le (by omega), hlen, List.nil_append,
    List.drop_drop]
  congr 1
  omega

theorem take_spread_before (h : n' ≤ k) (hk : k ≤ l.length) :
    (spread k n a l).take n' = l.take n' := by
  rw [spread, List.append_assoc, List.take_append_of_le_length (by rw [List.length_take]; omega),
    List.take_take, Nat.min_eq_left h]

theorem take_spread_inside (h : k ≤ n') (hn : n' ≤ k + n) (hk : k ≤ l.length) :
    (spread k n a l).take n' = spread k (n' - k) a (l.take k) := by
  have hlen : (l.take k).length = k := by
    rw [List.length_take]
    omega
  have hmin : min (n' - k) n = n' - k := by omega
  rw [spread, spread, List.append_assoc, List.take_append, hlen, List.take_of_length_le (by omega),
    List.take_append_of_le_length (by rw [List.length_replicate]; omega), List.take_replicate,
    List.take_take, List.drop_take, Nat.min_self, Nat.sub_self, List.take_zero, List.append_nil, hmin]

theorem take_spread_after (h : k + n ≤ n') (hk : k ≤ l.length) :
    (spread k n a l).take n' = spread k n a (l.take (n' - n)) := by
  have hlen : (l.take k ++ List.replicate n a).length = k + n := by
    rw [List.length_append, List.length_take, List.length_replicate]
    omega
  have hmin : min k (n' - n) = k := by omega
  have hrest : n' - (k + n) = n' - n - k := by omega
  rw [spread, spread, List.take_append, List.take_of_length_le (by omega), hlen, List.take_take,
    List.drop_take, hmin, hrest]

end Ns3.Lib
