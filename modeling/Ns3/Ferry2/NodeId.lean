import Mathlib.Data.String.Basic
import Mathlib.Data.List.TakeWhile
import Mathlib.Data.UInt

/-!
# Node ids

Crossings and shelters are named by strings `node/<n>`. `SetNodeID` builds one
from an `int`, a codec sends the number alone, and `NodeIDstoi` recovers it by
splitting the string at `/` and calling `stoi` on the second piece. `none`
stands for the exceptions of `stoi` and for a string without a second piece.
-/

namespace Ns3.Ferry2

/-- `"node/" + std::to_string(n)`. -/
def nodeID (n : ℕ) : String := "node/" ++ toString n

/-- The separator loop of `NodeIDstoi`. -/
def splitAtSep (sep : Char) : List Char → List (List Char)
  | [] => [[]]
  | c :: cs =>
    if c = sep then [] :: splitAtSep sep cs
    else match splitAtSep sep cs with
      | [] => [[c]]
      | w :: ws => (c :: w) :: ws

def intMax : ℕ := 2147483647

def isSpace (c : Char) : Bool :=
  c == ' ' || c == '\t' || c == '\n' || c == '\x0b' || c == '\x0c' || c == '\r'

/-- `std::stoi`: blanks, a sign, then the longest run of digits. -/
def stoi (s : List Char) : Option ℤ :=
  let s := s.dropWhile isSpace
  let neg := s.head? == some '-'
  let s := if s.head? == some '-' || s.head? == some '+' then s.tail else s
  let ds := s.takeWhile Char.isDigit
  let v : ℤ := Nat.ofDigitChars 10 ds 0
  let v := if neg then -v else v
  if ds = [] then none
  else if -(intMax + 1 : ℤ) ≤ v ∧ v ≤ intMax then some v
  else none

/-- The number of a node id; the `int` is returned as a `uint32_t`. -/
def nodeIDstoi (s : String) : Option UInt32 := do
  let w ← (splitAtSep '/' s.toList)[1]?
  let r ← stoi w
  return UInt32.ofInt r

/-- The ids the simulation hands out: `node/<n>` for an `int` `n ≥ 0`. -/
def Canonical (s : String) : Prop := ∃ n, n ≤ intMax ∧ s = nodeID n

theorem splitAtSep_of_notMem {sep : Char} {cs : List Char} (h : sep ∉ cs) :
    splitAtSep sep cs = [cs] := by
  induction cs with
  | nil => rfl
  | cons c cs ih =>
    obtain ⟨hc, hcs⟩ : sep ≠ c ∧ sep ∉ cs := by simpa using h
    simp [splitAtSep, hc.symm, ih hcs]

theorem toList_nodeID (n : ℕ) :
    (nodeID n).toList = ['n', 'o', 'd', 'e', '/'] ++ Nat.toDigits 10 n := by
  simp [nodeID, String.toList_append]

theorem isDigit_toDigits {n : ℕ} {c : Char} (h : c ∈ Nat.toDigits 10 n) : c.isDigit :=
  Nat.isDigit_of_mem_toDigits (by decide) (by decide) h

theorem splitAtSep_nodeID (n : ℕ) :
    splitAtSep '/' (nodeID n).toList = [['n', 'o', 'd', 'e'], Nat.toDigits 10 n] := by
  have hs : '/' ∉ Nat.toDigits 10 n := fun h => absurd (isDigit_toDigits h) (by decide)
  rw [toList_nodeID]
  simp [splitAtSep, splitAtSep_of_notMem hs]

theorem stoi_toDigits {n : ℕ} (h : n ≤ intMax) : stoi (Nat.toDigits 10 n) = some (n : ℤ) := by
  obtain ⟨c, cs, hcs⟩ := List.exists_cons_of_ne_nil (Nat.toDigits_ne_nil (n := n) (b := 10))
  have hdig : ∀ a ∈ c :: cs, a.isDigit := fun a ha => isDigit_toDigits (hcs ▸ ha)
  have hc : c.isDigit := hdig c (by simp)
  have hspace : isSpace c = false := by
    by_contra hsp
    simp only [isSpace, Bool.not_eq_false, Bool.or_eq_true, beq_iff_eq] at hsp
    rcases hsp with ((((rfl | rfl) | rfl) | rfl) | rfl) | rfl <;> simp [Char.isDigit] at hc
  have hm : c ≠ '-' := by rintro rfl; simp [Char.isDigit] at hc
  have hp : c ≠ '+' := by rintro rfl; simp [Char.isDigit] at hc
  have htake : (c :: cs).takeWhile Char.isDigit = c :: cs := by
    exact List.takeWhile_eq_self_iff.mpr hdig
  have hval : Nat.ofDigitChars 10 (c :: cs) 0 = n := by
    rw [← hcs, Nat.ofDigitChars_ten_toDigits]
  have hdrop : (c :: cs).dropWhile isSpace = c :: cs := by simp [List.dropWhile, hspace]
  have hlo : (-1 : ℤ) ≤ n + intMax := by omega
  simp [hcs, stoi, hdrop, hm, hp, htake, hval, hlo, h]

/-- A codec's number gives the id back. -/
theorem nodeIDstoi_nodeID {n : ℕ} (h : n ≤ intMax) :
    nodeIDstoi (nodeID n) = some (UInt32.ofNat n) := by
  simp only [nodeIDstoi, splitAtSep_nodeID]
  have hw : UInt32.ofInt (n : ℤ) = UInt32.ofNat n := by
    have hlt : (n : ℤ) % 2 ^ 32 = n := by
      simp only [intMax] at h
      omega
    rw [UInt32.ofInt, hlt, Int.toNat_natCast]
  simp [stoi_toDigits h, hw]

theorem toNat_ofNat_of_le_intMax {n : ℕ} (h : n ≤ intMax) : (UInt32.ofNat n).toNat = n :=
  UInt32.toNat_ofNat_of_lt' (by simp only [intMax, UInt32.size] at h ⊢; omega)

theorem nodeID_inj {m n : ℕ} (h : nodeID m = nodeID n) : m = n := by
  have hd : Nat.toDigits 10 m = Nat.toDigits 10 n := by
    have := congrArg String.toList h
    rw [toList_nodeID, toList_nodeID] at this
    exact List.append_cancel_left this
  rw [← Nat.ofDigitChars_ten_toDigits (n := m), hd, Nat.ofDigitChars_ten_toDigits]

theorem Canonical.ne_empty {s : String} (h : Canonical s) : s ≠ "" := by
  obtain ⟨n, -, rfl⟩ := h
  intro he
  have := congrArg String.toList he
  simp [toList_nodeID] at this

/-- The number a canonical id is sent as, and that the reader turns back into the id. -/
theorem Canonical.wire {s : String} (h : Canonical s) :
    ∃ w : UInt32, nodeIDstoi s = some w ∧ nodeID w.toNat = s ∧ w.toNat ≤ intMax := by
  obtain ⟨n, hn, rfl⟩ := h
  refine ⟨UInt32.ofNat n, nodeIDstoi_nodeID hn, ?_, ?_⟩
  · rw [toNat_ofNat_of_le_intMax hn]
  · rw [toNat_ofNat_of_le_intMax hn]
    exact hn

example : nodeIDstoi "node/10004" = some 10004 := by decide

end Ns3.Ferry2
