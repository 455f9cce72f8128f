import Mathlib.Data.List.Basic
import Mathlib.Order.Defs.Unbundled

/-!
# Unordered sets

A set that takes two elements for one when `r` relates them: of an unordered set,
when they have the same hash and compare equal. Where `r` is an equivalence, what
is found is what is related to an element (`contains_emplaceAll`).
-/

namespace Ns3.Lib.UnorderedSet

variable {α : Type} (r : α → α → Bool)

def contains (s : List α) (k : α) : Bool := s.any (r k)

def emplace (s : List α) (k : α) : List α := if contains r s k then s else s ++ [k]

def erase (s : List α) (k : α) : List α := s.filter fun e => !r k e

def emplaceAll (s ks : List α) : List α := ks.foldl (emplace r) s

variable {r} {s : List α} {k k' : α}

theorem contains_iff : contains r s k = true ↔ ∃ e ∈ s, r k e = true := List.any_eq_true

theorem contains_emplace (hr : Equivalence fun a b => r a b = true) :
    contains r (emplace r s k) k' = true ↔ contains r s k' = true ∨ r k' k = true := by
  unfold emplace
  split_ifs with hk
  · refine ⟨.inl, fun h => h.elim id fun hkk' => ?_⟩
    obtain ⟨e, he, hke⟩ := contains_iff.mp hk
    exact contains_iff.mpr ⟨e, he, hr.trans hkk' hke⟩
  · simp [contains]

/-- After the elements are added one by one, what is related to one of them is found. -/
theorem contains_emplaceAll (hr : Equivalence fun a b => r a b = true) (ks : List α) :
    contains r (emplaceAll r s ks) k' = true ↔
      contains r s k' = true ∨ ∃ k ∈ ks, r k' k = true := by
  induction ks generalizing s with
  | nil => simp [emplaceAll]
  | cons k ks ih =>
    show contains r (emplaceAll r (emplace r s k) ks) k' = true ↔ _
    rw [ih, contains_emplace hr]
    simp only [List.mem_cons, exists_eq_or_imp, or_assoc]

theorem mem_emplace {e : α} (h : e ∈ emplace r s k) : e ∈ s ∨ e = k := by
  unfold emplace at h
  split_ifs at h with hk
  · exact .inl h
  · simpa using h

end Ns3.Lib.UnorderedSet
