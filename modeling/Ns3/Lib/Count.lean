import Mathlib.Algebra.BigOperators.Group.Finset.Piecewise
import Mathlib.Logic.Function.Basic

/-!
# Counting the entries of a family

`countBelow n f p` is how many of the first `n` entries of `f` have `p`.
`countBelow_update` is the law for a step that replaces one entry.
-/

namespace Ns3.Lib

variable {α : Type}

def countBelow (n : ℕ) (f : ℕ → α) (p : α → Prop) [DecidablePred p] : ℕ :=
  ((Finset.range n).filter fun u => p (f u)).card

variable {n : ℕ} {f g : ℕ → α} {p q : α → Prop} [DecidablePred p] [DecidablePred q]

theorem countBelow_congr (h : ∀ u < n, p (f u) ↔ q (g u)) : countBelow n f p = countBelow n g q := by
  unfold countBelow
  congr 1
  exact Finset.filter_congr fun u hu => h u (Finset.mem_range.mp hu)

theorem countBelow_eq_zero (h : ∀ u < n, ¬ p (f u)) : countBelow n f p = 0 := by
  unfold countBelow
  rw [Finset.card_eq_zero, Finset.filter_eq_empty_iff]
  exact fun u hu => h u (Finset.mem_range.mp hu)

theorem countBelow_le : countBelow n f p ≤ n := by
  unfold countBelow
  exact (Finset.card_filter_le _ _).trans_eq (Finset.card_range n)

/-- Replacing one entry moves the count by what the two entries add to it. -/
theorem countBelow_update {u : ℕ} (hu : u < n) (x : α) :
    countBelow n (Function.update f u x) p + (if p (f u) then 1 else 0) =
      countBelow n f p + if p x then 1 else 0 := by
  have hmem : u ∈ Finset.range n := Finset.mem_range.mpr hu
  have hrest : ∑ v ∈ (Finset.range n).erase u, (if p (Function.update f u x v) then 1 else 0) =
      ∑ v ∈ (Finset.range n).erase u, if p (f v) then 1 else 0 := by
    refine Finset.sum_congr rfl fun v hv => ?_
    rw [Function.update_of_ne (Finset.ne_of_mem_erase hv)]
  unfold countBelow
  rw [Finset.card_filter, Finset.card_filter, ← Finset.add_sum_erase _ _ hmem,
    ← Finset.add_sum_erase (Finset.range n) _ hmem, hrest, Function.update_self]
  omega

/-- Of two properties, one implied by the other, as many entries have one as the other exactly
when they are the same on the entries. -/
theorem countBelow_eq_iff (h : ∀ u < n, p (f u) → q (f u)) :
    countBelow n f p = countBelow n f q ↔ ∀ u < n, q (f u) → p (f u) := by
  constructor
  · intro heq u hu hq
    have hsub : (Finset.range n).filter (fun u => p (f u)) ⊆
        (Finset.range n).filter fun u => q (f u) :=
      fun v hv => by
        obtain ⟨hv, hp⟩ := Finset.mem_filter.mp hv
        exact Finset.mem_filter.mpr ⟨hv, h v (Finset.mem_range.mp hv) hp⟩
    have hsame := Finset.eq_of_subset_of_card_le hsub heq.ge
    have hin : u ∈ (Finset.range n).filter fun u => p (f u) := by
      rw [hsame]
      exact Finset.mem_filter.mpr ⟨Finset.mem_range.mpr hu, hq⟩
    exact (Finset.mem_filter.mp hin).2
  · exact fun hback => countBelow_congr fun u hu => ⟨h u hu, hback u hu⟩

end Ns3.Lib
