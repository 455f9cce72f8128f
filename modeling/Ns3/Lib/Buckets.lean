import Ns3.Lib.StdMap

/-!
# Buckets

A `std::map` from keys to vectors that is filled by `push_back`: at each key
are the elements that have it, in their order.
-/

namespace Ns3.Lib

variable {α κ : Type} [LinearOrder κ]

def buckets (f : α → κ) (l : List α) : StdMap κ (List α) :=
  l.foldl (fun m a => m.alter (f a) fun o => some (o.getD [] ++ [a])) StdMap.empty

variable {f : α → κ}

theorem find_buckets (l : List α) (k : κ) :
    (buckets f l).find k = if (l.filter fun a => f a = k) = [] then none
      else some (l.filter fun a => f a = k) := by
  induction l using List.reverseRecOn with
  | nil => rfl
  | append_singleton l a ih =>
    have hstep : buckets f (l ++ [a]) =
        (buckets f l).alter (f a) fun o => some (o.getD [] ++ [a]) := by
      unfold buckets
      rw [List.foldl_append]
      rfl
    rw [hstep, StdMap.find_alter, List.filter_append]
    by_cases hk : k = f a
    · subst hk
      rw [if_pos rfl, ih]
      split
      · rename_i hempty
        simp [hempty]
      · simp
    · rw [if_neg hk, ih]
      simp [Ne.symm hk]

/-- The entries are the buckets that are not empty. -/
theorem mem_entries_buckets {l : List α} {k : κ} {bucket : List α} :
    (k, bucket) ∈ (buckets f l).entries ↔
      bucket = (l.filter fun a => f a = k) ∧ bucket ≠ [] := by
  rw [StdMap.mem_entries, find_buckets]
  split
  · rename_i hempty
    constructor
    · rintro ⟨⟩
    · rintro ⟨rfl, hne⟩
      exact absurd hempty hne
  · rename_i hne
    constructor
    · rintro ⟨⟩
      exact ⟨rfl, hne⟩
    · rintro ⟨rfl, -⟩
      rfl

end Ns3.Lib
