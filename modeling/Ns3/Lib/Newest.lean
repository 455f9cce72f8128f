import Mathlib.Data.Option.Basic
import Ns3.Lib.StdMap

/-!
# The pointwise newest merge

Two replicas that keep a stamp for each key agree, after an exchange, on the
pointwise newest of both. Nothing is asked of the order on stamps beyond that
it can be decided: `larger a b` moves to `b` only when `b` is strictly above
`a`, which is what a merge loop computes also for stamps that do not compare.
-/

namespace Ns3.Lib

variable {κ ν : Type} [LinearOrder κ] [LT ν] [DecidableLT ν]

/-- The larger of two stamps, the first one where they do not compare. -/
def larger (a b : ν) : ν := if a < b then b else a

theorem larger_of_lt {a b : ν} (h : a < b) : larger a b = b := if_pos h

theorem larger_of_not_lt {a b : ν} (h : ¬ a < b) : larger a b = a := if_neg h

/-- What a replica holds for a key after hearing of the stamp `v`. -/
def bump (v : ν) (o : Option ν) : Option ν :=
  some (match o with
    | none => v
    | some a => larger a v)

namespace StdMap

/-- Every key of either map, with the larger of its stamps. -/
def newest (m r : StdMap κ ν) : StdMap κ ν :=
  r.entries.foldl (fun s e => s.alter e.1 (bump e.2)) m

theorem find_newest (m r : StdMap κ ν) (k : κ) :
    (newest m r).find k = Option.merge larger (m.find k) (r.find k) := by
  rw [newest, find_foldl_alter r (fun _ v => bump v) m k]
  cases hr : r.find k <;> cases hm : m.find k <;> rfl

/-- A map with these lookups is the merge. -/
theorem eq_newest {m r m' : StdMap κ ν}
    (h : ∀ k, m'.find k = Option.merge larger (m.find k) (r.find k)) : m' = newest m r := by
  ext k : 1
  rw [h, find_newest]

/-- An entry the other replica has no use for: it is known there, and not older. -/
def Stale (m : StdMap κ ν) (k : κ) (v : ν) : Prop := ∃ a, m.find k = some a ∧ ¬ a < v

/-- Leaving out stale entries does not change the merge. -/
theorem newest_eq_of_stale {m r r' : StdMap κ ν}
    (h : ∀ k v, r.find k = some v → r'.find k = some v ∨ (r'.find k = none ∧ Stale m k v))
    (h' : ∀ k v, r'.find k = some v → r.find k = some v) : newest m r' = newest m r := by
  apply eq_newest
  intro k
  rw [find_newest]
  cases hr : r.find k with
  | none =>
    have : r'.find k = none := by
      cases hr' : r'.find k with
      | none => rfl
      | some v => exact absurd (h' k v hr') (by simp [hr])
    rw [this]
  | some v =>
    rcases h k v hr with hv | ⟨hn, a, ha, hle⟩
    · rw [hv]
    · simp [hn, ha, larger_of_not_lt hle]

end StdMap

end Ns3.Lib
