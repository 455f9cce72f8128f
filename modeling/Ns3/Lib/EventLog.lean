import Mathlib.Data.List.Basic

/-!
# Logs of events

A log is the list of the events so far, each a key and what was said of it.
`latest` is what the last event naming a key says; `latest_append` is the law
for a log that goes on.
-/

namespace Ns3.Lib

variable {κ ν : Type} [DecidableEq κ]

/-- What the last event naming `k` says. -/
def latest (h : List (κ × ν)) (k : κ) : Option ν :=
  (h.reverse.find? fun e => e.1 = k).map Prod.snd

@[simp] theorem latest_nil (k : κ) : latest ([] : List (κ × ν)) k = none := rfl

theorem latest_append (h h' : List (κ × ν)) (k : κ) :
    latest (h ++ h') k = (latest h' k).or (latest h k) := by
  unfold latest
  rw [List.reverse_append, List.find?_append]
  cases h'.reverse.find? fun e => e.1 = k <;> rfl

/-- A batch of events that all say the same. -/
theorem latest_map (ks : List κ) (v : ν) (k : κ) :
    latest (ks.map fun k => (k, v)) k = if k ∈ ks then some v else none := by
  unfold latest
  split_ifs with hk
  · have hfound : ((ks.map fun k => (k, v)).reverse.find? fun e => e.1 = k).isSome = true := by
      rw [List.find?_isSome]
      exact ⟨(k, v), by simpa using hk, by simp⟩
    obtain ⟨e, he⟩ := Option.isSome_iff_exists.mp hfound
    obtain ⟨k', -, rfl⟩ : ∃ k' ∈ ks, (k', v) = e := by
      simpa using List.mem_of_find?_eq_some he
    rw [he]
    rfl
  · have hnone : ((ks.map fun k => (k, v)).reverse.find? fun e => e.1 = k) = none := by
      rw [List.find?_eq_none]
      intro e he
      obtain ⟨k', hk', rfl⟩ : ∃ k' ∈ ks, (k', v) = e := by simpa using he
      simp only [decide_eq_true_eq]
      rintro rfl
      exact hk hk'
    rw [hnone]
    rfl

end Ns3.Lib
