import Mathlib.Data.Nat.Notation
import Mathlib.Data.Option.Basic

/-!
# While loops

`whileLoop c f n s` runs a loop from the state `s` for less than `n` rounds;
it has no result where the rounds do not suffice or the body has none. The
rules: a loop whose body keeps an invariant and lowers a measure ends
(`whileLoop_total`), and a loop whose body keeps an invariant under which the
condition holds does not (`whileLoop_diverges`).
-/

namespace Ns3.Lib

variable {σ : Type}

def whileLoop (c : σ → Bool) (f : σ → Option σ) : ℕ → σ → Option σ
  | 0, _ => none
  | n + 1, s => if c s then (f s).bind (whileLoop c f n) else some s

variable {c : σ → Bool} {f : σ → Option σ} {n : ℕ} {s s' : σ}

theorem whileLoop_step (hc : c s = true) (hf : f s = some s') :
    whileLoop c f (n + 1) s = whileLoop c f n s' := by
  rw [whileLoop, if_pos hc, hf, Option.bind_some]

theorem whileLoop_exit (hc : c s = false) : whileLoop c f (n + 1) s = some s := by
  rw [whileLoop, if_neg (by simp [hc])]

/-- Total correctness, by an invariant and a measure that each round lowers. -/
theorem whileLoop_total {P : σ → Prop} (m : σ → ℕ)
    (hf : ∀ s, P s → c s = true → ∃ s', f s = some s' ∧ P s' ∧ m s' < m s)
    (hs : P s) (hn : m s < n) :
    ∃ s', whileLoop c f n s = some s' ∧ P s' ∧ c s' = false := by
  induction n generalizing s with
  | zero => exact absurd hn (Nat.not_lt_zero _)
  | succ n ih =>
    cases hc : c s with
    | false => exact ⟨s, whileLoop_exit hc, hs, hc⟩
    | true =>
      obtain ⟨s₁, hf₁, hs₁, hlt⟩ := hf s hs hc
      rw [whileLoop_step hc hf₁]
      exact ih hs₁ (by omega)

/-- A loop that never leaves the states where its condition holds has no end. -/
theorem whileLoop_diverges {P : σ → Prop} (hc : ∀ s, P s → c s = true)
    (hf : ∀ s s', P s → f s = some s' → P s') (hs : P s) : whileLoop c f n s = none := by
  induction n generalizing s with
  | zero => rfl
  | succ n ih =>
    rw [whileLoop, if_pos (hc s hs)]
    cases hrun : f s with
    | none => rfl
    | some s₁ => exact ih (hf s s₁ hs hrun)

end Ns3.Lib
