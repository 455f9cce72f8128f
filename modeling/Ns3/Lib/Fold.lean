import Mathlib.Data.List.Basic

/-!
# Folds that may fail

A loop whose body may throw is a `foldlM` in `Option`. `foldlM_sim` follows a
view of its state: when the body acts on the view as a function does, the loop
acts on it as the fold of that function. `foldlM_invariant` carries a property
through the loop.
-/

namespace Ns3.Lib

variable {α σ τ : Type} {f : σ → α → Option σ}

theorem foldlM_sim {g : σ → τ} {step : τ → α → τ}
    (hf : ∀ s a s', f s a = some s' → g s' = step (g s) a) {l : List α} {s s' : σ}
    (h : l.foldlM f s = some s') : g s' = l.foldl step (g s) := by
  induction l generalizing s with
  | nil => cases h; rfl
  | cons a l ih =>
    rw [List.foldlM_cons, Option.bind_eq_bind, Option.bind_eq_some_iff] at h
    obtain ⟨s₁, h₁, h⟩ := h
    rw [ih h, hf s a s₁ h₁, List.foldl_cons]

/-- A view that the body leaves alone. -/
theorem foldlM_fixed {g : σ → τ} (hf : ∀ s a s', f s a = some s' → g s' = g s) {l : List α}
    {s s' : σ} (h : l.foldlM f s = some s') : g s' = g s := by
  have hsim : g s' = l.foldl (fun t _ => t) (g s) := foldlM_sim hf h
  rw [hsim, List.foldl_fixed]

/-- What the body keeps, the loop keeps. -/
theorem foldlM_invariant {P : σ → Prop} (hf : ∀ s a s', P s → f s a = some s' → P s')
    {l : List α} {s s' : σ} (hs : P s) (h : l.foldlM f s = some s') : P s' := by
  induction l generalizing s with
  | nil => cases h; exact hs
  | cons a l ih =>
    rw [List.foldlM_cons, Option.bind_eq_bind, Option.bind_eq_some_iff] at h
    obtain ⟨s₁, h₁, h⟩ := h
    exact ih (hf s a s₁ hs h₁) h

theorem foldl_view {g : σ → τ} {f : σ → α → σ} (hf : ∀ s a, g (f s a) = g s) (l : List α) (s : σ) :
    g (l.foldl f s) = g s := by
  induction l generalizing s with
  | nil => rfl
  | cons a l ih => rw [List.foldl_cons, ih, hf]

/-- A fold that goes through took every step. -/
theorem foldlM_mem {α β : Type} {f : α → β → Option α} {l : List β} {a a' : α} {b : β}
    (h : l.foldlM f a = some a') (hb : b ∈ l) : ∃ c c', f c b = some c' := by
  induction l generalizing a with
  | nil => cases hb
  | cons x l ih =>
    simp only [List.foldlM_cons, Option.bind_eq_bind, Option.bind_eq_some_iff] at h
    obtain ⟨c, hc, h⟩ := h
    rcases List.mem_cons.mp hb with rfl | hb
    · exact ⟨a, c, hc⟩
    · exact ih h hb

end Ns3.Lib
