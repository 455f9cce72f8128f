import Mathlib.Logic.Relation
import Mathlib.Data.Set.Insert

/-!
# Searching a graph

`Explored r S S' roots` is what a search does that has visited `S`, is sent to
the vertices of `roots` and has visited `S'` when it is back. Searches one after
the other are one search (`append`), and so is a search that first marks the
vertex it is sent to (`enter`). With nothing visited before, what is visited is
what is in reach.
-/

namespace Ns3.Lib

open Relation

variable {α : Type} {r : α → α → Prop} {S S₁ S' : Set α} {roots : α → Prop}

theorem reflTransGen_symm (h : ∀ a b, r a b → r b a) {a b : α} (hab : ReflTransGen r a b) :
    ReflTransGen r b a := by
  induction hab with
  | refl => exact .refl
  | tail _ hstep ih => exact .head (h _ _ hstep) ih

structure Explored (r : α → α → Prop) (S S' : Set α) (roots : α → Prop) : Prop where
  mono : S ⊆ S'
  reached : ∀ a, roots a → a ∈ S'
  sound : ∀ v ∈ S', v ∈ S ∨ ∃ a, roots a ∧ ReflTransGen r a v
  closed : ∀ v ∈ S', v ∉ S → ∀ w, r v w → w ∈ S'

namespace Explored

theorem visited {a : α} (ha : a ∈ S) : Explored r S S fun b => b = a where
  mono := Set.Subset.rfl
  reached := fun _ hb => hb ▸ ha
  sound := fun _ hv => .inl hv
  closed := fun _ hv hn => absurd hv hn

theorem nowhere : Explored r S S fun _ => False where
  mono := Set.Subset.rfl
  reached := fun _ hb => hb.elim
  sound := fun _ hv => .inl hv
  closed := fun _ hv hn => absurd hv hn

theorem append {a : α} (h₁ : Explored r S S₁ fun b => b = a) (h₂ : Explored r S₁ S' roots) :
    Explored r S S' fun b => b = a ∨ roots b where
  mono := h₁.mono.trans h₂.mono
  reached := by
    rintro b (rfl | hb)
    · exact h₂.mono (h₁.reached b rfl)
    · exact h₂.reached b hb
  sound := by
    intro v hv
    rcases h₂.sound v hv with hv | ⟨b, hb, hreach⟩
    · refine (h₁.sound v hv).imp_right ?_
      rintro ⟨b, rfl, hreach⟩
      exact ⟨b, .inl rfl, hreach⟩
    · exact .inr ⟨b, .inr hb, hreach⟩
  closed := by
    intro v hv hn w hw
    by_cases hv₁ : v ∈ S₁
    · exact h₂.mono (h₁.closed v hv₁ hn w hw)
    · exact h₂.closed v hv hv₁ w hw

theorem congr {roots' : α → Prop} (h : Explored r S S' roots) (he : ∀ a, roots' a ↔ roots a) :
    Explored r S S' roots' := by
  have : roots' = roots := funext fun a => propext (he a)
  rwa [this]

theorem enter {a : α} (h : Explored r (insert a S) S' (r a)) : Explored r S S' fun b => b = a where
  mono := (Set.subset_insert a S).trans h.mono
  reached := fun b hb => hb ▸ h.mono (Set.mem_insert a S)
  sound := by
    intro v hv
    rcases h.sound v hv with hv | ⟨b, hb, hreach⟩
    · rcases hv with rfl | hv
      · exact .inr ⟨v, rfl, .refl⟩
      · exact .inl hv
    · exact .inr ⟨a, rfl, .head hb hreach⟩
  closed := by
    intro v hv hn w hw
    by_cases hva : v = a
    · subst hva
      exact h.reached w hw
    · exact h.closed v hv (fun hmem => hmem.elim hva hn) w hw

/-- A search from `a` with nothing visited before. -/
theorem mem_iff {a : α} (h : Explored r ∅ S' fun b => b = a) {v : α} :
    v ∈ S' ↔ ReflTransGen r a v := by
  constructor
  · intro hv
    rcases h.sound v hv with hv | ⟨b, rfl, hreach⟩
    · exact hv.elim
    · exact hreach
  · intro hreach
    induction hreach with
    | refl => exact h.reached a rfl
    | tail _ hstep ih => exact h.closed _ ih (Set.notMem_empty _) _ hstep

end Explored

end Ns3.Lib
