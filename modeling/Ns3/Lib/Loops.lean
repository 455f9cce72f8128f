import Mathlib.Data.List.Chain
import Mathlib.Data.List.Nodup
import Mathlib.Logic.Relation

/-!
# Loops in a graph of next hops

`Acyclic r`: no walk along `r` comes back to where it started; equivalently, no
walk visits a node twice (`acyclic_iff_nodup`). When the edges out of one node
are replaced, a graph without loops gets one exactly when a new edge leads to a
node from which the old graph leads back (`Acyclic.replace_iff`).
-/

namespace Ns3.Lib

open Relation

variable {α : Type} {r r' : α → α → Prop}

/-- No walk along `r` comes back. -/
def Acyclic (r : α → α → Prop) : Prop := ∀ a, ¬ TransGen r a a

theorem Acyclic.mono (h : Acyclic r) (hsub : ∀ a b, r' a b → r a b) : Acyclic r' :=
  fun a ha => h a (TransGen.mono hsub a a ha)

/-- A graph has no loop exactly when no walk visits a node twice. -/
theorem acyclic_iff_nodup : Acyclic r ↔ ∀ walk : List α, walk.IsChain r → walk.Nodup := by
  constructor
  · intro h walk hwalk
    have htrans : walk.Pairwise (TransGen r) :=
      (hwalk.imp fun _ _ => TransGen.single).pairwise
    refine htrans.imp ?_
    rintro a b hab rfl
    exact h a hab
  · intro h a ha
    obtain ⟨b, hab, hba⟩ := TransGen.head'_iff.mp ha
    obtain ⟨walk, hwalk, hlast⟩ := List.exists_isChain_cons_of_relationReflTransGen hba
    have hmem : a ∈ b :: walk := hlast ▸ List.getLast_mem _
    exact (List.nodup_cons.mp (h (a :: b :: walk) (hwalk.cons_cons hab))).1 hmem

/-- A walk to `n` uses edges out of `n` only after it has reached `n`. -/
theorem reach_of_off {n b : α} (hoff : ∀ a c, a ≠ n → r' a c → r a c)
    (h : ReflTransGen r' b n) : ReflTransGen r b n := by
  induction h using ReflTransGen.head_induction_on with
  | refl => exact .refl
  | @head a c hac _ ih =>
    rcases eq_or_ne a n with rfl | hne
    · exact .refl
    · exact ih.head (hoff a c hne hac)

/-- A walk either keeps off the edges out of `n`, or comes to `n` and goes on from there. -/
theorem transGen_off_or {n a c : α} (hoff : ∀ a c, a ≠ n → r' a c → r a c)
    (h : TransGen r' a c) : TransGen r a c ∨ ReflTransGen r' a n ∧ TransGen r' n c := by
  induction h with
  | @single c hac =>
    rcases eq_or_ne a n with rfl | hne
    · exact .inr ⟨.refl, .single hac⟩
    · exact .inl (.single (hoff a c hne hac))
  | @tail b c hab hbc ih =>
    rcases eq_or_ne b n with rfl | hne
    · exact .inr ⟨hab.to_reflTransGen, .single hbc⟩
    · rcases ih with hold | ⟨hto, hfrom⟩
      · exact .inl (hold.tail (hoff b c hne hbc))
      · exact .inr ⟨hto, hfrom.tail hbc⟩

/-- Replacing the edges out of `n` closes a loop exactly when one of the new edges leads to a
node from which `n` was reached before. -/
theorem Acyclic.replace_iff {n : α} (h : Acyclic r) (hoff : ∀ a c, a ≠ n → (r' a c ↔ r a c)) :
    Acyclic r' ↔ ∀ b, r' n b → ¬ ReflTransGen r b n := by
  constructor
  · intro h' b hnb hbn
    have hback : ReflTransGen r' b n := reach_of_off (fun a c ha => (hoff a c ha).mpr) hbn
    exact h' n (TransGen.head' hnb hback)
  · intro hnew a ha
    have hn : ¬ TransGen r' n n := by
      intro hn
      obtain ⟨b, hnb, hbn⟩ := TransGen.head'_iff.mp hn
      exact hnew b hnb (reach_of_off (fun a c ha => (hoff a c ha).mp) hbn)
    rcases transGen_off_or (fun a c ha => (hoff a c ha).mp) ha with hold | ⟨hto, hfrom⟩
    · exact h a hold
    · exact hn (hfrom.trans_left hto)

end Ns3.Lib
