import Mathlib.Data.List.Basic
import Mathlib.Logic.Relation

/-!
# Flooding by relays

A node that has transmitted is heard by all its neighbors. A node passes on what
it hears only if the first neighbor that it hears has chosen it as a relay. When
the relays of a node reach all that its neighbors do, this reaches every node
that is connected with the origin (`reached_of_connected`): a node that is left
out is left out by relays that heard others earlier, and there is no infinite
descent in the order of transmissions.
-/

namespace Ns3.Lib.Flooding

variable {α : Type} (hears : α → α → Prop) [DecidableRel hears] (relays : α → α → Prop)

/-- The first one that a node hears, in the order of transmissions. -/
def first (sent : List α) (v : α) : Option α := sent.find? fun w => hears w v

/-- Whatever a neighbor of `w` reaches, `w` reaches itself or through a relay. -/
def Cover : Prop :=
  ∀ w u v, hears w u → hears u v → v ≠ w → ¬ hears w v → ∃ m, relays w m ∧ hears w m ∧ hears m v

/-- The nodes that pass on what they hear have transmitted, and no others. -/
def Settled (origin : α) (sent : List α) : Prop :=
  ∀ v, v ∈ sent ↔ v = origin ∨ ∃ w, first hears sent v = some w ∧ relays w v

variable {hears} {relays} {origin u v w : α} {sent : List α}

theorem first_eq_none : first hears sent v = none ↔ ∀ w ∈ sent, ¬ hears w v := by
  unfold first
  rw [List.find?_eq_none]
  simp

theorem first_isSome : (first hears sent v).isSome ↔ ∃ w ∈ sent, hears w v := by
  rw [Option.isSome_iff_ne_none, Ne, first_eq_none]
  push Not
  rfl

/-- The transmissions before the first one that a node hears. -/
theorem first_eq_some : first hears sent v = some w ↔
    hears w v ∧ ∃ before after, sent = before ++ w :: after ∧ ∀ x ∈ before, ¬ hears x v := by
  unfold first
  rw [List.find?_eq_some_iff_append]
  simp

/-- One more transmission. -/
theorem first_append (sent : List α) (w v : α) :
    first hears (sent ++ [w]) v =
      (first hears sent v).or (if hears w v then some w else none) := by
  unfold first
  rw [List.find?_append, List.find?_singleton]
  simp

/-- A neighbor of a node that has heard one is not left out. -/
theorem Settled.next (h : Settled hears relays origin sent) (hcover : Cover hears relays)
    {before after : List α} (hsent : sent = before ++ w :: after) (hw : hears w u)
    (hbefore : ∀ x ∈ before, ¬ hears x u) (huv : hears u v) :
    v = origin ∨ ∃ x ∈ sent, hears x v := by
  induction hlen : before.length using Nat.strongRecOn generalizing before after u w with
  | ind k ih =>
    by_cases hheard : ∃ x ∈ sent, hears x v
    · exact .inr hheard
    have hnot : ∀ x ∈ sent, ¬ hears x v := fun x hx hxv => hheard ⟨x, hx, hxv⟩
    have hmem : w ∈ sent := by
      rw [hsent]
      exact List.mem_append_right _ List.mem_cons_self
    by_cases hvw : v = w
    · -- it has transmitted, so it is the origin or has heard one
      rcases (h v).mp (hvw ▸ hmem) with horigin | ⟨x, hx, -⟩
      · exact .inl horigin
      · exact .inr (first_isSome.mp (by rw [hx]; rfl))
    obtain ⟨m, hrelay, hwm, hmv⟩ := hcover w u v hw huv hvw (hnot w hmem)
    have hsilent : m ∉ sent := fun hm => hnot m hm hmv
    obtain ⟨x, hx⟩ := Option.isSome_iff_exists.mp (first_isSome.mpr ⟨w, hmem, hwm⟩)
    have hxm : x ≠ w := by
      rintro rfl
      exact hsilent ((h m).mpr (.inr ⟨x, hx, hrelay⟩))
    -- the relay has heard another one before
    obtain ⟨hears_x, before', after', hsent', hbefore'⟩ := first_eq_some.mp hx
    refine ih before'.length ?_ hsent' hears_x hbefore' hmv rfl
    rw [← hlen]
    by_contra hle
    have hat : sent[before.length]? = some w := by
      rw [hsent, List.getElem?_append_right (Nat.le_refl _), Nat.sub_self, List.getElem?_cons_zero]
    rw [hsent'] at hat
    rcases Nat.lt_or_eq_of_le (Nat.le_of_not_lt hle) with hlt | heq
    · rw [List.getElem?_append_left hlt] at hat
      exact hbefore' w (List.mem_of_getElem? hat) hwm
    · rw [heq, List.getElem?_append_right (Nat.le_refl _), Nat.sub_self,
        List.getElem?_cons_zero] at hat
      exact hxm (Option.some.inj hat)

/-- **Every node that is connected with the origin is reached**, when nothing is left to send. -/
theorem reached_of_connected (h : Settled hears relays origin sent) (hcover : Cover hears relays)
    (hpath : Relation.ReflTransGen hears origin v) : v = origin ∨ ∃ w ∈ sent, hears w v := by
  induction hpath with
  | refl => exact .inl rfl
  | @tail u v _ huv ih =>
    by_cases hu : u ∈ sent
    · exact .inr ⟨u, hu, huv⟩
    rcases ih with rfl | hheard
    · exact absurd ((h u).mpr (.inl rfl)) hu
    · obtain ⟨w, hw⟩ := Option.isSome_iff_exists.mp (first_isSome.mpr hheard)
      obtain ⟨hears_w, before, after, hsent, hbefore⟩ := first_eq_some.mp hw
      exact h.next hcover hsent hears_w hbefore huv

end Ns3.Lib.Flooding
