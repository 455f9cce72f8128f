import Mathlib.Logic.Basic

/-!
# Priority queues

The operations of a priority queue, and what they do to the elements that it
holds, for elements that have different names. An implementation gives the
states that are valid, and which elements a state holds.
-/

namespace Ns3.Lib

variable {α σ ι : Type}

structure PriorityQueue (α σ : Type) where
  empty : σ
  insert : α → σ → σ
  isEmpty : σ → Bool
  removeNext : σ → Option (α × σ)
  remove : α → σ → σ

/-- The queue is one for the order `lt`. -/
structure PriorityQueue.Lawful (Q : PriorityQueue α σ) (lt : α → α → Prop) (name : α → ι)
    (valid : σ → Prop) (holds : σ → α → Prop) : Prop where
  valid_empty : valid Q.empty
  holds_empty : ∀ a, ¬ holds Q.empty a
  valid_insert : ∀ {s a}, valid s → (∀ b, holds s b → name b ≠ name a) → valid (Q.insert a s)
  holds_insert : ∀ {s a}, valid s → (∀ b, holds s b → name b ≠ name a) →
    ∀ b, holds (Q.insert a s) b ↔ b = a ∨ holds s b
  isEmpty_iff : ∀ {s}, valid s → (Q.isEmpty s = true ↔ ∀ a, ¬ holds s a)
  removeNext_isSome : ∀ {s a}, valid s → holds s a → (Q.removeNext s).isSome
  valid_removeNext : ∀ {s a s'}, valid s → Q.removeNext s = some (a, s') → valid s'
  holds_next : ∀ {s a s'}, valid s → Q.removeNext s = some (a, s') → holds s a
  next_least : ∀ {s a s'}, valid s → Q.removeNext s = some (a, s') → ∀ b, holds s b → ¬ lt b a
  holds_removeNext : ∀ {s a s'}, valid s → Q.removeNext s = some (a, s') →
    ∀ b, holds s' b ↔ holds s b ∧ b ≠ a
  valid_remove : ∀ {s a}, valid s → holds s a → valid (Q.remove a s)
  holds_remove : ∀ {s a}, valid s → holds s a → ∀ b, holds (Q.remove a s) b ↔ holds s b ∧ b ≠ a

end Ns3.Lib
