import Mathlib.Data.Option.Basic
import Mathlib.Data.List.Basic

/-!
# Triples for stateful computations that may fail

`Triple P m Q`: when `m` starts in a state with `P` and does not fail, its
result and the state it ends in have `Q`. One rule for each way to build a
computation; `Triple.keep` is the form for an invariant.
-/

namespace Ns3.Lib

variable {σ α β : Type}

/-- A computation goes on where its first part has ended. -/
theorem bind_run {m : StateT σ Option α} {f : α → StateT σ Option β} {s s' : σ} {a : α}
    (h : m s = some (a, s')) : (m >>= f) s = f a s' := by
  have hbind : (m >>= f) s = (m s).bind fun r => f r.1 r.2 := rfl
  rw [hbind, h, Option.bind_some]

theorem get_run {f : σ → StateT σ Option β} {s : σ} :
    ((get : StateT σ Option σ) >>= f) s = f s s := rfl

/-- Where it ends, its first part has ended somewhere. -/
theorem bind_run_inv {m : StateT σ Option α} {f : α → StateT σ Option β} {s : σ}
    {r : β × σ} (h : (m >>= f) s = some r) : ∃ a s', m s = some (a, s') ∧ f a s' = some r := by
  obtain ⟨⟨a, s'⟩, hm, hf⟩ := Option.bind_eq_some_iff.mp h
  exact ⟨a, s', hm, hf⟩

/-- Partial correctness: a computation that fails satisfies every triple. -/
def Triple (P : σ → Prop) (m : StateT σ Option α) (Q : α → σ → Prop) : Prop :=
  ∀ s a s', P s → m s = some (a, s') → Q a s'

namespace Triple

variable {P P' : σ → Prop} {m : StateT σ Option α} {Q : α → σ → Prop} {R : β → σ → Prop}

theorem ret {a : α} (h : ∀ s, P s → Q a s) : Triple P (pure a) Q := by
  intro s a' s' hs hrun
  cases hrun
  exact h s hs

theorem bind {f : α → StateT σ Option β} (hm : Triple P m Q) (hf : ∀ a, Triple (Q a) (f a) R) :
    Triple P (m >>= f) R := by
  intro s b s' hs hrun
  obtain ⟨⟨a, s₁⟩, hm', hf'⟩ := Option.bind_eq_some_iff.mp hrun
  exact hf a s₁ b s' (hm s a s₁ hs hm') hf'

theorem read {Q : σ → σ → Prop} (h : ∀ s, P s → Q s s) :
    Triple P (get : StateT σ Option σ) Q := by
  intro s a s' hs hrun
  cases hrun
  exact h s hs

theorem write {f : σ → σ} {Q : PUnit → σ → Prop} (h : ∀ s, P s → Q ⟨⟩ (f s)) :
    Triple P (modify f : StateT σ Option PUnit) Q := by
  intro s a s' hs hrun
  cases hrun
  exact h s hs

theorem fail : Triple P (failure : StateT σ Option α) Q := by
  intro s a s' hs hrun
  cases hrun

theorem weaken (h : Triple P m Q) {Q' : α → σ → Prop} (hP : ∀ s, P' s → P s)
    (hQ : ∀ a s, Q a s → Q' a s) : Triple P' m Q' :=
  fun s a s' hs hrun => hQ a s' (h s a s' (hP s hs) hrun)

/-- What does not depend on the state may be assumed. -/
theorem assume {φ : Prop} (h : φ → Triple P m Q) : Triple (fun s => P s ∧ φ) m Q :=
  fun s a s' hs hrun => h hs.2 s a s' hs.1 hrun

/-- Two triples for one computation. -/
theorem both {Q' : α → σ → Prop} (h : Triple P m Q) (h' : Triple P' m Q') :
    Triple (fun s => P s ∧ P' s) m fun a s => Q a s ∧ Q' a s :=
  fun s a s' hs hrun => ⟨h s a s' hs.1 hrun, h' s a s' hs.2 hrun⟩

/-- Two preconditions, each of which is enough. -/
theorem either (h : Triple P m Q) (h' : Triple P' m Q) : Triple (fun s => P s ∨ P' s) m Q :=
  fun s a s' hs hrun => hs.elim (fun hs => h s a s' hs hrun) fun hs => h' s a s' hs hrun

/-! ## Invariants -/

theorem foldlM {f : β → α → StateT σ Option β} (h : ∀ b a, Triple P (f b a) fun _ => P)
    (l : List α) (b : β) : Triple P (l.foldlM f b) fun _ => P := by
  induction l generalizing b with
  | nil => exact ret fun _ hs => hs
  | cons a l ih => exact bind (h b a) ih

theorem forM {f : α → StateT σ Option PUnit} (h : ∀ a, Triple P (f a) fun _ => P) (l : List α) :
    Triple P (l.forM f) fun _ => P := by
  induction l with
  | nil => exact ret fun _ hs => hs
  | cons a l ih => exact bind (h a) fun _ => ih

theorem forM_mem {f : α → StateT σ Option PUnit} {l : List α}
    (h : ∀ a ∈ l, Triple P (f a) fun _ => P) : Triple P (l.forM f) fun _ => P := by
  induction l with
  | nil => exact ret fun _ hs => hs
  | cons a l ih => exact bind (h a (by simp)) fun _ => ih fun a ha => h a (by simp [ha])

end Triple

end Ns3.Lib
