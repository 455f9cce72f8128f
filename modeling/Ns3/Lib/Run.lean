import Mathlib.Logic.Function.Basic
import Mathlib.Data.List.Basic
import Mathlib.Data.List.Induction

/-!
# Runs of a labelled transition system

A system is a set of initial states and a labelled step relation. The rules:
what the initial states have and every step keeps holds in every reachable
state (`Reachable.invariant`), and a reflexive and transitive relation between
the two ends of every step relates the two ends of every run (`Run.relates`).
`restrict` keeps the steps that meet a condition.
-/

namespace Ns3.Lib

variable {σ ε : Type}

structure System (σ ε : Type) where
  init : σ → Prop
  step : σ → ε → σ → Prop

namespace System

/-- A run and the events it takes. -/
inductive Run (S : System σ ε) : σ → List ε → σ → Prop
  | nil (s : σ) : Run S s [] s
  | snoc {s s' s'' : σ} {es : List ε} {e : ε} :
      Run S s es s' → S.step s' e s'' → Run S s (es ++ [e]) s''

def Reachable (S : System σ ε) (s : σ) : Prop := ∃ s₀ es, S.init s₀ ∧ S.Run s₀ es s

/-- The steps that meet a condition on the state before and the event. -/
def restrict (S : System σ ε) (C : σ → ε → Prop) : System σ ε where
  init := S.init
  step s e s' := C s e ∧ S.step s e s'

variable {S : System σ ε}

theorem Run.invariant {P : σ → Prop} (hstep : ∀ s e s', P s → S.step s e s' → P s') {s s' : σ}
    {es : List ε} (h : S.Run s es s') (hs : P s) : P s' := by
  induction h with
  | nil => exact hs
  | snoc _ hlast ih => exact hstep _ _ _ ih hlast

/-- What holds initially and is kept by every step holds in every reachable state. -/
theorem Reachable.invariant {P : σ → Prop} (hinit : ∀ s, S.init s → P s)
    (hstep : ∀ s e s', P s → S.step s e s' → P s') {s : σ} (h : S.Reachable s) : P s := by
  obtain ⟨s₀, es, h₀, hrun⟩ := h
  exact hrun.invariant hstep (hinit s₀ h₀)

theorem Run.trans {s s' s'' : σ} {es es' : List ε} (h : S.Run s es s') (h' : S.Run s' es' s'') :
    S.Run s (es ++ es') s'' := by
  induction h' with
  | nil => simpa using h
  | snoc _ hlast ih =>
    rw [← List.append_assoc]
    exact ih.snoc hlast

theorem Reachable.run {s s' : σ} {es : List ε} (h : S.Reachable s) (h' : S.Run s es s') :
    S.Reachable s' := by
  obtain ⟨s₀, es₀, h₀, hrun⟩ := h
  exact ⟨s₀, _, h₀, hrun.trans h'⟩

theorem Run.of_restrict {P : σ → ε → Prop} {s s' : σ} {es : List ε}
    (h : (S.restrict P).Run s es s') : S.Run s es s' := by
  induction h with
  | nil => exact .nil _
  | snoc _ hlast ih => exact ih.snoc hlast.2

theorem Run.weaken {P Q : σ → ε → Prop} (hPQ : ∀ s e, P s e → Q s e) {s s' : σ} {es : List ε}
    (h : (S.restrict P).Run s es s') : (S.restrict Q).Run s es s' := by
  induction h with
  | nil => exact .nil _
  | snoc _ hlast ih => exact ih.snoc ⟨hPQ _ _ hlast.1, hlast.2⟩

theorem Reachable.weaken {P Q : σ → ε → Prop} (hPQ : ∀ s e, P s e → Q s e) {s : σ}
    (h : (S.restrict P).Reachable s) : (S.restrict Q).Reachable s := by
  obtain ⟨s₀, es, h₀, hrun⟩ := h
  exact ⟨s₀, es, h₀, hrun.weaken hPQ⟩

theorem Reachable.of_restrict {P : σ → ε → Prop} {s : σ} (h : (S.restrict P).Reachable s) :
    S.Reachable s := by
  obtain ⟨s₀, es, h₀, hrun⟩ := h
  exact ⟨s₀, es, h₀, hrun.of_restrict⟩

/-! ## Computed runs -/

/-- A run of a step function whose steps meet a condition. -/
def exec (f : σ → ε → Option σ) (P : σ → ε → Prop) [DecidableRel P] (s : σ) (es : List ε) :
    Option σ :=
  es.foldlM (fun s e => if P s e then f s e else none) s

theorem run_of_exec {f : σ → ε → Option σ} {P : σ → ε → Prop} [DecidableRel P]
    (hf : ∀ s e s', f s e = some s' → S.step s e s') {s s' : σ} {es : List ε}
    (h : exec f P s es = some s') : (S.restrict P).Run s es s' := by
  unfold exec at h
  induction es using List.reverseRecOn generalizing s' with
  | nil =>
    cases h
    exact .nil s
  | append_singleton es e ih =>
    simp only [List.foldlM_append, List.foldlM_cons, List.foldlM_nil, Option.bind_eq_bind,
      Option.bind_eq_some_iff] at h
    obtain ⟨s₁, h₁, s₂, h₂, hout⟩ := h
    cases hout
    split_ifs at h₂ with hP
    exact (ih h₁).snoc ⟨hP, hf _ _ _ h₂⟩

/-- What a computed run from an initial state shows is reached. -/
theorem reachable_of_exec {f : σ → ε → Option σ} {P : σ → ε → Prop} [DecidableRel P]
    (hf : ∀ s e s', f s e = some s' → S.step s e s') {s : σ} (hs : S.init s) {α : Type}
    {view : σ → α} {a : α} {es : List ε} (h : (exec f P s es).map view = some a) :
    ∃ s', (S.restrict P).Reachable s' ∧ view s' = a := by
  obtain ⟨s', hs', rfl⟩ := Option.map_eq_some_iff.mp h
  exact ⟨s', ⟨s, es, hs, run_of_exec hf hs'⟩, rfl⟩

/-! ## Preorders -/

/-- A preorder that holds across every step from a state with `P` holds across a whole run. -/
theorem Run.relates {P : σ → Prop} {R : σ → σ → Prop} (hP : ∀ s e s', P s → S.step s e s' → P s')
    (hrefl : ∀ s, P s → R s s) (htrans : ∀ s s' s'', R s s' → R s' s'' → R s s'')
    (hstep : ∀ s e s', P s → S.step s e s' → R s s') {s s' : σ} {es : List ε}
    (h : S.Run s es s') (hs : P s) : R s s' := by
  induction h with
  | nil => exact hrefl _ hs
  | snoc hrun hlast ih =>
    exact htrans _ _ _ ih (hstep _ _ _ (hrun.invariant hP hs) hlast)

end System

end Ns3.Lib
