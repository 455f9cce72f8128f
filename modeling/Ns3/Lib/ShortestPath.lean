import Mathlib.Algebra.Order.Monoid.Defs
import Mathlib.Data.List.Induction
import Mathlib.Order.Lattice

/-!
# Shortest paths

Paths in a graph with weighted edges, least distances, and the invariant of
every search that settles vertices in the order of their distance: the label of
a settled vertex is its distance, and every neighbour of it is relaxed. So the
label of the nearest vertex that is not settled is its distance, too. `inf`
bounds the labels from above; vertices that are that far away are never settled.
-/

namespace Ns3.Lib

/-! ## The nearest of a list -/

section Nearest

variable {α W : Type} [LinearOrder W]

/-- One turn of a loop that keeps what is least so far. -/
def nearer (best c : W × α) : W × α := if c.1 < best.1 then c else best

/-- The loop ends with its first value when nothing is less, and else with the first of the least. -/
theorem foldl_nearer (l : List (W × α)) (best : W × α) :
    (l.foldl nearer best = best ∧ ∀ c ∈ l, best.1 ≤ c.1) ∨
      ∃ l₁ c l₂, l = l₁ ++ c :: l₂ ∧ l.foldl nearer best = c ∧ c.1 < best.1 ∧
        (∀ a ∈ l₁, c.1 < a.1) ∧ ∀ a ∈ l₂, c.1 ≤ a.1 := by
  induction l using List.reverseRecOn with
  | nil => exact .inl ⟨rfl, fun c hc => absurd hc (by simp)⟩
  | append_singleton l b ih =>
    rw [List.foldl_append, List.foldl_cons, List.foldl_nil]
    rcases ih with ⟨hbest, hle⟩ | ⟨l₁, c, l₂, rfl, hc, hlt, h₁, h₂⟩
    · rw [hbest]
      unfold nearer
      split_ifs with hb
      · exact .inr ⟨l, b, [], rfl, rfl, hb, fun a ha => hb.trans_le (hle a ha), by simp⟩
      · refine .inl ⟨rfl, fun c hc => ?_⟩
        rcases List.mem_append.mp hc with hc | hc
        · exact hle c hc
        · obtain rfl := List.mem_singleton.mp hc
          exact not_lt.mp hb
    · rw [hc]
      unfold nearer
      split_ifs with hb
      · refine .inr ⟨l₁ ++ c :: l₂, b, [], rfl, rfl, hb.trans hlt, fun a ha => ?_, by simp⟩
        rcases List.mem_append.mp ha with ha | ha
        · exact hb.trans (h₁ a ha)
        · rcases List.mem_cons.mp ha with rfl | ha
          · exact hb
          · exact hb.trans_le (h₂ a ha)
      · refine .inr ⟨l₁, c, l₂ ++ [b], by rw [List.append_assoc, List.cons_append], rfl, hlt, h₁,
          fun a ha => ?_⟩
        rcases List.mem_append.mp ha with ha | ha
        · exact h₂ a ha
        · obtain rfl := List.mem_singleton.mp ha
          exact not_lt.mp hb

end Nearest

variable {V W : Type} [AddCommMonoid W] {G : V → V → Option W} {s u v x : V} {p q : List V}
  {d e w : W}

/-! ## Paths -/

/-- A path from `s`: the vertices it visits, the one it ends at, and its length. -/
inductive PathTo (G : V → V → Option W) (s : V) : List V → V → W → Prop
  | start : PathTo G s [s] s 0
  | step {p : List V} {u v : V} {d w : W} :
      PathTo G s p u d → G u v = some w → PathTo G s (p ++ [v]) v (d + w)

namespace PathTo

theorem exists_concat (h : PathTo G s p v d) : ∃ q, p = q ++ [v] := by
  cases h with
  | start => exact ⟨[], rfl⟩
  | step _ _ => exact ⟨_, rfl⟩

theorem exists_cons (h : PathTo G s p v d) : ∃ q, p = s :: q := by
  induction h with
  | start => exact ⟨[], rfl⟩
  | step _ _ ih =>
    obtain ⟨q, rfl⟩ := ih
    exact ⟨_, rfl⟩

/-- The part up to a vertex on the way, and the part from there on. -/
theorem split {pre post : List V} (h : PathTo G s (pre ++ x :: post) v d) :
    ∃ d₁ d₂, PathTo G s (pre ++ [x]) x d₁ ∧ PathTo G x (x :: post) v d₂ ∧ d = d₁ + d₂ := by
  generalize hp : pre ++ x :: post = p at h
  induction h generalizing post with
  | start =>
    obtain ⟨rfl, rfl, rfl⟩ : pre = [] ∧ x = s ∧ post = [] := by
      cases pre with
      | nil => simpa using hp
      | cons y pre => simp at hp
    exact ⟨0, 0, .start, .start, (add_zero 0).symm⟩
  | @step p u v d w hpath hedge ih =>
    rcases List.eq_nil_or_concat post with rfl | ⟨post, y, rfl⟩
    · obtain ⟨rfl, hx⟩ := List.append_inj' hp rfl
      cases hx
      exact ⟨d + w, 0, hpath.step hedge, .start, (add_zero _).symm⟩
    · rw [List.concat_eq_append] at hp ⊢
      have hp' : (pre ++ x :: post) ++ [y] = p ++ [v] := by
        rw [← hp, List.append_assoc, List.cons_append]
      obtain ⟨hpre, hy⟩ := List.append_inj' hp' rfl
      cases hy
      obtain ⟨d₁, d₂, h₁, h₂, rfl⟩ := ih hpre
      exact ⟨d₁, d₂ + w, h₁, h₂.step hedge, add_assoc _ _ _⟩

theorem append (h : PathTo G s p u d) (h' : PathTo G u (u :: q) v e) :
    PathTo G s (p ++ q) v (d + e) := by
  generalize hq : u :: q = r at h'
  induction h' generalizing q with
  | start =>
    cases hq
    rw [List.append_nil, add_zero]
    exact h
  | @step r y z e w hpath hedge ih =>
    obtain ⟨q', rfl⟩ := hpath.exists_cons
    have hq' : q = q' ++ [z] := by
      cases hq
      rfl
    rw [hq', ← List.append_assoc, ← add_assoc]
    exact (ih rfl).step hedge

variable [LinearOrder W] [IsOrderedCancelAddMonoid W]

theorem nonneg (hG : ∀ u v w, G u v = some w → 0 ≤ w) (h : PathTo G s p v d) : 0 ≤ d := by
  induction h with
  | start => exact le_rfl
  | step _ hedge ih => exact add_nonneg ih (hG _ _ _ hedge)

end PathTo

/-! ## Distances -/

variable [LinearOrder W]

/-- `d` is the length of a shortest path. -/
def IsDist (G : V → V → Option W) (s v : V) (d : W) : Prop :=
  (∃ p, PathTo G s p v d) ∧ ∀ p e, PathTo G s p v e → d ≤ e

theorem IsDist.unique (h : IsDist G s v d) (h' : IsDist G s v e) : d = e := by
  obtain ⟨⟨p, hp⟩, hd⟩ := h
  obtain ⟨⟨q, hq⟩, he⟩ := h'
  exact le_antisymm (hd q e hq) (he p d hp)

open Classical in
/-- The distance, or `inf` for what is out of reach or that far away. -/
noncomputable def distBelow (G : V → V → Option W) (s : V) (inf : W) (v : V) : W :=
  if h : ∃ d, IsDist G s v d ∧ d < inf then h.choose else inf

theorem distBelow_of_isDist {inf : W} (h : IsDist G s v d) (hd : d < inf) :
    distBelow G s inf v = d := by
  have hex : ∃ d, IsDist G s v d ∧ d < inf := ⟨d, h, hd⟩
  unfold distBelow
  rw [dif_pos hex]
  exact hex.choose_spec.1.unique h

theorem isDist_of_distBelow_lt {inf : W} (h : distBelow G s inf v < inf) :
    IsDist G s v (distBelow G s inf v) := by
  by_cases hex : ∃ d, IsDist G s v d ∧ d < inf
  · obtain ⟨d, hd, hlt⟩ := hex
    rw [distBelow_of_isDist hd hlt]
    exact hd
  · unfold distBelow at h
    rw [dif_neg hex] at h
    exact absurd h (lt_irrefl _)

section Split

variable [IsOrderedCancelAddMonoid W]

/-- A shortest path is shortest to every vertex on it. -/
theorem IsDist.split {pre post : List V} (h : IsDist G s v d)
    (hp : PathTo G s (pre ++ x :: post) v d) :
    ∃ d₁ d₂, IsDist G s x d₁ ∧ PathTo G x (x :: post) v d₂ ∧ d = d₁ + d₂ := by
  obtain ⟨d₁, d₂, h₁, h₂, rfl⟩ := hp.split
  refine ⟨d₁, d₂, ⟨⟨_, h₁⟩, fun q e hq => ?_⟩, h₂, rfl⟩
  have hle := h.2 _ _ (hq.append h₂)
  exact le_of_add_le_add_right hle

end Split

/-! ## Settling -/

section Ordered

variable [IsOrderedCancelAddMonoid W]

/-- Where every settled vertex is relaxed, no path is shorter than the label of its end or the
least label of a vertex that is not settled. -/
theorem PathTo.le_of_relaxed {done : V → Prop} {dist : V → W} {c : W}
    (hG : ∀ u v w, G u v = some w → 0 ≤ w) (hs : dist s ≤ 0)
    (hrelaxed : ∀ u v w, done u → G u v = some w → dist v ≤ dist u + w)
    (hc : ∀ v, ¬ done v → c ≤ dist v) (h : PathTo G s p v d) : dist v ≤ d ∨ c ≤ d := by
  induction h with
  | start => exact .inl hs
  | @step p u v d w _ hedge ih =>
    have hw := hG u v w hedge
    rcases ih with hle | hle
    · by_cases hdone : done u
      · exact .inl ((hrelaxed u v w hdone hedge).trans (add_le_add_left hle w))
      · exact .inr (((hc u hdone).trans hle).trans (le_add_of_nonneg_right hw))
    · exact .inr (hle.trans (le_add_of_nonneg_right hw))

end Ordered

/-- The labels of a search: `done` says which vertices are settled. -/
structure Labelled (G : V → V → Option W) (s : V) (inf : W) (done : V → Prop) (dist : V → W) :
    Prop where
  start : dist s = 0
  le_inf : ∀ v, dist v ≤ inf
  path : ∀ v, dist v < inf → ∃ p, PathTo G s p v (dist v)
  settled : ∀ v, done v → IsDist G s v (dist v)
  relaxed : ∀ u v w, done u → G u v = some w → dist v ≤ dist u + w

/-- The labels once `u` is settled. -/
def relax (G : V → V → Option W) (dist : V → W) (u v : V) : W :=
  match G u v with
  | some w => min (dist v) (dist u + w)
  | none => dist v

namespace Labelled

variable {inf : W} {done : V → Prop} {dist : V → W}

theorem relax_le (v : V) : relax G dist u v ≤ dist v := by
  unfold relax
  split
  · exact min_le_left _ _
  · exact le_rfl

/-- Settled vertices keep their labels. -/
theorem relax_of_done (h : Labelled G s inf done dist) (hu : dist u < inf) (hv : done v) :
    relax G dist u v = dist v := by
  unfold relax
  split
  · rename_i w hedge
    obtain ⟨p, hp⟩ := h.path u hu
    exact min_eq_left ((h.settled v hv).2 _ _ (hp.step hedge))
  · rfl

variable [IsOrderedCancelAddMonoid W]

/-- What is nearest of all that is not settled has its distance. -/
theorem isDist_nearest (h : Labelled G s inf done dist) (hG : ∀ u v w, G u v = some w → 0 ≤ w)
    (hu : dist u < inf) (hnear : ∀ v, ¬ done v → dist u ≤ dist v) : IsDist G s u (dist u) := by
  refine ⟨h.path u hu, fun p e hp => ?_⟩
  exact (hp.le_of_relaxed hG h.start.le h.relaxed hnear).elim id id

theorem relax_self (hG : ∀ u v w, G u v = some w → 0 ≤ w) : relax G dist u u = dist u := by
  unfold relax
  split
  · rename_i w hedge
    exact min_eq_left (le_add_of_nonneg_right (hG _ _ _ hedge))
  · rfl

/-- Settling the nearest vertex. -/
theorem settle (h : Labelled G s inf done dist) (hG : ∀ u v w, G u v = some w → 0 ≤ w)
    (hu : dist u < inf) (hnear : ∀ v, ¬ done v → dist u ≤ dist v) :
    Labelled G s inf (fun v => v = u ∨ done v) (relax G dist u) := by
  have hdist := h.isDist_nearest hG hu hnear
  have hkeep : ∀ v, v = u ∨ done v → relax G dist u v = dist v := by
    rintro v (rfl | hv)
    · exact relax_self hG
    · exact h.relax_of_done hu hv
  refine ⟨?_, fun v => (relax_le v).trans (h.le_inf v), ?_, ?_, ?_⟩
  · refine le_antisymm ((relax_le s).trans h.start.le) ?_
    unfold relax
    split
    · rename_i w hedge
      obtain ⟨p, hp⟩ := hdist.1
      exact le_min h.start.ge (add_nonneg (hp.nonneg hG) (hG _ _ _ hedge))
    · exact h.start.ge
  · intro v hv
    unfold relax at hv ⊢
    split at hv
    · rename_i w hedge
      rcases min_choice (dist v) (dist u + w) with hmin | hmin
      · rw [hmin] at hv ⊢
        exact h.path v hv
      · rw [hmin]
        obtain ⟨p, hp⟩ := hdist.1
        exact ⟨_, hp.step hedge⟩
    · exact h.path v hv
  · rintro v hv
    rw [hkeep v hv]
    rcases hv with rfl | hv
    · exact hdist
    · exact h.settled v hv
  · intro x v w hx hedge
    rw [hkeep x hx]
    rcases hx with rfl | hx
    · unfold relax
      rw [hedge]
      exact min_le_right _ _
    · exact (relax_le v).trans (h.relaxed x v w hx hedge)

/-- When all that is left is out of reach, the labels below `inf` are the distances. -/
theorem dist_eq (h : Labelled G s inf done dist) (hG : ∀ u v w, G u v = some w → 0 ≤ w)
    (hleft : ∀ v, ¬ done v → inf ≤ dist v) (hv : IsDist G s v d) (hd : d < inf) :
    done v ∧ dist v = d := by
  obtain ⟨⟨p, hp⟩, hleast⟩ := hv
  have hle : dist v ≤ d := by
    rcases hp.le_of_relaxed hG h.start.le h.relaxed hleft with hle | hle
    · exact hle
    · exact absurd hle (not_le.mpr hd)
  have hdone : done v := by
    by_contra hnot
    exact absurd ((hleft v hnot).trans hle) (not_le.mpr hd)
  exact ⟨hdone, (h.settled v hdone).unique ⟨⟨p, hp⟩, hleast⟩⟩

/-- Then the labels are the distances, up to `inf`. -/
theorem eq_distBelow (h : Labelled G s inf done dist) (hG : ∀ u v w, G u v = some w → 0 ≤ w)
    (hleft : ∀ v, ¬ done v → inf ≤ dist v) (v : V) : dist v = distBelow G s inf v := by
  by_cases hlt : dist v < inf
  · have hdone : done v := by
      by_contra hnot
      exact absurd hlt (not_lt.mpr (hleft v hnot))
    exact (distBelow_of_isDist (h.settled v hdone) hlt).symm
  · have hinf : dist v = inf := le_antisymm (h.le_inf v) (not_lt.mp hlt)
    rw [hinf]
    by_contra hne
    have hbelow : distBelow G s inf v < inf := by
      by_contra hnot
      unfold distBelow at hne hnot
      split_ifs at hne hnot with hex
      · exact hnot hex.choose_spec.2
      · exact hne rfl
    obtain ⟨-, heq⟩ := h.dist_eq hG hleft (isDist_of_distBelow_lt hbelow) hbelow
    rw [heq] at hlt
    exact hlt hbelow

end Labelled

end Ns3.Lib
