import Ns3.Ferry2.Precalculation
import Ns3.Lib.ShortestPath

/-!
# What the precalculation computes

A node is settled when it is popped with the distance stored for it. The search
keeps the invariant of `Labelled`; every node that is not settled and has a
distance is in the queue with it; and the parents of a node lead back to the
start along a path of that length, through settled nodes only. Settling a node
uses up its edges, so that the queue runs empty.
-/

namespace Ns3.Ferry2

open Ns3.Lib

/-- The weight of the edge from `u` to `v`; an edge to a node that is not on the map is none. -/
def UavMap.edge (nodes : UavMap) (u v : Pos) : Option ℚ := do
  let node ← nodes.find u
  let w ← node.neighborNodesforUAV.find v
  if nodes.contains v then some w else none

/-- No edge has a negative weight. -/
def UavMap.Nonneg (nodes : UavMap) : Prop := ∀ u v w, nodes.edge u v = some w → 0 ≤ w

namespace PairSearch

/-- The distance stored, with `inf` for what is not on the map. -/
def label (st : PairSearch) (v : Pos) : ℚ := (st.dist.find v).getD maxWeight

/-! ## The edges of a node -/

section Relax

variable {u v : Pos} {st : PairSearch} {du : ℚ}

/-- An edge of `u` improves `v`. -/
def Improves (st : PairSearch) (du : ℚ) (es : List (Pos × ℚ)) (v : Pos) (d : ℚ) : Prop :=
  ∃ w dv, (v, w) ∈ es ∧ st.dist.find v = some dv ∧ d = du + w ∧ d < dv

/-- What the loop over the edges `es` of `u` leaves. -/
structure Relaxed (u : Pos) (du : ℚ) (es : List (Pos × ℚ)) (st st' : PairSearch) : Prop where
  keys : ∀ v, st'.dist.find v = none ↔ st.dist.find v = none
  improved : ∀ v d, st.Improves du es v d → st'.dist.find v = some d ∧ st'.parent.find v = some u ∧
    toLex (d, v) ∈ st'.pq
  kept : ∀ v, (∀ d, ¬ st.Improves du es v d) →
    st'.dist.find v = st.dist.find v ∧ st'.parent.find v = st.parent.find v
  queue : ∀ e ∈ st'.pq, e ∈ st.pq ∨ st.Improves du es (ofLex e).2 (ofLex e).1
  stays : ∀ e ∈ st.pq, e ∈ st'.pq
  sorted : st.pq.Pairwise (· ≤ ·) → st'.pq.Pairwise (· ≤ ·)
  length : st'.pq.length ≤ st.pq.length + es.length
  idle : (∀ v d, ¬ st.Improves du es v d) → st' = st

theorem relaxEdge_of_lt {w dv : ℚ} (hu : st.dist.find u = some du) (hv : st.dist.find v = some dv)
    (hlt : du + w < dv) : relaxEdge u st (v, w) =
      { dist := st.dist.assign v (du + w)
        parent := st.parent.assign v u
        pq := st.pq.orderedInsert (· ≤ ·) (toLex (du + w, v)) } := by
  unfold relaxEdge
  rw [hu, hv]
  exact if_pos hlt

theorem relaxEdge_of_not_lt {w : ℚ} (hu : st.dist.find u = some du)
    (h : ¬ ∃ dv, st.dist.find v = some dv ∧ du + w < dv) : relaxEdge u st (v, w) = st := by
  unfold relaxEdge
  rw [hu]
  cases hv : st.dist.find v with
  | none => rfl
  | some dv => exact if_neg fun hlt => h ⟨dv, hv, hlt⟩

/-- One improvement, then the other edges. -/
theorem Relaxed.cons {es : List (Pos × ℚ)} {st' : PairSearch} {w dv : ℚ}
    (hv : st.dist.find v = some dv) (hlt : du + w < dv) (hnew : ∀ e ∈ es, e.1 ≠ v)
    (h : Relaxed u du es
      { dist := st.dist.assign v (du + w)
        parent := st.parent.assign v u
        pq := st.pq.orderedInsert (· ≤ ·) (toLex (du + w, v)) } st') :
    Relaxed u du ((v, w) :: es) st st' := by
  have hother : ∀ {x d}, x ≠ v → (Improves
      { dist := st.dist.assign v (du + w)
        parent := st.parent.assign v u
        pq := st.pq.orderedInsert (· ≤ ·) (toLex (du + w, v)) } du es x d ↔
        st.Improves du ((v, w) :: es) x d) := by
    intro x d hx
    unfold Improves
    dsimp only
    rw [StdMap.find_assign, if_neg hx]
    constructor
    · rintro ⟨w', d', hmem, hrest⟩
      exact ⟨w', d', List.mem_cons_of_mem _ hmem, hrest⟩
    · rintro ⟨w', d', hmem, hrest⟩
      rcases List.mem_cons.mp hmem with heq | hmem
      · exact absurd (congrArg Prod.fst heq) hx
      · exact ⟨w', d', hmem, hrest⟩
  have hdone : ∀ d, ¬ Improves
      { dist := st.dist.assign v (du + w)
        parent := st.parent.assign v u
        pq := st.pq.orderedInsert (· ≤ ·) (toLex (du + w, v)) } du es v d := by
    rintro d ⟨w', d', hmem, -⟩
    exact hnew (v, w') hmem rfl
  have hself : st.Improves du ((v, w) :: es) v (du + w) := ⟨w, dv, by simp, hv, rfl, hlt⟩
  have honly : ∀ {d}, st.Improves du ((v, w) :: es) v d → d = du + w := by
    rintro d ⟨w', d', hmem, -, rfl, -⟩
    rcases List.mem_cons.mp hmem with heq | hmem
    · cases heq
      rfl
    · exact absurd rfl (hnew (v, w') hmem)
  refine ⟨fun x => ?_, fun x d hx => ?_, fun x hx => ?_, fun e he => ?_, fun e he => ?_,
    fun hs => ?_, ?_, fun hidle => absurd hself (hidle _ _)⟩
  · rw [h.keys]
    dsimp only
    rw [StdMap.find_assign]
    split_ifs with hxv
    · rw [hxv, hv]
      simp
    · rfl
  · by_cases hxv : x = v
    · subst hxv
      obtain rfl := honly hx
      obtain ⟨hdist, hparent⟩ := h.kept x hdone
      dsimp only at hdist hparent
      rw [StdMap.find_assign, if_pos rfl] at hdist hparent
      refine ⟨hdist, hparent, h.stays _ ?_⟩
      exact (List.mem_orderedInsert _).mpr (.inl rfl)
    · exact h.improved x d ((hother hxv).mpr hx)
  · have hxv : x ≠ v := by
      rintro rfl
      exact hx _ hself
    obtain ⟨hdist, hparent⟩ := h.kept x fun d hd => hx d ((hother hxv).mp hd)
    dsimp only at hdist hparent
    rw [StdMap.find_assign, if_neg hxv] at hdist hparent
    exact ⟨hdist, hparent⟩
  · rcases h.queue e he with hold | himp
    · rcases (List.mem_orderedInsert _).mp hold with rfl | hold
      · exact .inr hself
      · exact .inl hold
    · by_cases hev : (ofLex e).2 = v
      · rw [hev] at himp
        exact absurd himp (hdone _)
      · exact .inr ((hother hev).mp himp)
  · exact h.stays e ((List.mem_orderedInsert _).mpr (.inr he))
  · exact h.sorted (hs.orderedInsert _ _)
  · have hlen := h.length
    dsimp only at hlen
    rw [List.orderedInsert_length] at hlen
    rw [List.length_cons]
    omega

theorem Relaxed.skip {es : List (Pos × ℚ)} {st' : PairSearch} {w : ℚ}
    (hnot : ¬ ∃ dv, st.dist.find v = some dv ∧ du + w < dv) (h : Relaxed u du es st st') :
    Relaxed u du ((v, w) :: es) st st' := by
  have hsame : ∀ {x d}, st.Improves du ((v, w) :: es) x d ↔ st.Improves du es x d := by
    intro x d
    constructor
    · rintro ⟨w', d', hmem, hd', rfl, hlt⟩
      rcases List.mem_cons.mp hmem with heq | hmem
      · cases heq
        exact absurd ⟨d', hd', hlt⟩ hnot
      · exact ⟨w', d', hmem, hd', rfl, hlt⟩
    · rintro ⟨w', d', hmem, hrest⟩
      exact ⟨w', d', List.mem_cons_of_mem _ hmem, hrest⟩
  refine ⟨h.keys, fun x d hx => h.improved x d (hsame.mp hx),
    fun x hx => h.kept x fun d hd => hx d (hsame.mpr hd), fun e he => ?_, h.stays, h.sorted, ?_,
    fun hidle => h.idle fun x d hd => hidle x d (hsame.mpr hd)⟩
  · exact (h.queue e he).imp_right hsame.mpr
  · have hlen := h.length
    rw [List.length_cons]
    omega

theorem relaxed_foldl {es : List (Pos × ℚ)} (hes : es.Pairwise fun a b => a.1 < b.1)
    (hpos : ∀ w, (u, w) ∈ es → 0 ≤ w) (hu : st.dist.find u = some du) :
    Relaxed u du es st (es.foldl (relaxEdge u) st) := by
  induction es generalizing st with
  | nil =>
    refine ⟨fun _ => Iff.rfl, ?_, fun _ _ => ⟨rfl, rfl⟩, fun e he => .inl he, fun e he => he, id,
      le_rfl, fun _ => rfl⟩
    rintro v d ⟨w, dv, hmem, -⟩
    cases hmem
  | cons e es ih =>
    obtain ⟨v, w⟩ := e
    obtain ⟨hnew, hes⟩ := List.pairwise_cons.mp hes
    have hpos' := fun w hw => hpos w (List.mem_cons_of_mem _ hw)
    rw [List.foldl_cons]
    by_cases himp : ∃ dv, st.dist.find v = some dv ∧ du + w < dv
    · obtain ⟨dv, hv, hlt⟩ := himp
      rw [relaxEdge_of_lt hu hv hlt]
      refine .cons hv hlt (fun e he => (hnew e he).ne') (ih hes hpos' ?_)
      -- no edge improves its own start
      have hne : u ≠ v := by
        rintro rfl
        rw [hu] at hv
        cases hv
        exact absurd hlt (not_lt.mpr (le_add_of_nonneg_right (hpos w (by simp))))
      dsimp only
      rw [StdMap.find_assign, if_neg hne, hu]
    · rw [relaxEdge_of_not_lt hu himp]
      exact .skip himp (ih hes hpos' hu)

end Relax

/-! ## The invariant -/

/-- The parents of `v` lead back to the start, by way of `p`. -/
inductive Traced (parent : StdMap Pos Pos) (s : Pos) : List Pos → Pos → Prop
  | start : Traced parent s [s] s
  | step {p : List Pos} {u v : Pos} :
      v ≠ s → parent.find v = some u → Traced parent s p u → Traced parent s (p ++ [v]) v

theorem Traced.congr {parent parent' : StdMap Pos Pos} {s v : Pos} {p : List Pos}
    (h : Traced parent s p v) (hp : ∀ x ∈ p, parent'.find x = parent.find x) :
    Traced parent' s p v := by
  induction h with
  | start => exact .start
  | @step p u v hne hu _ ih =>
    refine .step hne ?_ (ih fun x hx => hp x (List.mem_append_left _ hx))
    rw [hp v (List.mem_append_right _ (by simp)), hu]

/-- The search, with the nodes `done` settled. -/
structure Sound (nodes : UavMap) (s : Pos) (done : List Pos) (st : PairSearch) : Prop where
  labelled : Labelled nodes.edge s maxWeight (· ∈ done) st.label
  keys : ∀ v, st.dist.find v = none ↔ nodes.find v = none
  queued : ∀ v, v ∉ done → st.label v < maxWeight → toLex (st.label v, v) ∈ st.pq
  above : ∀ e ∈ st.pq, st.label (ofLex e).2 ≤ (ofLex e).1 ∧ st.label (ofLex e).2 < maxWeight
  sorted : st.pq.Pairwise (· ≤ ·)
  traced : ∀ v, st.label v < maxWeight → ∃ p, Traced st.parent s p v ∧
    PathTo nodes.edge s p v (st.label v) ∧ p.Nodup ∧ ∀ x ∈ p, x ≠ v → x ∈ done
  untraced : ∀ v, maxWeight ≤ st.label v → nodes.find v ≠ none →
    st.parent.find v = some dummyParent

section Visit

variable {nodes : UavMap} {s u v : Pos} {done : List Pos} {st st' : PairSearch} {node : UavNode}
  {d du : ℚ}

theorem edge_eq_some (hu : nodes.find u = some node) {w : ℚ} :
    nodes.edge u v = some w ↔ node.neighborNodesforUAV.find v = some w ∧ nodes.find v ≠ none := by
  unfold UavMap.edge
  rw [hu, Option.bind_eq_bind, Option.bind_some]
  cases hv : node.neighborNodesforUAV.find v with
  | none => simp
  | some w' =>
    rw [Option.bind_eq_bind, Option.bind_some]
    cases hn : nodes.find v with
    | none => simp [StdMap.contains, hn]
    | some n => simp [StdMap.contains, hn]

theorem label_of_find (h : st.dist.find v = some d) : st.label v = d := by
  unfold label
  rw [h, Option.getD_some]

theorem find_of_label_lt (hv : st.label v < maxWeight) :
    st.dist.find v = some (st.label v) := by
  unfold label at hv ⊢
  cases hfind : st.dist.find v with
  | none =>
    rw [hfind] at hv
    exact absurd hv (lt_irrefl _)
  | some d => rfl

theorem improves_iff (hkeys : ∀ v, st.dist.find v = none ↔ nodes.find v = none)
    (hu : nodes.find u = some node) :
    st.Improves du node.neighborNodesforUAV.entries v d ↔
      ∃ w, nodes.edge u v = some w ∧ d = du + w ∧ d < st.label v := by
  unfold Improves
  constructor
  · rintro ⟨w, dv, hmem, hv, rfl, hlt⟩
    refine ⟨w, (edge_eq_some hu).mpr ⟨StdMap.mem_entries.mp hmem, fun hnone => ?_⟩, rfl, ?_⟩
    · rw [← hkeys, hv] at hnone
      cases hnone
    · rwa [label_of_find hv]
  · rintro ⟨w, hedge, rfl, hlt⟩
    obtain ⟨hw, hon⟩ := (edge_eq_some hu).mp hedge
    obtain ⟨dv, hv⟩ := Option.ne_none_iff_exists'.mp fun hnone => hon ((hkeys v).mp hnone)
    rw [label_of_find hv] at hlt
    exact ⟨w, dv, StdMap.mem_entries.mpr hw, hv, rfl, hlt⟩

/-- The labels are those of `relax`. -/
theorem label_relaxed (hkeys : ∀ v, st.dist.find v = none ↔ nodes.find v = none)
    (hu : nodes.find u = some node)
    (hr : Relaxed u (st.label u) node.neighborNodesforUAV.entries st st') (v : Pos) :
    st'.label v = relax nodes.edge st.label u v := by
  unfold relax
  cases hedge : nodes.edge u v with
  | none =>
    have hkept := (hr.kept v fun d hd => by
      obtain ⟨w, hw, -⟩ := (improves_iff hkeys hu).mp hd
      rw [hedge] at hw
      cases hw).1
    unfold label
    rw [hkept]
  | some w =>
    dsimp only
    by_cases hlt : st.label u + w < st.label v
    · have himp := (hr.improved v _ ((improves_iff hkeys hu).mpr ⟨w, hedge, rfl, hlt⟩)).1
      rw [label_of_find himp, min_eq_right hlt.le]
    · have hkept := (hr.kept v fun d hd => by
        obtain ⟨w', hw', rfl, hlt'⟩ := (improves_iff hkeys hu).mp hd
        rw [hedge] at hw'
        cases hw'
        exact hlt hlt').1
      rw [min_eq_left (not_lt.mp hlt)]
      unfold label
      rw [hkept]

/-- What is popped with its own distance and is not settled yet is the nearest. -/
theorem Sound.nearest {top : ℚ ×ₗ Pos} {rest : List (ℚ ×ₗ Pos)} (h : Sound nodes s done st)
    (hpq : st.pq = top :: rest) (hd : st.label (ofLex top).2 = (ofLex top).1) :
    ∀ v, v ∉ done → st.label (ofLex top).2 ≤ st.label v := by
  intro v hv
  have hsorted := h.sorted
  rw [hpq] at hsorted
  have habove := (h.above top (by rw [hpq]; simp)).2
  by_cases hlt : st.label v < maxWeight
  · have hmem := h.queued v hv hlt
    rw [hpq] at hmem
    rcases List.mem_cons.mp hmem with heq | hmem
    · rw [← heq]
      exact le_rfl
    · have hle := List.rel_of_pairwise_cons hsorted hmem
      rw [hd]
      exact (Prod.Lex.toLex_le_toLex'.mp hle).1
  · exact habove.le.trans (not_lt.mp hlt)

/-- Settling the node `u`. -/
theorem Sound.settle (h : Sound nodes s done st) (hpos : nodes.Nonneg)
    (hu : nodes.find u = some node) (hnew : u ∉ done) (hlt : st.label u < maxWeight)
    (hnear : ∀ v, v ∉ done → st.label u ≤ st.label v) {rest : List (ℚ ×ₗ Pos)}
    (hpq : st.pq = toLex (st.label u, u) :: rest)
    (hr : Relaxed u (st.label u) node.neighborNodesforUAV.entries { st with pq := rest } st') :
    Sound nodes s (u :: done) st' := by
  have hkeys : ∀ v, ({ st with pq := rest } : PairSearch).dist.find v = none ↔
      nodes.find v = none := h.keys
  have hlabel : ∀ v, st'.label v = relax nodes.edge st.label u v := fun v =>
    label_relaxed hkeys hu hr v
  have hiff : ∀ v d, ({ st with pq := rest } : PairSearch).Improves (st.label u)
      node.neighborNodesforUAV.entries v d ↔
        ∃ w, nodes.edge u v = some w ∧ d = st.label u + w ∧ d < st.label v := fun v d =>
    improves_iff hkeys hu
  have hsettled := h.labelled.settle hpos hlt hnear
  have hset : (fun v => v = u ∨ v ∈ done) = fun v => v ∈ u :: done := by
    funext v
    rw [List.mem_cons]
  have hfun : relax nodes.edge st.label u = st'.label := funext fun v => (hlabel v).symm
  rw [hset, hfun] at hsettled
  -- a node with the label it had keeps its parent
  have hkept : ∀ v, st'.label v = st.label v → st'.parent.find v = st.parent.find v := by
    intro v hv
    refine (hr.kept v fun d hd => ?_).2
    have himp := (hr.improved v d hd).1
    obtain ⟨w, hw, rfl, hlt'⟩ := (hiff v d).mp hd
    rw [label_of_find himp] at hv
    exact absurd hv hlt'.ne
  have hdone : ∀ v ∈ u :: done, st'.label v = st.label v := by
    intro v hv
    rw [hlabel]
    rcases List.mem_cons.mp hv with rfl | hv
    · exact Labelled.relax_self hpos
    · exact h.labelled.relax_of_done hlt hv
  have himproved : ∀ v, st'.label v ≠ st.label v → ∃ w, nodes.edge u v = some w ∧
      st'.label v = st.label u + w ∧ st.label u + w < st.label v ∧ v ∉ u :: done ∧
        st'.parent.find v = some u ∧ toLex (st'.label v, v) ∈ st'.pq := by
    intro v hv
    by_cases himp : ∃ d, ({ st with pq := rest } : PairSearch).Improves (st.label u)
        node.neighborNodesforUAV.entries v d
    · obtain ⟨d, hd⟩ := himp
      obtain ⟨hdist, hparent, hmem⟩ := hr.improved v d hd
      obtain ⟨w, hw, rfl, hlt'⟩ := (hiff v d).mp hd
      rw [label_of_find hdist]
      exact ⟨w, hw, rfl, hlt', fun hin => hv (hdone v hin), hparent, hmem⟩
    · refine absurd ?_ hv
      have hdist := (hr.kept v fun d hd => himp ⟨d, hd⟩).1
      unfold label
      rw [hdist]
  have hle : ∀ v, st'.label v ≤ st.label v := fun v => by
    rw [hlabel]
    exact Labelled.relax_le v
  obtain ⟨pu, htrace, hpath, hnodup, hinner⟩ := h.traced u hlt
  have hpu : ∀ x ∈ pu, x ∈ u :: done := by
    intro x hx
    by_cases hxu : x = u
    · rw [hxu]
      exact List.mem_cons_self
    · exact List.mem_cons_of_mem _ (hinner x hx hxu)
  refine ⟨hsettled, fun v => (hr.keys v).trans (h.keys v), fun v hv hvlt => ?_, fun e he => ?_,
    ?_, fun v hvlt => ?_, fun v hv hon => ?_⟩
  · by_cases hsame : st'.label v = st.label v
    · rw [List.mem_cons, not_or] at hv
      have hmem := h.queued v hv.2 (hsame ▸ hvlt)
      rw [hpq] at hmem
      rw [hsame]
      rcases List.mem_cons.mp hmem with heq | hmem
      · exact absurd (congrArg (fun e => (ofLex e).2) heq) hv.1
      · exact hr.stays _ hmem
    · obtain ⟨-, -, -, -, -, -, hmem⟩ := himproved v hsame
      exact hmem
  · rcases hr.queue e he with hold | himp
    · have hold' : e ∈ st.pq := by
        rw [hpq]
        exact List.mem_cons_of_mem _ hold
      obtain ⟨hge, hlt'⟩ := h.above e hold'
      exact ⟨(hle _).trans hge, (hle _).trans_lt hlt'⟩
    · have hdist := (hr.improved _ _ himp).1
      obtain ⟨w, hw, heq, hlt'⟩ := (hiff _ _).mp himp
      rw [label_of_find hdist]
      exact ⟨le_rfl, hlt'.trans_le (h.labelled.le_inf _)⟩
  · refine hr.sorted ?_
    have hsorted := h.sorted
    rw [hpq] at hsorted
    exact (List.pairwise_cons.mp hsorted).2
  · by_cases hsame : st'.label v = st.label v
    · obtain ⟨p, hp, hpath', hnodup', hinner'⟩ := h.traced v (hsame ▸ hvlt)
      have hpdone : ∀ x ∈ p, x ≠ v → x ∈ u :: done := fun x hx hne =>
        List.mem_cons_of_mem _ (hinner' x hx hne)
      refine ⟨p, hp.congr fun x hx => hkept x ?_, hsame ▸ hpath', hnodup', hpdone⟩
      by_cases hxv : x = v
      · rw [hxv, hsame]
      · exact hdone x (hpdone x hx hxv)
    · obtain ⟨w, hw, heq, hlt', hnot, hparent, -⟩ := himproved v hsame
      have hnonneg := add_nonneg (hpath.nonneg hpos) (hpos u v w hw)
      refine ⟨pu ++ [v], .step ?_ hparent (htrace.congr fun x hx => hkept x (hdone x (hpu x hx))),
        heq ▸ hpath.step hw, ?_, fun x hx hne => ?_⟩
      · rintro rfl
        rw [h.labelled.start] at hlt'
        exact absurd hlt' (not_lt.mpr hnonneg)
      · rw [List.nodup_append]
        refine ⟨hnodup, List.nodup_singleton v, fun x hx y hy hxy => ?_⟩
        rw [List.mem_singleton] at hy
        rw [hxy, hy] at hx
        exact hnot (hpu v hx)
      · rcases List.mem_append.mp hx with hx | hx
        · exact hpu x hx
        · exact absurd (List.mem_singleton.mp hx) hne
  · have hsame : st'.label v = st.label v :=
      le_antisymm (hle v) ((h.labelled.le_inf v).trans hv)
    rw [hkept v hsame]
    exact h.untraced v (hsame ▸ hv) hon

end Visit

/-! ## The main loop -/

section Loop

variable {nodes : UavMap} {s u : Pos} {done : List Pos} {st : PairSearch}

/-- The edges of the nodes that are not settled. -/
def pending (nodes : UavMap) (done : List Pos) : ℕ :=
  ((nodes.entries.filter fun e => e.1 ∉ done).map fun e => e.2.neighborNodesforUAV.size).sum

theorem pending_settle {node : UavNode} (hu : nodes.find u = some node) (hnew : u ∉ done) :
    pending nodes (u :: done) + node.neighborNodesforUAV.size = pending nodes done := by
  obtain ⟨l₁, l₂, hsplit⟩ := List.append_of_mem (StdMap.mem_entries.mpr hu)
  have hsorted := nodes.sorted
  rw [hsplit, List.pairwise_append] at hsorted
  obtain ⟨-, htail, hbefore⟩ := hsorted
  have hrest : ∀ l : List (Pos × UavNode), (∀ e ∈ l, e.1 ≠ u) →
      (l.filter fun e => e.1 ∉ u :: done) = l.filter fun e => e.1 ∉ done := by
    intro l hl
    refine List.filter_congr fun e he => ?_
    simp [List.mem_cons, hl e he]
  have h₁ := hrest l₁ fun e he => (hbefore e he (u, node) (by simp)).ne
  have h₂ := hrest l₂ fun e he => (List.rel_of_pairwise_cons htail he).ne'
  unfold pending
  rw [hsplit, List.filter_append, List.filter_append, h₁,
    List.filter_cons_of_neg (by simp), h₂, List.filter_cons_of_pos (by simpa using hnew)]
  simp only [List.map_append, List.sum_append, List.map_cons, List.sum_cons]
  omega

/-- An element leaves the queue, and its node is settled if it was not yet. -/
theorem Sound.visit (h : Sound nodes s done st) (hpos : nodes.Nonneg) {top : ℚ ×ₗ Pos}
    {rest : List (ℚ ×ₗ Pos)} (hpq : st.pq = top :: rest) :
    ∃ st' done', PairSearch.visit nodes { st with pq := rest } (ofLex top).1 (ofLex top).2 =
        some st' ∧ Sound nodes s done' st' ∧
      st'.pq.length + pending nodes done' < st.pq.length + pending nodes done := by
  obtain ⟨hle, hlt⟩ := h.above top (by rw [hpq]; simp)
  have hdist := find_of_label_lt hlt
  have hsorted := h.sorted
  rw [hpq] at hsorted
  -- the queue without its first element
  have hdrop : (∀ v, v ∉ done → st.label v < maxWeight → toLex (st.label v, v) ≠ top) →
      Sound nodes s done { st with pq := rest } := by
    intro hne
    refine ⟨h.labelled, h.keys, fun v hv hvlt => ?_, fun e he => ?_,
      (List.pairwise_cons.mp hsorted).2, h.traced, h.untraced⟩
    · have hmem := h.queued v hv hvlt
      rw [hpq] at hmem
      exact (List.mem_cons.mp hmem).resolve_left (hne v hv hvlt)
    · exact h.above e (by rw [hpq]; exact List.mem_cons_of_mem _ he)
  have hshort : rest.length + pending nodes done < st.pq.length + pending nodes done := by
    rw [hpq, List.length_cons]
    omega
  unfold PairSearch.visit
  dsimp only
  rw [hdist]
  dsimp only
  by_cases hstale : st.label (ofLex top).2 < (ofLex top).1
  · rw [if_pos hstale]
    refine ⟨_, done, rfl, hdrop fun v _ _ heq => ?_, hshort⟩
    rw [← heq] at hstale
    exact absurd hstale (lt_irrefl _)
  · rw [if_neg hstale]
    have hd : st.label (ofLex top).2 = (ofLex top).1 := le_antisymm hle (not_lt.mp hstale)
    have hon : nodes.find (ofLex top).2 ≠ none := by
      rw [Ne, ← h.keys, hdist]
      exact Option.some_ne_none _
    obtain ⟨node, hnode⟩ := Option.ne_none_iff_exists'.mp hon
    rw [hnode, Option.bind_eq_bind, Option.bind_some]
    have hself : ∀ w, ((ofLex top).2, w) ∈ node.neighborNodesforUAV.entries → 0 ≤ w :=
      fun w hw => hpos _ _ w ((edge_eq_some hnode).mpr ⟨StdMap.mem_entries.mp hw, hon⟩)
    have hdist' : ({ st with pq := rest } : PairSearch).dist.find (ofLex top).2 = _ := hdist
    have hr := relaxed_foldl node.neighborNodesforUAV.sorted hself hdist'
    by_cases hdone : (ofLex top).2 ∈ done
    · -- its edges are relaxed already
      have hkeys : ∀ v, ({ st with pq := rest } : PairSearch).dist.find v = none ↔
          nodes.find v = none := h.keys
      have hidle := hr.idle fun v d himp => by
        obtain ⟨w, hw, rfl, hlt'⟩ := (improves_iff hkeys hnode).mp himp
        exact absurd hlt' (not_lt.mpr (h.labelled.relaxed _ _ _ hdone hw))
      rw [hidle]
      refine ⟨_, done, rfl, hdrop fun v hv _ heq => ?_, hshort⟩
      rw [← heq] at hdone
      exact hv hdone
    · have htop : st.pq = toLex (st.label (ofLex top).2, (ofLex top).2) :: rest := by
        rw [hpq, hd]
        rfl
      refine ⟨_, (ofLex top).2 :: done, rfl,
        h.settle hpos hnode hdone hlt (h.nearest hpq hd) htop hr, ?_⟩
      have hlen := hr.length
      have hpending := pending_settle hnode hdone
      have hsize : node.neighborNodesforUAV.size = node.neighborNodesforUAV.entries.length := rfl
      dsimp only at hlen
      rw [hpq, List.length_cons]
      omega

/-- The queue runs empty within as many turns as it has elements, now or from edges to come. -/
theorem Sound.loop (hpos : nodes.Nonneg) (n : ℕ) (h : Sound nodes s done st)
    (hn : st.pq.length + pending nodes done ≤ n) :
    ∃ st' done', (∀ k, n < k → PairSearch.loop nodes k st = some st') ∧ Sound nodes s done' st' ∧
      st'.pq = [] := by
  induction n generalizing st done with
  | zero =>
    have hnil : st.pq = [] := List.length_eq_zero_iff.mp (by omega)
    refine ⟨st, done, fun k hk => ?_, h, hnil⟩
    obtain ⟨k, rfl⟩ := Nat.exists_eq_add_of_lt hk
    rw [Nat.zero_add, PairSearch.loop, hnil]
  | succ n ih =>
    cases hpq : st.pq with
    | nil =>
      refine ⟨st, done, fun k hk => ?_, h, hpq⟩
      obtain ⟨k, rfl⟩ := Nat.exists_eq_add_of_lt hk
      rw [PairSearch.loop, hpq]
    | cons top rest =>
      obtain ⟨st₁, done₁, hvisit, h₁, hless⟩ := h.visit hpos hpq
      obtain ⟨st', done', hloop, h', hnil⟩ := ih h₁ (by omega)
      refine ⟨st', done', fun k hk => ?_, h', hnil⟩
      obtain ⟨k, rfl⟩ : ∃ j, k = j + 1 := ⟨k - 1, by omega⟩
      rw [PairSearch.loop, hpq]
      dsimp only
      rw [hvisit, Option.bind_eq_bind, Option.bind_some]
      exact hloop k (by omega)

theorem maxWeight_pos : 0 < maxWeight := by
  decide +kernel

theorem find_start (v : Pos) : (start nodes s).dist.find v =
    if v = s then some 0 else (nodes.find v).map fun _ => maxWeight := by
  unfold start
  dsimp only
  rw [StdMap.find_assign, StdMap.find_filterMap]
  split_ifs
  · rfl
  · cases nodes.find v <;> rfl

theorem label_start (v : Pos) : (start nodes s).label v = if v = s then 0 else maxWeight := by
  unfold label
  rw [find_start]
  split_ifs
  · rfl
  · cases nodes.find v <;> rfl

theorem Sound.init (hs : nodes.find s ≠ none) : Sound nodes s [] (.start nodes s) := by
  have hself : ∀ v, (start nodes s).label v < maxWeight → v = s := by
    intro v hv
    rw [label_start] at hv
    split_ifs at hv with hvs
    · exact hvs
    · exact absurd hv (lt_irrefl _)
  have hzero : (start nodes s).label s = 0 := by
    rw [label_start, if_pos rfl]
  refine ⟨⟨hzero, fun v => ?_, fun v hv => ?_, fun v hv => ?_, fun u v w hu => ?_⟩,
    fun v => ?_, fun v _ hv => ?_, fun e he => ?_, List.pairwise_singleton _ _, fun v hv => ?_,
    fun v _ hon => ?_⟩
  · rw [label_start]
    split_ifs
    · exact maxWeight_pos.le
    · exact le_rfl
  · rw [hself v hv, hzero]
    exact ⟨_, .start⟩
  · cases hv
  · cases hu
  · rw [find_start]
    split_ifs with hvs
    · rw [hvs]
      simp [hs]
    · rw [Option.map_eq_none_iff]
  · rw [hself v hv, hzero]
    exact List.mem_singleton.mpr rfl
  · obtain rfl := List.mem_singleton.mp he
    have hof : (ofLex (toLex ((0 : ℚ), s))).2 = s := rfl
    rw [hof, hzero]
    exact ⟨le_rfl, maxWeight_pos⟩
  · rw [hself v hv, hzero]
    exact ⟨[s], .start, .start, List.nodup_singleton s,
      fun x hx hne => absurd (List.mem_singleton.mp hx) hne⟩
  · obtain ⟨node, hnode⟩ := Option.ne_none_iff_exists'.mp hon
    unfold start
    dsimp only
    rw [StdMap.find_filterMap, hnode, Option.bind_some]

end Loop

end PairSearch

open PairSearch

section Search

variable {nodes : UavMap} {s u v : Pos} {st : PairSearch} {done : List Pos} {k : ℕ}

/-- A search comes to an end with everything in reach settled. -/
theorem dijkstraPair_spec (hpos : nodes.Nonneg) (hs : nodes.find s ≠ none) :
    ∃ st done, (∀ k, pending nodes [] + 1 < k → dijkstraPair k nodes s = some st) ∧
      Sound nodes s done st ∧ ∀ v, v ∉ done → maxWeight ≤ st.label v := by
  obtain ⟨st, done, hloop, h, hnil⟩ := (Sound.init hs).loop hpos (pending nodes [] + 1) (by
    unfold start
    rw [List.length_singleton]
    omega)
  refine ⟨st, done, hloop, h, fun v hv => ?_⟩
  by_contra hlt
  have hmem := h.queued v hv (not_le.mp hlt)
  rw [hnil] at hmem
  cases hmem

/-! ## The way back -/

theorem traceBack_of_traced {parent : StdMap Pos Pos} {p acc : List Pos}
    (h : Traced parent s p v) (hdummy : ∀ x ∈ p, x ≠ s → x ≠ dummyParent) (hk : p.length ≤ k) :
    traceBack s parent k v acc = some (p ++ acc.reverse) := by
  induction h generalizing k acc with
  | start =>
    obtain ⟨k, rfl⟩ : ∃ j, k = j + 1 := ⟨k - 1, by rw [List.length_singleton] at hk; omega⟩
    rw [traceBack, if_neg fun hne => hne.2 rfl, if_pos rfl]
    simp
  | @step p u v hne hu _ ih =>
    rw [List.length_append, List.length_singleton] at hk
    obtain ⟨k, rfl⟩ : ∃ j, k = j + 1 := ⟨k - 1, by omega⟩
    rw [traceBack, if_pos ⟨hdummy v (by simp) hne, hne⟩, hu]
    dsimp only
    rw [ih (fun x hx => hdummy x (List.mem_append_left _ hx)) (by omega)]
    simp

/-- From a node whose parent is the dummy the way back ends soon. -/
theorem traceBack_untraced {parent : StdMap Pos Pos} (hv : parent.find v = some dummyParent)
    (hk : 2 ≤ k) : ∃ path, traceBack s parent k v [] = some path := by
  obtain ⟨k, rfl⟩ : ∃ j, k = j + 2 := ⟨k - 2, by omega⟩
  rw [traceBack, hv]
  split_ifs with hgo
  · dsimp only
    rw [traceBack, if_neg fun hne => hne.1 rfl]
    split_ifs
    · exact ⟨_, rfl⟩
    · exact ⟨_, rfl⟩
  · exact ⟨_, rfl⟩
  · exact ⟨_, rfl⟩

end Search

end Ns3.Ferry2
