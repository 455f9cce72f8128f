import Ns3.Ferry2.RouteSearch
import Ns3.Lib.ShortestPath
import Mathlib.Algebra.Order.Ring.Rat
import Mathlib.Tactic.NormNum

/-!
# What the route search of a user finds

The loop of `DijkstraRouteCalculationforGeographicInfo` over all crossings of
the user's graph: it comes to an end, what it settles has the length and the
crossings of a shortest path, and everything nearer than `INF` is settled.
Weights are exact numbers here. Crossings are passed over when they are not in
the graph; the flags of the map are not looked at.
-/

namespace Ns3.Ferry2

open Ns3.Lib

variable {C : Type} [LinearOrder C]

/-! ## Roads as edges -/

/-- The roads between crossings of the graph. -/
def Graph.edge (g : Graph C) (u v : C) : Option ℚ := do
  let node ← g.find u
  let _ ← g.find v
  node.neighborNodes.find v

def Graph.Nonneg (g : Graph C) : Prop := ∀ u v w, g.edge u v = some w → 0 ≤ w

theorem Graph.edge_of_find {g : Graph C} {u v : C} {node node' : WayNode C}
    (hu : g.find u = some node) (hv : g.find v = some node') :
    g.edge u v = node.neighborNodes.find v := by
  rw [edge, hu, hv]
  rfl

theorem Graph.edge_of_find_none {g : Graph C} {u v : C} (hv : g.find v = none) :
    g.edge u v = none := by
  rw [edge, hv]
  cases g.find u <;> rfl

theorem Graph.find_of_edge {g : Graph C} {u v : C} {w : ℚ} (h : g.edge u v = some w) :
    ∃ node node', g.find u = some node ∧ g.find v = some node' ∧
      node.neighborNodes.find v = some w := by
  obtain ⟨node, hu, h⟩ := Option.bind_eq_some_iff.mp h
  obtain ⟨node', hv, h⟩ := Option.bind_eq_some_iff.mp h
  exact ⟨node, node', hu, hv, h⟩

variable [Zero C]

/-- `SetNodeID` has numbered the crossings of the graph. -/
def Graph.OnMap (g : Graph C) (m : RoadMap C) : Prop :=
  ∀ pos node, g.find pos = some node →
    ∃ id, m.getIDfromCoordinate pos = some id ∧ m.idToCoordinate.find id = some pos

variable {m : RoadMap C} {g : Graph C} {no u v : C}

/-! ## One turn -/

/-- What an unsettled node becomes when it is nearer by the node just settled. -/
def improve (neighbor : StdMap C ℚ) (minCost : ℚ) (updRoute : List C) (v : C)
    (info : DijkstraInfo C) : Option (DijkstraInfo C) :=
  (neighbor.find v).bind fun weight =>
    if weight + minCost < info.dst then some ⟨weight + minCost, updRoute⟩ else none

theorem relaxNode_eq (hrnd : ∀ q, m.rnd q = q) (c : ℚ) (r : List C) (nb : StdMap C ℚ)
    (acc : StdMap String ℚ × StdMap C (DijkstraInfo C)) (node : C × DijkstraInfo C) :
    relaxNode m c r nb acc node =
      match improve nb c r node.1 node.2 with
      | none => some acc
      | some info => do
        let id ← m.getIDfromCoordinate node.1
        return (recordDistance acc.1 id info.dst, acc.2.insert node.1 info) := by
  unfold relaxNode improve
  cases nb.find node.1 with
  | none => rfl
  | some weight =>
    dsimp only
    rw [hrnd, Option.bind_some]
    split_ifs <;> rfl

theorem find_recordDistance (dists : StdMap String ℚ) (id id' : String) (dst : ℚ) :
    (recordDistance dists id dst).find id' = if id' = id then
      some (match dists.find id with | some old => min old dst | none => dst)
    else dists.find id' := by
  unfold recordDistance
  cases hold : dists.find id with
  | none => rw [StdMap.find_assign]
  | some old =>
    dsimp only
    split_ifs with hless hid hid
    · subst hid
      rw [StdMap.find_assign_self, min_eq_right hless.le]
    · rw [StdMap.find_assign, if_neg hid]
    · subst hid
      rw [hold, min_eq_left (not_lt.mp hless)]
    · rfl

/-- The inner loop improves every unsettled node that can be improved, and notes its distance. -/
theorem relaxNodes_spec (hrnd : ∀ q, m.rnd q = q) (c : ℚ) (r : List C) (nb : StdMap C ℚ)
    {es : List (C × DijkstraInfo C)} (hs : es.Pairwise fun a b => a.1 < b.1)
    (hid : ∀ e ∈ es, ∃ id, m.getIDfromCoordinate e.1 = some id ∧
      m.idToCoordinate.find id = some e.1)
    (acc : StdMap String ℚ × StdMap C (DijkstraInfo C)) (hnew : ∀ e ∈ es, acc.2.find e.1 = none) :
    ∃ upd, es.foldlM (relaxNode m c r nb) acc = some upd ∧
      (∀ v, upd.2.find v = ((StdMap.lookupL v es).bind (improve nb c r v)).or (acc.2.find v)) ∧
      ∀ v id, m.getIDfromCoordinate v = some id → m.idToCoordinate.find id = some v →
        upd.1.find id = match (StdMap.lookupL v es).bind (improve nb c r v) with
          | none => acc.1.find id
          | some info => some (match acc.1.find id with
            | some old => min old info.dst
            | none => info.dst) := by
  induction es generalizing acc with
  | nil => exact ⟨acc, rfl, fun v => rfl, fun v id _ _ => rfl⟩
  | cons e es ih =>
    obtain ⟨he, hes⟩ := List.pairwise_cons.mp hs
    obtain ⟨id, hide, hback⟩ := hid e (by simp)
    have hid' := fun a ha => hid a (List.mem_cons_of_mem e ha)
    have hlook : StdMap.lookupL e.1 es = none := StdMap.lookupL_of_forall_lt he
    cases himp : improve nb c r e.1 e.2 with
    | none =>
      have hstep : relaxNode m c r nb acc e = some acc := by rw [relaxNode_eq hrnd, himp]
      rw [List.foldlM_cons, hstep, Option.bind_eq_bind, Option.bind_some]
      obtain ⟨upd, hupd, h₂, h₁⟩ := ih hes hid' acc fun a ha => hnew a (List.mem_cons_of_mem e ha)
      have hbind : ∀ v, (StdMap.lookupL v (e :: es)).bind (improve nb c r v) =
          (StdMap.lookupL v es).bind (improve nb c r v) := by
        intro v
        rw [StdMap.lookupL]
        split_ifs with hv
        · subst hv
          rw [Option.bind_some, himp, hlook, Option.bind_none]
        · rfl
      refine ⟨upd, hupd, fun v => ?_, fun v id hv hb => ?_⟩
      · rw [hbind, h₂]
      · rw [hbind, h₁ v id hv hb]
    | some info =>
      have hstep : relaxNode m c r nb acc e =
          some (recordDistance acc.1 id info.dst, acc.2.insert e.1 info) := by
        rw [relaxNode_eq hrnd, himp, hide]
        rfl
      rw [List.foldlM_cons, hstep, Option.bind_eq_bind, Option.bind_some]
      have hfresh : ∀ a ∈ es, (acc.2.insert e.1 info).find a.1 = none := by
        intro a ha
        rw [StdMap.find_insert, if_neg (he a ha).ne']
        exact hnew a (List.mem_cons_of_mem e ha)
      obtain ⟨upd, hupd, h₂, h₁⟩ := ih hes hid'
        (recordDistance acc.1 id info.dst, acc.2.insert e.1 info) hfresh
      refine ⟨upd, hupd, fun v => ?_, fun v id' hv hb => ?_⟩
      · rw [h₂, StdMap.lookupL, StdMap.find_insert]
        rcases eq_or_ne v e.1 with rfl | hne
        · rw [if_pos rfl, if_pos rfl, hlook, hnew e (by simp), Option.bind_none, Option.bind_some,
            himp]
          rfl
        · rw [if_neg hne, if_neg hne.symm]
      · rw [h₁ v id' hv hb, StdMap.lookupL, find_recordDistance]
        rcases eq_or_ne v e.1 with rfl | hne
        · rw [hide] at hv
          cases hv
          rw [if_pos rfl, if_pos rfl, hlook, Option.bind_none, Option.bind_some, himp]
        · have hne' : id' ≠ id := by
            rintro rfl
            rw [hback] at hb
            cases hb
            exact hne rfl
          rw [if_neg hne', if_neg hne.symm]

omit [Zero C] in
/-- The selection finds the nearest of the unsettled nodes, if one is nearer than `INF`. -/
theorem selectNearest_spec (pNodes : StdMap C (DijkstraInfo C)) (before : C) :
    (selectNearest pNodes before = (inf, before) ∧
      ∀ v info, pNodes.find v = some info → inf ≤ info.dst) ∨
    ∃ v info, pNodes.find v = some info ∧ selectNearest pNodes before = (info.dst, v) ∧
      info.dst < inf ∧ ∀ v' info', pNodes.find v' = some info' → info.dst ≤ info'.dst := by
  have hfold : selectNearest pNodes before =
      (pNodes.entries.map fun node => (node.2.dst, node.1)).foldl nearer (inf, before) := by
    rw [List.foldl_map]
    rfl
  rw [hfold]
  have hmem : ∀ v info, pNodes.find v = some info →
      (info.dst, v) ∈ pNodes.entries.map fun node => (node.2.dst, node.1) := fun v info hv =>
    List.mem_map.mpr ⟨(v, info), StdMap.mem_entries.mpr hv, rfl⟩
  rcases foldl_nearer (pNodes.entries.map fun node => (node.2.dst, node.1)) (inf, before) with
    ⟨hbest, hle⟩ | ⟨l₁, c, l₂, hsplit, hbest, hlt, h₁, h₂⟩
  · exact .inl ⟨hbest, fun v info hv => hle _ (hmem v info hv)⟩
  · have hc : c ∈ pNodes.entries.map fun node => (node.2.dst, node.1) := by
      rw [hsplit]
      exact List.mem_append_right _ (by simp)
    obtain ⟨⟨v, info⟩, hv, rfl⟩ := List.mem_map.mp hc
    refine .inr ⟨v, info, StdMap.mem_entries.mp hv, hbest, hlt, fun v' info' hv' => ?_⟩
    have hin := hmem v' info' hv'
    rw [hsplit] at hin
    rcases List.mem_append.mp hin with hin | hin
    · exact (h₁ _ hin).le
    · rcases List.mem_cons.mp hin with hin | hin
      · exact (congrArg Prod.fst hin).ge
      · exact h₂ _ hin

/-! ## The loop -/

namespace SearchState

/-- What the search has for a node, settled or not. -/
def info (s : SearchState C) (v : C) : Option (DijkstraInfo C) := (s.nodes.find v).or (s.pNodes.find v)

def label (s : SearchState C) (v : C) : ℚ := (s.info v).elim inf DijkstraInfo.dst

def Done (s : SearchState C) (v : C) : Prop := ∃ info, s.nodes.find v = some info

variable {s : SearchState C}

omit [Zero C] in
theorem info_of_nodes {i : DijkstraInfo C} (h : s.nodes.find v = some i) : s.info v = some i := by
  rw [info, h, Option.some_or]

omit [Zero C] in
theorem info_of_pNodes {i : DijkstraInfo C} (h : s.pNodes.find v = some i)
    (hnot : s.nodes.find v = none) : s.info v = some i := by
  rw [info, hnot, Option.none_or, h]

omit [Zero C] in
theorem label_of_info {i : DijkstraInfo C} (h : s.info v = some i) : s.label v = i.dst := by
  rw [label, h]
  rfl

end SearchState

/-- The invariant of the loop. -/
structure Searching (m : RoadMap C) (g : Graph C) (no : C) (s : SearchState C) : Prop where
  labelled : Labelled g.edge no inf s.Done s.label
  keys : ∀ v, (∃ node, g.find v = some node) ↔ ∃ i, s.info v = some i
  apart : ∀ v i, s.pNodes.find v = some i → s.nodes.find v = none
  near : ∀ v i, s.nodes.find v = some i → i.dst < inf
  recorded : ∀ v i, s.info v = some i → i.dst < inf → PathTo g.edge no (i.route ++ [v]) v i.dst
  noted : ∀ v id, m.getIDfromCoordinate v = some id → m.idToCoordinate.find id = some v →
    s.exitDistanceMap.find id = if v = no ∨ inf ≤ s.label v then none else some (s.label v)
  before : s.pNodes.find s.selectNode = none ∨ ∃ i, s.pNodes.find no = some i ∧ i.dst = 0

/-- The state after the node `u` is settled. -/
def SearchState.settle (s : SearchState C) (u : C) (i : DijkstraInfo C)
    (upd : StdMap String ℚ × StdMap C (DijkstraInfo C)) : SearchState C where
  pNodes := upd.2.entries.foldl (fun p node => (p.erase node.1).insert node.1 node.2)
    (s.pNodes.erase u)
  nodes := s.nodes.insert u i
  selectNode := u
  exitDistanceMap := upd.1

namespace Searching

variable {s : SearchState C}

omit [Zero C] in
theorem find_settle_pNodes (i : DijkstraInfo C)
    (upd : StdMap String ℚ × StdMap C (DijkstraInfo C)) :
    (s.settle u i upd).pNodes.find v = (upd.2.find v).or (if v = u then none else s.pNodes.find v) := by
  have hfold : (s.settle u i upd).pNodes =
      upd.2.entries.foldl (fun p node => p.alter node.1 fun _ => some node.2) (s.pNodes.erase u) := by
    show upd.2.entries.foldl _ _ = _
    congr 1
    funext p node
    exact StdMap.insert_erase p node.1 node.2
  rw [hfold, StdMap.find_foldl_alter upd.2 (fun _ x _ => some x), StdMap.find_erase]
  cases upd.2.find v <;> rfl

/-- What is pending after a node is settled. -/
def improved (node : WayNode C) (i : DijkstraInfo C) (u v : C) (j : DijkstraInfo C) :
    DijkstraInfo C :=
  (improve node.neighborNodes i.dst (i.route ++ [u]) v j).getD j

theorem info_settle (h : Searching m g no s) {i : DijkstraInfo C} (hu : s.pNodes.find u = some i)
    {node : WayNode C} {upd : StdMap String ℚ × StdMap C (DijkstraInfo C)}
    (hfound : ∀ v, upd.2.find v = if v = u then none else
      (s.pNodes.find v).bind (improve node.neighborNodes i.dst (i.route ++ [u]) v)) (v : C) :
    (s.settle u i upd).info v = if v = u then some i else
      (s.nodes.find v).or ((s.pNodes.find v).map (improved node i u v)) := by
  unfold SearchState.info
  rw [find_settle_pNodes, hfound]
  show ((s.nodes.insert u i).find v).or _ = _
  rw [StdMap.find_insert, h.apart u i hu]
  split_ifs with hv
  · rfl
  · congr 1
    cases s.pNodes.find v with
    | none => rfl
    | some j =>
      rw [Option.bind_some, Option.map_some]
      unfold improved
      cases improve node.neighborNodes i.dst (i.route ++ [u]) v j <;> rfl

/-- The labels are those of the abstract step. -/
theorem label_settle (h : Searching m g no s) (hpos : g.Nonneg) {i : DijkstraInfo C}
    (hu : s.pNodes.find u = some i) (hlt : i.dst < inf) {node : WayNode C}
    (hnode : g.find u = some node) {upd : StdMap String ℚ × StdMap C (DijkstraInfo C)}
    (hfound : ∀ v, upd.2.find v = if v = u then none else
      (s.pNodes.find v).bind (improve node.neighborNodes i.dst (i.route ++ [u]) v)) (v : C) :
    (s.settle u i upd).label v = relax g.edge s.label u v := by
  have hinfo : s.info u = some i := SearchState.info_of_pNodes hu (h.apart u i hu)
  have hlabel : s.label u = i.dst := SearchState.label_of_info hinfo
  have hsettled := h.info_settle hu hfound v
  rcases eq_or_ne v u with rfl | hv
  · rw [if_pos rfl] at hsettled
    rw [SearchState.label_of_info hsettled, Labelled.relax_self hpos, hlabel]
  rw [if_neg hv] at hsettled
  cases hn : s.nodes.find v with
  | some j =>
    rw [hn, Option.some_or] at hsettled
    rw [SearchState.label_of_info hsettled, h.labelled.relax_of_done (hlabel ▸ hlt) ⟨j, hn⟩,
      SearchState.label_of_info (SearchState.info_of_nodes hn)]
  | none =>
    rw [hn, Option.none_or] at hsettled
    cases hp : s.pNodes.find v with
    | none =>
      have hnone : s.info v = none := by rw [SearchState.info, hn, hp, Option.or_none]
      have hg : g.find v = none := by
        cases hg : g.find v with
        | none => rfl
        | some node' =>
          obtain ⟨j, hj⟩ := (h.keys v).mp ⟨node', hg⟩
          rw [hnone] at hj
          cases hj
      rw [hp, Option.map_none] at hsettled
      unfold relax
      rw [Graph.edge_of_find_none hg]
      show (s.settle u i upd).label v = s.label v
      unfold SearchState.label
      rw [hsettled, hnone]
    | some j =>
      have hinfov := SearchState.info_of_pNodes hp hn
      obtain ⟨node', hnode'⟩ := (h.keys v).mpr ⟨j, hinfov⟩
      rw [hp, Option.map_some] at hsettled
      rw [SearchState.label_of_info hsettled]
      unfold relax improved improve
      rw [Graph.edge_of_find hnode hnode', SearchState.label_of_info hinfov, hlabel]
      cases node.neighborNodes.find v with
      | none => rfl
      | some w =>
        rw [Option.bind_some]
        dsimp only
        split_ifs with hless
        · rw [Option.getD_some, add_comm i.dst w, min_eq_right hless.le]
        · rw [Option.getD_none, add_comm i.dst w, min_eq_left (not_lt.mp hless)]

/-- The routes are those of the edges that were relaxed. -/
theorem recorded_settle (h : Searching m g no s) {i : DijkstraInfo C}
    (hu : s.pNodes.find u = some i) (hlt : i.dst < inf) {node : WayNode C}
    (hnode : g.find u = some node) {upd : StdMap String ℚ × StdMap C (DijkstraInfo C)}
    (hfound : ∀ v, upd.2.find v = if v = u then none else
      (s.pNodes.find v).bind (improve node.neighborNodes i.dst (i.route ++ [u]) v))
    {j : DijkstraInfo C} (hj : (s.settle u i upd).info v = some j) (hjlt : j.dst < inf) :
    PathTo g.edge no (j.route ++ [v]) v j.dst := by
  have hinfo : s.info u = some i := SearchState.info_of_pNodes hu (h.apart u i hu)
  rw [h.info_settle hu hfound] at hj
  split_ifs at hj with hv
  · cases hj
    subst hv
    exact h.recorded _ _ hinfo hlt
  cases hn : s.nodes.find v with
  | some k =>
    rw [hn, Option.some_or] at hj
    cases hj
    exact h.recorded _ _ (SearchState.info_of_nodes hn) hjlt
  | none =>
    rw [hn, Option.none_or] at hj
    obtain ⟨k, hp, rfl⟩ := Option.map_eq_some_iff.mp hj
    have hinfov := SearchState.info_of_pNodes hp hn
    obtain ⟨node', hnode'⟩ := (h.keys v).mpr ⟨k, hinfov⟩
    unfold improved at hjlt ⊢
    cases himp : improve node.neighborNodes i.dst (i.route ++ [u]) v k with
    | none =>
      rw [himp, Option.getD_none] at hjlt
      exact h.recorded _ _ hinfov hjlt
    | some x =>
      obtain ⟨w, hw, hx⟩ := Option.bind_eq_some_iff.mp himp
      obtain ⟨-, hx⟩ := Option.ite_none_right_eq_some.mp hx
      cases hx
      have hedge : g.edge u v = some w := (Graph.edge_of_find hnode hnode').trans hw
      rw [Option.getD_some, add_comm w i.dst]
      exact (h.recorded _ _ hinfo hlt).step hedge

/-- The distance of everything that was ever improved is noted. -/
theorem noted_settle (h : Searching m g no s) (hpos : g.Nonneg) {i : DijkstraInfo C}
    (hu : s.pNodes.find u = some i) (hlt : i.dst < inf) {node : WayNode C}
    (hnode : g.find u = some node) {upd : StdMap String ℚ × StdMap C (DijkstraInfo C)}
    (hfound : ∀ v, upd.2.find v = if v = u then none else
      (s.pNodes.find v).bind (improve node.neighborNodes i.dst (i.route ++ [u]) v))
    {id : String} (hv : m.getIDfromCoordinate v = some id) (hb : m.idToCoordinate.find id = some v)
    (hnote : upd.1.find id =
      match ((s.pNodes.erase u).find v).bind (improve node.neighborNodes i.dst (i.route ++ [u]) v)
        with
      | none => s.exitDistanceMap.find id
      | some x => some (match s.exitDistanceMap.find id with
        | some old => min old x.dst
        | none => x.dst)) :
    (s.settle u i upd).exitDistanceMap.find id =
      if v = no ∨ inf ≤ (s.settle u i upd).label v then none
      else some ((s.settle u i upd).label v) := by
  have hinfo : s.info u = some i := SearchState.info_of_pNodes hu (h.apart u i hu)
  have hsettled := h.info_settle hu hfound v
  have hold := h.noted v id hv hb
  show upd.1.find id = _
  rw [hnote, StdMap.find_erase]
  -- what is not improved keeps its label
  have hkeep : (s.settle u i upd).info v = s.info v → s.exitDistanceMap.find id =
      if v = no ∨ inf ≤ (s.settle u i upd).label v then none
      else some ((s.settle u i upd).label v) := by
    intro hsame
    unfold SearchState.label
    rw [hsame]
    exact hold
  rcases eq_or_ne v u with rfl | hvu
  · rw [if_pos rfl] at hsettled ⊢
    exact hkeep (hsettled.trans hinfo.symm)
  rw [if_neg hvu] at hsettled ⊢
  cases hp : s.pNodes.find v with
  | none =>
    rw [hp, Option.map_none] at hsettled
    exact hkeep (by rw [hsettled, SearchState.info, hp])
  | some j =>
    have hn := h.apart v j hp
    have hinfov := SearchState.info_of_pNodes hp hn
    rw [hp, hn, Option.map_some, Option.none_or] at hsettled
    unfold improved at hsettled
    rw [Option.bind_some]
    cases himp : improve node.neighborNodes i.dst (i.route ++ [u]) v j with
    | none =>
      rw [himp, Option.getD_none] at hsettled
      exact hkeep (hsettled.trans hinfov.symm)
    | some x =>
      rw [himp, Option.getD_some] at hsettled
      obtain ⟨node', hnode'⟩ := (h.keys v).mpr ⟨j, hinfov⟩
      obtain ⟨w, hw, hx⟩ := Option.bind_eq_some_iff.mp himp
      obtain ⟨hless, hx⟩ := Option.ite_none_right_eq_some.mp hx
      cases hx
      have hedge : g.edge u v = some w := (Graph.edge_of_find hnode hnode').trans hw
      have hj : s.label v = j.dst := SearchState.label_of_info hinfov
      have hjinf : j.dst ≤ inf := hj ▸ h.labelled.le_inf v
      have hless' : w + i.dst < s.label v := hj.symm ▸ hless
      -- the start has the label 0 and is never improved
      have hno : v ≠ no := by
        rintro rfl
        have hw0 := hpos u v w hedge
        have hi0 := (h.recorded u i hinfo hlt).nonneg hpos
        rw [h.labelled.start] at hless'
        exact absurd hless' (not_lt.mpr (add_nonneg hw0 hi0))
      have hinf : ¬ inf ≤ w + i.dst := not_le.mpr (hless.trans_le hjinf)
      rw [SearchState.label_of_info hsettled, if_neg (not_or.mpr ⟨hno, hinf⟩), hold]
      dsimp only
      by_cases hfar : inf ≤ s.label v
      · rw [if_pos (.inr hfar)]
      · rw [if_neg (not_or.mpr ⟨hno, hfar⟩)]
        dsimp only
        rw [min_eq_right hless'.le]

/-- One turn of the loop settles the nearest node. -/
theorem turn (h : Searching m g no s) (hrnd : ∀ q, m.rnd q = q) (hmap : g.OnMap m)
    (hpos : g.Nonneg) {i : DijkstraInfo C} (hu : s.pNodes.find u = some i) (hlt : i.dst < inf)
    (hnear : ∀ v j, s.pNodes.find v = some j → i.dst ≤ j.dst) {node : WayNode C}
    (hnode : g.find u = some node) :
    ∃ upd, (s.pNodes.erase u).entries.foldlM
        (relaxNode m i.dst (i.route ++ [u]) node.neighborNodes) (s.exitDistanceMap, .empty) =
          some upd ∧
      Searching m g no (s.settle u i upd) ∧
      ∀ v, (s.settle u i upd).pNodes.find v ≠ none → v ≠ u ∧ s.pNodes.find v ≠ none := by
  have hinfo : s.info u = some i := SearchState.info_of_pNodes hu (h.apart u i hu)
  have hlabel : s.label u = i.dst := SearchState.label_of_info hinfo
  have hpending : ∀ v j, (s.pNodes.erase u).find v = some j ↔ v ≠ u ∧ s.pNodes.find v = some j := by
    intro v j
    rw [StdMap.find_erase]
    split_ifs with hv
    · simp [hv]
    · simp [hv]
  have hid : ∀ e ∈ (s.pNodes.erase u).entries, ∃ id, m.getIDfromCoordinate e.1 = some id ∧
      m.idToCoordinate.find id = some e.1 := by
    intro e he
    have hfind := ((hpending e.1 e.2).mp (StdMap.mem_entries.mp he)).2
    obtain ⟨node', hnode'⟩ := (h.keys e.1).mpr
      ⟨e.2, SearchState.info_of_pNodes hfind (h.apart _ _ hfind)⟩
    exact hmap e.1 node' hnode'
  obtain ⟨upd, hupd, hfound, hnotes⟩ := relaxNodes_spec hrnd i.dst (i.route ++ [u])
    node.neighborNodes (s.pNodes.erase u).sorted hid (s.exitDistanceMap, .empty) fun _ _ => rfl
  have hfound' : ∀ v, upd.2.find v = if v = u then none else
      (s.pNodes.find v).bind (improve node.neighborNodes i.dst (i.route ++ [u]) v) := by
    intro v
    have hv := hfound v
    rw [show StdMap.lookupL v (s.pNodes.erase u).entries = (s.pNodes.erase u).find v from rfl,
      StdMap.find_erase, StdMap.find_empty, Option.or_none] at hv
    rw [hv]
    split_ifs <;> rfl
  have hlabelled : ∀ v, (s.settle u i upd).label v = relax g.edge s.label u v :=
    fun v => h.label_settle hpos hu hlt hnode hfound' v
  refine ⟨upd, hupd, ?_, ?_⟩
  · have hnear' : ∀ v, ¬ s.Done v → s.label u ≤ s.label v := by
      intro v hv
      rw [hlabel]
      unfold SearchState.label
      cases hinf : s.info v with
      | none => exact hlt.le
      | some j =>
        unfold SearchState.info at hinf
        cases hn : s.nodes.find v with
        | some k => exact absurd ⟨k, hn⟩ hv
        | none =>
          rw [hn, Option.none_or] at hinf
          exact hnear v j hinf
    have hstep := h.labelled.settle hpos (hlabel ▸ hlt) hnear'
    have hnodes : ∀ v, (s.settle u i upd).nodes.find v = if v = u then some i else s.nodes.find v := by
      intro v
      show (s.nodes.insert u i).find v = _
      rw [StdMap.find_insert, h.apart u i hu]
      rfl
    have hdone : (s.settle u i upd).Done = fun v => v = u ∨ s.Done v := by
      funext v
      unfold SearchState.Done
      rw [hnodes]
      split_ifs with hv
      · simp [hv]
      · simp [hv]
    refine ⟨?_, fun v => ?_, fun v j hj => ?_, fun v j hj => ?_, fun v j hj hjlt => ?_,
      fun v id hv hb => ?_, .inl ?_⟩
    · rw [hdone, funext hlabelled]
      exact hstep
    · rw [h.keys, h.info_settle hu hfound']
      split_ifs with hv
      · subst hv
        simp [hinfo]
      · unfold SearchState.info
        cases s.nodes.find v <;> cases s.pNodes.find v <;> simp
    · rw [find_settle_pNodes, hfound'] at hj
      rw [hnodes]
      split_ifs at hj ⊢ with hvu
      · cases hj
      · cases hp : s.pNodes.find v with
        | none =>
          rw [hp] at hj
          cases hj
        | some k => exact h.apart v k hp
    · rw [hnodes] at hj
      split_ifs at hj with hvu
      · cases hj
        exact hlt
      · exact h.near v j hj
    · exact h.recorded_settle hu hlt hnode hfound' hj hjlt
    · have hnote := hnotes v id hv hb
      exact h.noted_settle hpos hu hlt hnode hfound' hv hb hnote
    · rw [find_settle_pNodes, hfound']
      simp [SearchState.settle]
  · intro v hv
    rw [find_settle_pNodes, hfound'] at hv
    split_ifs at hv with hvu
    · exact absurd rfl hv
    · refine ⟨hvu, fun hnone => hv ?_⟩
      rw [hnone]
      rfl

end Searching

section Loop

variable {s : SearchState C}

/-- The loop stops once it selects nothing new. -/
theorem settle_stop (h : s.pNodes.find (selectNearest s.pNodes s.selectNode).2 = none)
    (hsame : (selectNearest s.pNodes s.selectNode).2 = s.selectNode) (n : ℕ) :
    settle m g n s = some s := by
  cases n with
  | zero => rfl
  | succ n =>
    rw [settle]
    split_ifs
    · rfl
    · dsimp only
      rw [h]
      dsimp only
      rw [hsame]

theorem settle_turn {i : DijkstraInfo C} {node : WayNode C}
    {upd : StdMap String ℚ × StdMap C (DijkstraInfo C)} (hu : s.pNodes.find u = some i)
    (hsel : selectNearest s.pNodes s.selectNode = (i.dst, u)) (hnode : g.find u = some node)
    (hupd : (s.pNodes.erase u).entries.foldlM
      (relaxNode m i.dst (i.route ++ [u]) node.neighborNodes) (s.exitDistanceMap, .empty) =
        some upd) (n : ℕ) :
    settle m g (n + 1) s = settle m g n (s.settle u i upd) := by
  have hne : s.pNodes.entries.isEmpty = false := by
    cases hes : s.pNodes.entries with
    | nil =>
      have hmem := StdMap.mem_entries.mpr hu
      rw [hes] at hmem
      cases hmem
    | cons e es => rfl
  rw [settle, hne, if_neg Bool.false_ne_true, hsel]
  dsimp only
  rw [hu]
  dsimp only
  rw [hnode, Option.bind_eq_bind, Option.bind_some, hupd, Option.bind_eq_bind, Option.bind_some]
  rfl

/-- The loop ends, and what it leaves is out of reach. -/
theorem settle_spec (hrnd : ∀ q, m.rnd q = q) (hmap : g.OnMap m) (hpos : g.Nonneg) {n : ℕ}
    {s : SearchState C} (h : Searching m g no s) (hn : s.pNodes.size ≤ n) :
    ∃ s', (∀ k, n ≤ k → settle m g k s = some s') ∧ Searching m g no s' ∧
      ∀ v, ¬ s'.Done v → inf ≤ s'.label v := by
  -- either nothing is left within reach, or the nearest is settled and less is left
  rcases selectNearest_spec s.pNodes s.selectNode with ⟨hsel, hfar⟩ | ⟨u, i, hu, hsel, hlt, hnear⟩
  · have hbefore : s.pNodes.find s.selectNode = none := by
      rcases h.before with hb | ⟨i, hi, hzero⟩
      · exact hb
      · have hle := hfar no i hi
        rw [hzero] at hle
        exact absurd hle (by norm_num [inf])
    refine ⟨s, fun k _ => settle_stop (by rw [hsel]; exact hbefore) (by rw [hsel]) k, h, ?_⟩
    intro v hv
    unfold SearchState.label
    cases hinf : s.info v with
    | none => exact le_rfl
    | some j =>
      unfold SearchState.info at hinf
      cases hd : s.nodes.find v with
      | some k => exact absurd ⟨k, hd⟩ hv
      | none =>
        rw [hd, Option.none_or] at hinf
        exact hfar v j hinf
  · obtain ⟨node, hnode⟩ := (h.keys u).mpr
      ⟨i, SearchState.info_of_pNodes hu (h.apart u i hu)⟩
    obtain ⟨upd, hupd, h', hless⟩ := h.turn hrnd hmap hpos hu hlt hnear hnode
    have hsize : (s.settle u i upd).pNodes.size < s.pNodes.size :=
      StdMap.size_lt_of_find (by rw [hu]; exact Option.some_ne_none i) hless
    cases n with
    | zero => omega
    | succ n =>
      obtain ⟨s', hs', hout⟩ := settle_spec hrnd hmap hpos h' (n := n) (by omega)
      refine ⟨s', fun k hk => ?_, hout⟩
      obtain ⟨k, rfl⟩ : ∃ j, k = j + 1 := ⟨k - 1, by omega⟩
      rw [settle_turn hu hsel hnode hupd]
      exact hs' k (by omega)

theorem find_start (v : C) : (SearchState.start g no).pNodes.find v =
    (g.find v).map fun _ => ⟨if v = no then 0 else inf, []⟩ :=
  StdMap.find_ofList_keys g _ v

theorem label_start (hno : g.find no ≠ none) (v : C) :
    (SearchState.start g no).label v = if v = no then 0 else inf := by
  have hinfo : (SearchState.start g no).info v =
      (g.find v).map fun _ => ⟨if v = no then 0 else inf, []⟩ := find_start v
  unfold SearchState.label
  rw [hinfo]
  cases hg : g.find v with
  | none =>
    have hv : v ≠ no := by
      rintro rfl
      exact hno hg
    rw [if_neg hv]
    rfl
  | some node => rfl

theorem searching_start (hno : g.find no ≠ none) : Searching m g no (.start g no) := by
  have hpos : (0 : ℚ) < inf := by norm_num [inf]
  have hinfo : ∀ v, (SearchState.start g no).info v =
      (g.find v).map fun _ => ⟨if v = no then 0 else inf, []⟩ := find_start
  have hnone : ∀ v, ¬ (SearchState.start g no).Done v := by
    rintro v ⟨i, hi⟩
    cases hi
  have hnear : ∀ v, (SearchState.start g no).label v < inf → v = no := by
    intro v hv
    rw [label_start hno] at hv
    by_contra hne
    rw [if_neg hne] at hv
    exact lt_irrefl _ hv
  refine ⟨⟨?_, fun v => ?_, fun v hv => ?_, fun v hv => absurd hv (hnone v), fun u v w hu =>
    absurd hu (hnone u)⟩, fun v => ?_, fun v i _ => rfl, fun v i hi => absurd ⟨i, hi⟩ (hnone v),
    fun v i hi hlt => ?_, fun v id _ _ => ?_, .inr ?_⟩
  · rw [label_start hno, if_pos rfl]
  · rw [label_start hno]
    split_ifs
    · exact hpos.le
    · exact le_rfl
  · obtain rfl := hnear v hv
    rw [label_start hno, if_pos rfl]
    exact ⟨[v], .start⟩
  · rw [hinfo]
    cases g.find v <;> simp
  · have hlabel := SearchState.label_of_info hi
    obtain rfl := hnear v (hlabel ▸ hlt)
    rw [hinfo] at hi
    obtain ⟨node, -, rfl⟩ := Option.map_eq_some_iff.mp hi
    dsimp only
    rw [if_pos rfl, List.nil_append]
    exact .start
  · show none = _
    rw [if_pos]
    rw [label_start hno]
    by_cases hv : v = no
    · exact .inl hv
    · exact .inr (by rw [if_neg hv])
  · obtain ⟨node, hnode⟩ := Option.ne_none_iff_exists'.mp hno
    refine ⟨_, (find_start no).trans (by rw [hnode]; rfl), ?_⟩
    exact if_pos rfl

/-- The search from a crossing of the graph. -/
theorem settleFrom_spec (hrnd : ∀ q, m.rnd q = q) (hmap : g.OnMap m) (hpos : g.Nonneg)
    (hno : g.find no ≠ none) :
    ∃ s, (∀ k, g.size ≤ k → settle m g k (.start g no) = some s) ∧ Searching m g no s ∧
      ∀ v, ¬ s.Done v → inf ≤ s.label v := by
  refine settle_spec hrnd hmap hpos (searching_start hno) (StdMap.size_le_of_find fun v hv => ?_)
  intro hnone
  rw [find_start, hnone] at hv
  exact hv rfl

end Loop

/-! ## The remaining distances -/

section Remaining

/-- The pass over the route looks up the distance of each of its crossings. -/
theorem remainingDistances_spec (hrnd : ∀ q, m.rnd q = q) (exitDistance : ℚ)
    (dists : StdMap String ℚ) (route : List C)
    (hid : ∀ pos ∈ route, ∃ id, m.getIDfromCoordinate pos = some id) :
    ∃ table, remainingDistances m exitDistance dists route = some table ∧
      ∀ pos ∈ route, ∀ id, m.getIDfromCoordinate pos = some id →
        table.find id = (dists.find id).map (exitDistance - ·) := by
  have hloop : ∀ (l : List C) (r : StdMap String ℚ),
      (∀ pos ∈ l, ∃ id, m.getIDfromCoordinate pos = some id) →
      ∃ table, l.foldlM (fun r pos => do
          let id ← m.getIDfromCoordinate pos
          match dists.find id with
          | some dist => return r.assign id (m.rnd (exitDistance - dist))
          | none => return r) r = some table ∧
        ∀ id, ((∃ pos ∈ l, m.getIDfromCoordinate pos = some id) →
            table.find id = ((dists.find id).map (exitDistance - ·)).or (r.find id)) ∧
          ((∀ pos ∈ l, m.getIDfromCoordinate pos ≠ some id) → table.find id = r.find id) := by
    intro l
    induction l with
    | nil => exact fun r _ => ⟨r, rfl, fun id => ⟨fun h => by simp at h, fun _ => rfl⟩⟩
    | cons pos l ih =>
      intro r hl
      obtain ⟨id, hpos⟩ := hl pos (by simp)
      -- what this turn leaves
      obtain ⟨r', hr', hfind⟩ : ∃ r', (do
          let id ← m.getIDfromCoordinate pos
          match dists.find id with
          | some dist => return r.assign id (m.rnd (exitDistance - dist))
          | none => return r) = some r' ∧ ∀ id', r'.find id' =
            if id' = id then ((dists.find id).map (exitDistance - ·)).or (r.find id)
            else r.find id' := by
        rw [hpos, Option.bind_eq_bind, Option.bind_some]
        cases hd : dists.find id with
        | none =>
          refine ⟨r, rfl, fun id' => ?_⟩
          split_ifs with h
          · rw [h]
            rfl
          · rfl
        | some dist =>
          refine ⟨_, rfl, fun id' => ?_⟩
          rw [StdMap.find_assign, hrnd]
          rfl
      obtain ⟨table, htable, hout⟩ := ih r' fun pos' hpos' => hl pos' (List.mem_cons_of_mem pos hpos')
      refine ⟨table, ?_, fun id' => ⟨?_, ?_⟩⟩
      · rw [List.foldlM_cons, hr', Option.bind_eq_bind, Option.bind_some, htable]
      · rintro ⟨pos', hpos', hid'⟩
        by_cases hin : ∃ y ∈ l, m.getIDfromCoordinate y = some id'
        · rw [(hout id').1 hin, hfind]
          split_ifs with h
          · subst h
            cases dists.find id' <;> rfl
          · rfl
        · have hhead : pos' = pos := by
            rcases List.mem_cons.mp hpos' with rfl | hmem
            · rfl
            · exact absurd ⟨pos', hmem, hid'⟩ hin
          rw [hhead, hpos] at hid'
          cases hid'
          rw [(hout id).2 fun y hy hy' => hin ⟨y, hy, hy'⟩, hfind, if_pos rfl]
      · intro hnot
        have hne : id' ≠ id := by
          rintro rfl
          exact hnot pos (by simp) hpos
        rw [(hout id').2 fun y hy => hnot y (List.mem_cons_of_mem pos hy), hfind, if_neg hne]
  obtain ⟨table, htable, hout⟩ := hloop route.reverse .empty fun pos hpos =>
    hid pos (List.mem_reverse.mp hpos)
  refine ⟨table, htable, fun pos hpos id hpid => ?_⟩
  rw [(hout id).1 ⟨pos, List.mem_reverse.mpr hpos, hpid⟩, StdMap.find_empty, Option.or_none]

end Remaining

/-! ## In the small town -/

theorem sampleRoads_onMap : sampleRoads.OnMap sampleTown := by
  intro pos node h
  have hall : ∀ e ∈ sampleRoads.entries, ∃ id ∈ [nodeID 1, nodeID 2, nodeID 3],
      sampleTown.getIDfromCoordinate e.1 = some id ∧
        sampleTown.idToCoordinate.find id = some e.1 := by decide +kernel
  obtain ⟨id, -, hid⟩ := hall (pos, node) (StdMap.mem_entries.mpr h)
  exact ⟨id, hid⟩

end Ns3.Ferry2
