import Ns3.Ferry2.RoadImport

/-!
# Joining the crossings

The loop of `JSON_Data::json_input` under `neighbor nodes info set`. A way is
followed from its first node, and wherever a node that is marked as a crossing,
or the last node, is reached, it and the one before are joined both ways. The
insertion keeps the length that is there: two crossings that several stretches
join get the length of the first.
-/

namespace Ns3.Ferry2

open Ns3.Lib

variable {C : Type} [LinearOrder C]

/-- `Hubeny::hubeny_distance`, and what a `double` keeps of the result of an operation. -/
structure Geodesic (C : Type) where
  hubenyDistance : C → C → ℚ
  rnd : ℚ → ℚ

/-- `neighbor_dist + node_dist`. -/
def Geodesic.advance (g : Geodesic C) (dist : ℚ) (p it : C) : ℚ :=
  g.rnd (dist + g.hubenyDistance it p)

/-- `nodes.at (u).SetNeighborNode (v, dist)`. -/
def setNeighborNode (nodes : StdMap C (WayNode C)) (u v : C) (dist : ℚ) :
    Option (StdMap C (WayNode C)) := do
  let node ← nodes.find u
  return nodes.assign u { node with neighborNodes := node.neighborNodes.insert v dist }

def joinNodes (nodes : StdMap C (WayNode C)) (u v : C) (dist : ℚ) :
    Option (StdMap C (WayNode C)) := do
  let nodes ← setNeighborNode nodes u v dist
  setNeighborNode nodes v u dist

/-- The loop over the nodes of a way: `wn` is the end of the stretch before, `p` the node before,
and `dist` is `neighbor_dist`. -/
def linkWay (g : Geodesic C) (wn p : C) (dist : ℚ) :
    List (WayNode C) → StdMap C (WayNode C) → Option (StdMap C (WayNode C))
  | [], nodes => some nodes
  | it :: rest, nodes =>
    let dist := g.advance dist p it.coordinate
    if it.isCrossing ∨ rest = [] then do
      let nodes ← joinNodes nodes wn it.coordinate dist
      linkWay g it.coordinate it.coordinate 0 rest nodes
    else linkWay g wn it.coordinate dist rest nodes

/-- The loop over the ways. -/
def linkRoads (g : Geodesic C) (d : MapData C) : Option (StdMap C (WayNode C)) :=
  d.linestrings.entries.foldlM (fun nodes e =>
    match e.2.nodes with
    | [] => none
    | wn :: rest => linkWay g wn.coordinate wn.coordinate 0 rest nodes) d.nodes

/-- `GetNeighborNodes`, at `u` for `v`. -/
def neighborDist (nodes : StdMap C (WayNode C)) (u v : C) : Option ℚ :=
  (nodes.find u).bind fun node => node.neighborNodes.find v

/-! ## Stretches -/

/-- What is joined in one turn. -/
structure Stretch (C : Type) where
  start : C
  stop : C
  length : ℚ

/-- The stretches a way is cut into. -/
def cutWay (g : Geodesic C) (wn p : C) (dist : ℚ) : List (WayNode C) → List (Stretch C)
  | [] => []
  | it :: rest =>
    let dist := g.advance dist p it.coordinate
    if it.isCrossing ∨ rest = [] then
      ⟨wn, it.coordinate, dist⟩ :: cutWay g it.coordinate it.coordinate 0 rest
    else cutWay g wn it.coordinate dist rest

def WayInfo.stretches (g : Geodesic C) (wi : WayInfo C) : List (Stretch C) :=
  match wi.nodes with
  | [] => []
  | wn :: rest => cutWay g wn.coordinate wn.coordinate 0 rest

/-- All stretches in the order in which they are joined. -/
def MapData.stretches (g : Geodesic C) (d : MapData C) : List (Stretch C) :=
  d.linestrings.entries.flatMap fun e => e.2.stretches g

def Stretch.Joins (u v : C) (s : Stretch C) : Prop :=
  s.start = u ∧ s.stop = v ∨ s.start = v ∧ s.stop = u

instance (u v : C) : DecidablePred (Stretch.Joins u v) := fun _ =>
  inferInstanceAs (Decidable (_ ∨ _))

omit [LinearOrder C] in
theorem Stretch.joins_comm {u v : C} {s : Stretch C} : s.Joins u v ↔ s.Joins v u := or_comm

def firstLength (l : List (Stretch C)) (u v : C) : Option ℚ :=
  (l.find? fun s => s.Joins u v).map Stretch.length

theorem firstLength_comm (l : List (Stretch C)) (u v : C) : firstLength l u v = firstLength l v u := by
  unfold firstLength
  congr 2
  funext s
  exact decide_eq_decide.mpr Stretch.joins_comm

theorem firstLength_ne_none {l : List (Stretch C)} {u v : C} :
    firstLength l u v ≠ none ↔ ∃ s ∈ l, s.Joins u v := by
  unfold firstLength
  rw [Ne, Option.map_eq_none_iff, List.find?_eq_none]
  simp

/-- A node where a way is cut. -/
def CutAt (l : List (WayNode C)) (it : WayNode C) : Prop :=
  it ∈ l ∧ (it.isCrossing = true ∨ l.getLast? = some it)

theorem CutAt.cons {l : List (WayNode C)} {it : WayNode C} (h : CutAt l it) (it' : WayNode C) :
    CutAt (it' :: l) it := by
  refine ⟨List.mem_cons_of_mem _ h.1, h.2.imp_right fun hlast => ?_⟩
  rwa [List.getLast?_cons_of_ne_nil (List.ne_nil_of_mem h.1)]

theorem mem_cutWay {g : Geodesic C} {wn p : C} {dist : ℚ} {l : List (WayNode C)} {s : Stretch C}
    (h : s ∈ cutWay g wn p dist l) :
    (s.start = wn ∨ ∃ a, CutAt l a ∧ a.coordinate = s.start) ∧
      ∃ b, CutAt l b ∧ b.coordinate = s.stop := by
  induction l generalizing wn p dist with
  | nil => cases h
  | cons it rest ih =>
    unfold cutWay at h
    dsimp only at h
    split_ifs at h with hcut
    · have hit : CutAt (it :: rest) it := by
        refine ⟨by simp, hcut.imp_right fun hnil => ?_⟩
        rw [hnil]
        rfl
      rcases List.mem_cons.mp h with rfl | h
      · exact ⟨.inl rfl, it, hit, rfl⟩
      · obtain ⟨hstart, b, hb, hstop⟩ := ih h
        refine ⟨.inr ?_, b, hb.cons it, hstop⟩
        rcases hstart with hstart | ⟨a, ha, hstart⟩
        · exact ⟨it, hit, hstart.symm⟩
        · exact ⟨a, ha.cons it, hstart⟩
    · obtain ⟨hstart, b, hb, hstop⟩ := ih h
      refine ⟨hstart.imp_right ?_, b, hb.cons it, hstop⟩
      rintro ⟨a, ha, hstart⟩
      exact ⟨a, ha.cons it, hstart⟩

/-- The ends of a stretch are nodes of a way: its first one, or one where it is cut. -/
theorem MapData.mem_stretches {g : Geodesic C} {d : MapData C} {s : Stretch C}
    (h : s ∈ d.stretches g) : ∃ id wi, d.linestrings.find id = some wi ∧
      ∃ a b, (wi.nodes.head? = some a ∨ CutAt wi.nodes a) ∧ CutAt wi.nodes b ∧
        a.coordinate = s.start ∧ b.coordinate = s.stop := by
  obtain ⟨⟨id, wi⟩, hwi, h⟩ := List.mem_flatMap.mp h
  refine ⟨id, wi, StdMap.mem_entries.mp hwi, ?_⟩
  unfold WayInfo.stretches at h
  dsimp only at h
  cases hnodes : wi.nodes with
  | nil =>
    rw [hnodes] at h
    cases h
  | cons wn rest =>
    rw [hnodes] at h
    obtain ⟨hstart, b, hb, hstop⟩ := mem_cutWay h
    rcases hstart with hstart | ⟨a, ha, hstart⟩
    · exact ⟨wn, b, .inl rfl, hb.cons wn, hstart.symm, hstop⟩
    · exact ⟨a, b, .inr (ha.cons wn), hb.cons wn, hstart, hstop⟩

/-! ## What the loop leaves -/

/-- A node without what the loop adds to it. -/
def WayNode.unlink (node : WayNode C) : WayNode C := { node with neighborNodes := .empty }

/-- Two maps whose nodes differ in nothing but their neighbours. -/
def SameNodes (nodes nodes' : StdMap C (WayNode C)) : Prop :=
  ∀ c, (nodes'.find c).map WayNode.unlink = (nodes.find c).map WayNode.unlink

theorem SameNodes.trans {nodes₁ nodes₂ nodes₃ : StdMap C (WayNode C)} (h₁ : SameNodes nodes₁ nodes₂)
    (h₂ : SameNodes nodes₂ nodes₃) : SameNodes nodes₁ nodes₃ := fun c => (h₂ c).trans (h₁ c)

theorem SameNodes.exists {nodes nodes' : StdMap C (WayNode C)} (h : SameNodes nodes nodes') {c : C}
    {node : WayNode C} (hc : nodes.find c = some node) :
    ∃ node', nodes'.find c = some node' ∧ node'.unlink = node.unlink := by
  have := h c
  rw [hc] at this
  exact Option.map_eq_some_iff.mp this

theorem SameNodes.symm {nodes nodes' : StdMap C (WayNode C)} (h : SameNodes nodes nodes') :
    SameNodes nodes' nodes := fun c => (h c).symm

theorem WayNode.of_unlink {a b : WayNode C} (h : a.unlink = b.unlink) :
    a.coordinate = b.coordinate ∧ a.wayIDs = b.wayIDs ∧ a.isCrossing = b.isCrossing := by
  simp only [WayNode.unlink, WayNode.mk.injEq] at h
  exact ⟨h.1, h.2.1, h.2.2.2.1⟩

theorem SameNodes.isCrossing {nodes nodes' : StdMap C (WayNode C)} (h : SameNodes nodes nodes')
    {c : C} : IsCrossing nodes' c ↔ IsCrossing nodes c := by
  constructor
  · rintro ⟨node', hnode', hc⟩
    obtain ⟨node, hnode, he⟩ := h.symm.exists hnode'
    exact ⟨node, hnode, by rw [(WayNode.of_unlink he).2.2, hc]⟩
  · rintro ⟨node, hnode, hc⟩
    obtain ⟨node', hnode', he⟩ := h.exists hnode
    exact ⟨node', hnode', by rw [(WayNode.of_unlink he).2.2, hc]⟩

theorem setNeighborNode_spec {nodes : StdMap C (WayNode C)} {u : C} (v : C) (dist : ℚ)
    (hu : nodes.find u ≠ none) : ∃ nodes', setNeighborNode nodes u v dist = some nodes' ∧
      SameNodes nodes nodes' ∧ ∀ x y, neighborDist nodes' x y =
        (neighborDist nodes x y).or (if x = u ∧ y = v then some dist else none) := by
  obtain ⟨node, hnode⟩ := Option.ne_none_iff_exists'.mp hu
  refine ⟨_, by rw [setNeighborNode, hnode]; rfl, fun c => ?_, fun x y => ?_⟩
  · rw [StdMap.find_assign]
    split_ifs with hc
    · rw [hc, hnode]
      rfl
    · rfl
  · unfold neighborDist
    rw [StdMap.find_assign]
    by_cases hx : x = u
    · subst hx
      rw [if_pos rfl, hnode, Option.bind_some, Option.bind_some, StdMap.find_insert]
      by_cases hy : y = v
      · subst hy
        cases node.neighborNodes.find y <;> simp
      · simp [hy]
    · simp [hx]

theorem joinNodes_spec {nodes : StdMap C (WayNode C)} (s : Stretch C)
    (hu : nodes.find s.start ≠ none) (hv : nodes.find s.stop ≠ none) :
    ∃ nodes', joinNodes nodes s.start s.stop s.length = some nodes' ∧ SameNodes nodes nodes' ∧
      ∀ x y, neighborDist nodes' x y =
        (neighborDist nodes x y).or (if s.Joins x y then some s.length else none) := by
  obtain ⟨nodes₁, h₁, hsame₁, hdist₁⟩ := setNeighborNode_spec s.stop s.length hu
  have hv' : nodes₁.find s.stop ≠ none := by
    obtain ⟨node, hnode⟩ := Option.ne_none_iff_exists'.mp hv
    obtain ⟨node', hnode', -⟩ := hsame₁.exists hnode
    rw [hnode']
    exact Option.some_ne_none _
  obtain ⟨nodes₂, h₂, hsame₂, hdist₂⟩ := setNeighborNode_spec s.start s.length hv'
  refine ⟨nodes₂, ?_, hsame₁.trans hsame₂, fun x y => ?_⟩
  · rw [joinNodes, h₁, Option.bind_eq_bind, Option.bind_some, h₂]
  · rw [hdist₂, hdist₁, Option.or_assoc]
    congr 1
    by_cases h : x = s.start ∧ y = s.stop
    · rw [if_pos h, Option.some_or, if_pos (show s.Joins x y from .inl ⟨h.1.symm, h.2.symm⟩)]
    · rw [if_neg h, Option.none_or]
      refine if_congr ?_ rfl rfl
      constructor
      · rintro ⟨rfl, rfl⟩
        exact .inr ⟨rfl, rfl⟩
      · rintro (⟨rfl, rfl⟩ | ⟨rfl, rfl⟩)
        · exact absurd ⟨rfl, rfl⟩ h
        · exact ⟨rfl, rfl⟩

theorem linkWay_eq (g : Geodesic C) (wn p : C) (dist : ℚ) (l : List (WayNode C))
    (nodes : StdMap C (WayNode C)) : linkWay g wn p dist l nodes =
      (cutWay g wn p dist l).foldlM (fun nodes s => joinNodes nodes s.start s.stop s.length) nodes := by
  induction l generalizing wn p dist nodes with
  | nil => rfl
  | cons it rest ih =>
    unfold linkWay cutWay
    dsimp only
    split_ifs
    · rw [List.foldlM_cons]
      exact congrArg _ (funext fun nodes => ih ..)
    · exact ih ..

theorem linkRoads_eq (g : Geodesic C) {d : MapData C}
    (h : ∀ id wi, d.linestrings.find id = some wi → wi.nodes ≠ []) : linkRoads g d =
      (d.stretches g).foldlM (fun nodes s => joinNodes nodes s.start s.stop s.length) d.nodes := by
  unfold linkRoads MapData.stretches
  have hne : ∀ e ∈ d.linestrings.entries, e.2.nodes ≠ [] :=
    fun e he => h e.1 e.2 (StdMap.mem_entries.mp he)
  revert hne
  generalize d.nodes = nodes
  generalize d.linestrings.entries = es
  intro hne
  induction es generalizing nodes with
  | nil => rfl
  | cons e es ih =>
    rw [List.foldlM_cons, List.flatMap_cons, List.foldlM_append]
    cases hnodes : e.2.nodes with
    | nil => exact absurd hnodes (hne e (by simp))
    | cons wn rest =>
      unfold WayInfo.stretches
      rw [hnodes]
      dsimp only
      rw [linkWay_eq]
      exact congrArg _ (funext fun nodes => ih nodes fun e he => hne e (by simp [he]))

theorem joinAll_spec {l : List (Stretch C)} {nodes : StdMap C (WayNode C)}
    (h : ∀ s ∈ l, nodes.find s.start ≠ none ∧ nodes.find s.stop ≠ none) :
    ∃ nodes', l.foldlM (fun nodes s => joinNodes nodes s.start s.stop s.length) nodes = some nodes' ∧
      SameNodes nodes nodes' ∧
        ∀ x y, neighborDist nodes' x y = (neighborDist nodes x y).or (firstLength l x y) := by
  induction l generalizing nodes with
  | nil => exact ⟨nodes, rfl, fun _ => rfl, fun x y => (Option.or_none ..).symm⟩
  | cons s l ih =>
    obtain ⟨hstart, hstop⟩ := h s (by simp)
    obtain ⟨nodes₁, h₁, hsame₁, hdist₁⟩ := joinNodes_spec s hstart hstop
    have hkept : ∀ {c}, nodes.find c ≠ none → nodes₁.find c ≠ none := by
      intro c hc
      obtain ⟨node, hnode⟩ := Option.ne_none_iff_exists'.mp hc
      obtain ⟨node', hnode', -⟩ := hsame₁.exists hnode
      rw [hnode']
      exact Option.some_ne_none _
    obtain ⟨nodes₂, h₂, hsame₂, hdist₂⟩ := ih fun t ht =>
      ⟨hkept (h t (by simp [ht])).1, hkept (h t (by simp [ht])).2⟩
    refine ⟨nodes₂, ?_, hsame₁.trans hsame₂, fun x y => ?_⟩
    · rw [List.foldlM_cons, h₁, Option.bind_eq_bind, Option.bind_some, h₂]
    · rw [hdist₂, hdist₁, Option.or_assoc]
      congr 1
      unfold firstLength
      rw [List.find?_cons]
      by_cases hj : s.Joins x y
      · simp [hj]
      · simp [hj]

/-- The loop comes to its end, and two nodes are as far apart as the first stretch between them is
long. -/
theorem linkRoads_spec (g : Geodesic C) {d : MapData C} (h : MapRead d) :
    ∃ nodes, linkRoads g d = some nodes ∧ SameNodes d.nodes nodes ∧
      ∀ u v, neighborDist nodes u v = firstLength (d.stretches g) u v := by
  have hon : ∀ s ∈ d.stretches g, d.nodes.find s.start ≠ none ∧ d.nodes.find s.stop ≠ none := by
    intro s hs
    obtain ⟨id, wi, hwi, a, b, ha, hb, hstart, hstop⟩ := MapData.mem_stretches hs
    have ha : a ∈ wi.nodes := ha.elim List.mem_of_head? And.left
    obtain ⟨node, hnode, -⟩ := h.stored id wi hwi a ha
    obtain ⟨node', hnode', -⟩ := h.stored id wi hwi b hb.1
    rw [← hstart, ← hstop, hnode, hnode']
    exact ⟨Option.some_ne_none _, Option.some_ne_none _⟩
  obtain ⟨nodes, hnodes, hsame, hdist⟩ := joinAll_spec hon
  refine ⟨nodes, by rw [linkRoads_eq g h.nonempty, hnodes], hsame, fun u v => ?_⟩
  have hnone : neighborDist d.nodes u v = none := by
    unfold neighborDist
    cases hu : d.nodes.find u with
    | none => rfl
    | some node =>
      rw [Option.bind_some, h.unlinked u node hu]
      rfl
  rw [hdist, hnone, Option.none_or]

end Ns3.Ferry2
