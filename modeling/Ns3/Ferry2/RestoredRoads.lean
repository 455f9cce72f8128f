import Ns3.Ferry2.ClosedRoads
import Ns3.Ferry2.RoadGraph

/-!
# Opening what was closed

`RestoreGraphInfo` right after `UpdateGraphInfo`. A road is joined again with the
direct distance of its ends. A crossing is put back next to itself: the second
neighbour list is read at the first crossing.
-/

namespace Ns3.Ferry2

open Ns3.Lib

variable {C : Type} [LinearOrder C] {g g' : Graph C} {s e : WayNode C} {u v : C}

namespace Graph

/-- The neighbours of a crossing, with the lengths of the roads. -/
def neighbors (g : Graph C) (c : C) : Option (StdMap C ℚ) := (g.find c).map WayNode.neighborNodes

theorem neighborDist_eq : neighborDist g u v = (g.neighbors u).bind (·.find v) := by
  unfold neighborDist neighbors
  cases StdMap.find g u <;> rfl

theorem find_of_neighborDist {d : ℚ} (h : neighborDist g u v = some d) : g.find u ≠ none := by
  intro hnone
  rw [neighborDist, hnone] at h
  cases h

theorem neighbors_replace (node : WayNode C) (nb : StdMap C ℚ) (c : C) :
    (g.replace node nb).neighbors c = if c = node.coordinate then some nb else g.neighbors c := by
  unfold neighbors
  rw [replace_eq, StdMap.find_assign]
  split_ifs <;> rfl

theorem neighbors_ne_none {c : C} : g.neighbors c ≠ none ↔ g.find c ≠ none := by
  unfold neighbors
  rw [Ne, Option.map_eq_none_iff]

/-! ## The two ends -/

/-- What `cutRoad` and `rejoinRoad` do to the two neighbour lists. -/
def onEnds (g : Graph C) (s e : WayNode C) (f : C → StdMap C ℚ → StdMap C ℚ) :
    Option (Graph C) := do
  let sNeighbor ← g.find s.coordinate
  let g := g.replace s (f e.coordinate sNeighbor.neighborNodes)
  let eNeighbor ← g.find e.coordinate
  return g.replace e (f s.coordinate eNeighbor.neighborNodes)

theorem cutRoad_eq : g.cutRoad s e = g.onEnds s e fun c nb => nb.erase c := rfl

theorem onEnds_spec {f : C → StdMap C ℚ → StdMap C ℚ} (hne : s.coordinate ≠ e.coordinate) :
    g.onEnds s e f = some g' → ∀ c, g'.neighbors c =
      if c = s.coordinate then (g.neighbors c).map (f e.coordinate)
      else if c = e.coordinate then (g.neighbors c).map (f s.coordinate) else g.neighbors c := by
  intro h c
  obtain ⟨ns, hs, h⟩ := Option.bind_eq_some_iff.mp h
  obtain ⟨ne, he, h⟩ := Option.bind_eq_some_iff.mp h
  cases h
  rw [replace_eq, StdMap.find_assign, if_neg hne.symm] at he
  rw [neighbors_replace, neighbors_replace]
  split_ifs with hce hcs hcs
  · exact absurd (hcs.symm.trans hce) hne
  · rw [hce, neighbors, he]
    rfl
  · rw [hcs, neighbors, hs]
    rfl
  · rfl

/-- The second crossing is found after the first one has been replaced, too. -/
theorem onEnds_isSome {f : C → StdMap C ℚ → StdMap C ℚ} (hs : g.find s.coordinate ≠ none)
    (he : g.find e.coordinate ≠ none) : ∃ g', g.onEnds s e f = some g' := by
  obtain ⟨ns, hs⟩ := Option.ne_none_iff_exists'.mp hs
  have he : (g.replace s (f e.coordinate ns.neighborNodes)).find e.coordinate ≠ none := by
    rw [replace_eq, StdMap.find_assign]
    split_ifs
    · exact Option.some_ne_none _
    · exact he
  obtain ⟨ne, he⟩ := Option.ne_none_iff_exists'.mp he
  exact ⟨_, Option.bind_eq_some_iff.mpr ⟨ns, hs, Option.bind_eq_some_iff.mpr ⟨ne, he, rfl⟩⟩⟩

theorem find_of_onEnds {f : C → StdMap C ℚ → StdMap C ℚ} (h : g.onEnds s e f = some g') :
    g.find s.coordinate ≠ none := by
  obtain ⟨ns, hs, -⟩ := Option.bind_eq_some_iff.mp h
  rw [hs]
  exact Option.some_ne_none ns

/-! ## A crossing -/

/-- The crossing is next to itself. -/
def NextToItself (g : Graph C) (c : C) : Prop := neighborDist g c c ≠ none

theorem nextToItself_replace (node : WayNode C) (nb : StdMap C ℚ) (c : C) :
    (g.replace node nb).NextToItself c ↔
      if c = node.coordinate then nb.find c ≠ none else g.NextToItself c := by
  unfold NextToItself
  rw [neighborDist_eq, neighbors_replace]
  split_ifs
  · rfl
  · rw [neighborDist_eq]

theorem find_of_insert {nb : StdMap C ℚ} {x : C} {d : ℚ} (h : nb.find v ≠ none) :
    (nb.insert x d).find v ≠ none := by
  rw [StdMap.find_insert]
  split_ifs
  · exact Option.some_ne_none _
  · exact h

theorem find_insert_self (nb : StdMap C ℚ) (x : C) (d : ℚ) : (nb.insert x d).find x ≠ none := by
  rw [StdMap.find_insert, if_pos rfl]
  exact Option.some_ne_none _

variable [Zero C] {m : RoadMap C}

/-- The second crossing comes out next to itself, and one that was so stays so. -/
theorem rejoin_nextToItself (m : RoadMap C) (g : Graph C) (s e : WayNode C) :
    (g.rejoin m s e).NextToItself e.coordinate ∧
      ∀ c, g.NextToItself c → (g.rejoin m s e).NextToItself c := by
  unfold rejoin
  dsimp only
  generalize m.hubenyDistance s.coordinate e.coordinate = d
  have hown (nb : StdMap C ℚ) : ((StdMap.find (g.replace s nb) s.coordinate).map
      WayNode.neighborNodes).getD .empty = nb := by
    rw [replace_eq, StdMap.find_assign_self]
    rfl
  simp only [hown, nextToItself_replace]
  refine ⟨?_, fun c hc => ?_⟩
  · exact (if_pos trivial).mpr (find_of_insert (find_insert_self _ _ _))
  · split_ifs with hce hcs
    · rw [hce]
      exact find_of_insert (find_insert_self _ _ _)
    · subst hcs
      refine find_of_insert ?_
      unfold NextToItself neighborDist at hc
      cases hs : StdMap.find g s.coordinate with
      | none => simp [hs] at hc
      | some n => simpa [hs] using hc
    · exact hc

/-! ## A road -/

theorem rejoinRoad_eq : g.rejoinRoad m s e =
    g.onEnds s e fun c nb => nb.insert c (m.hubenyDistance s.coordinate e.coordinate) := rfl

theorem rejoinRoad_nextToItself (hse : s.coordinate = e.coordinate)
    (h : g.rejoinRoad m s e = some g') : g'.NextToItself e.coordinate := by
  obtain ⟨ns, -, h⟩ := Option.bind_eq_some_iff.mp h
  obtain ⟨ne, -, h⟩ := Option.bind_eq_some_iff.mp h
  cases h
  rw [nextToItself_replace, if_pos rfl, hse]
  exact find_insert_self _ _ _

variable {g₁ g₂ : Graph C}

/-- Cut and joined again, the road has the distance of its ends. -/
theorem neighbors_rejoined (hne : s.coordinate ≠ e.coordinate) (h₁ : g.cutRoad s e = some g₁)
    (h₂ : g₁.rejoinRoad m s e = some g₂) (c : C) : g₂.neighbors c =
      if c = s.coordinate then (g.neighbors c).map
        (·.assign e.coordinate (m.hubenyDistance s.coordinate e.coordinate))
      else if c = e.coordinate then (g.neighbors c).map
        (·.assign s.coordinate (m.hubenyDistance s.coordinate e.coordinate))
      else g.neighbors c := by
  rw [rejoinRoad_eq] at h₂
  rw [cutRoad_eq] at h₁
  rw [onEnds_spec hne h₂, onEnds_spec hne h₁]
  split_ifs
  · rw [Option.map_map]
    congr 1
    funext nb
    exact StdMap.insert_erase _ _ _
  · rw [Option.map_map]
    congr 1
    funext nb
    exact StdMap.insert_erase _ _ _
  · rfl

omit [Zero C] in
theorem assign_eq_self_iff {nb : StdMap C ℚ} {x : C} {d : ℚ} :
    nb.assign x d = nb ↔ nb.find x = some d := by
  refine ⟨fun h => ?_, StdMap.assign_find_self⟩
  rw [← h]
  exact StdMap.find_assign_self nb x d

theorem neighbors_rejoined_iff (hne : s.coordinate ≠ e.coordinate)
    (h₁ : g.cutRoad s e = some g₁) (h₂ : g₁.rejoinRoad m s e = some g₂)
    (he : g.find e.coordinate ≠ none) : g₂.neighbors = g.neighbors ↔
      neighborDist g s.coordinate e.coordinate =
          some (m.hubenyDistance s.coordinate e.coordinate) ∧
        neighborDist g e.coordinate s.coordinate =
          some (m.hubenyDistance s.coordinate e.coordinate) := by
  obtain ⟨ns, hs⟩ := Option.ne_none_iff_exists'.mp (neighbors_ne_none.mpr
    (find_of_onEnds (cutRoad_eq.symm.trans h₁)))
  obtain ⟨ne, he⟩ := Option.ne_none_iff_exists'.mp (neighbors_ne_none.mpr he)
  rw [neighborDist_eq, neighborDist_eq, hs, he, Option.bind_some, Option.bind_some,
    ← assign_eq_self_iff, ← assign_eq_self_iff]
  constructor
  · intro h
    have hat := fun c => (neighbors_rejoined hne h₁ h₂ c).symm.trans (congrFun h c)
    have hs' := hat s.coordinate
    have he' := hat e.coordinate
    rw [if_pos rfl, hs] at hs'
    rw [if_neg hne.symm, if_pos rfl, he] at he'
    exact ⟨Option.some.inj hs', Option.some.inj he'⟩
  · rintro ⟨hs', he'⟩
    funext c
    rw [neighbors_rejoined hne h₁ h₂]
    split_ifs with hcs hce
    · rw [hcs, hs, Option.map_some, hs']
    · rw [hce, he, Option.map_some, he']
    · rfl

end Graph

/-! ## Both -/

section Restore

variable [Zero C] {m : RoadMap C}

/-- The update and the restoration go through and leave every neighbour list as it was. -/
def Restores (m : RoadMap C) (way : String) (g : Graph C) (id : String) : Prop :=
  ∃ ni g₁ g₂, m.nodeOf id = some ni ∧ updateGraphInfo m way g ni = some g₁ ∧
    restoreGraphInfo m g₁ id = some g₂ ∧ g₂.neighbors = g.neighbors

/-- The node is on a road that is as long as its ends are apart. -/
def OnDirectRoad (m : RoadMap C) (g : Graph C) (id : String) : Prop :=
  ∃ ni s e, m.nodeOf id = some ni ∧ ni.isCrossing = false ∧ m.roadEnds ni = some (s, e) ∧
    neighborDist g s e = some (m.hubenyDistance s e)

/-- A road joins two crossings, and it is as long one way as the other. -/
structure IsRoadGraph (g : Graph C) : Prop where
  keyed : g.Keyed
  origin : g.find 0 = none
  symm : ∀ u v, neighborDist g u v = neighborDist g v u
  apart : ∀ c, ¬ g.NextToItself c

/-- One turn of the loop over the ways of a crossing. -/
def rejoinWay (m : RoadMap C) (pos : C) (g : Graph C) (way : String) : Option (Graph C) := do
  let wi ← m.linestrings.find way
  return g.rejoin m (crossingBeyond pos wi.nodes) (crossingBeyond pos wi.nodes.reverse)

theorem restoreGraphInfo_eq (hkey : Graph.Keyed m.nodes) {id : String} {ni : WayNode C}
    (hni : m.nodeOf id = some ni) : restoreGraphInfo m g id =
      if ni.isCrossing then ni.wayIDs.foldlM (rejoinWay m ni.coordinate) g
      else (m.wayOf ni).bind fun wi =>
        g.rejoinRoad m ((crossingAfter ni.coordinate wi.nodes).getD .new)
          ((crossingAfter ni.coordinate wi.nodes.reverse).getD .new) := by
  obtain ⟨pos, hpos, hnode⟩ := Option.bind_eq_some_iff.mp hni
  have hc := hkey pos ni hnode
  subst hc
  rw [restoreGraphInfo, hpos, Option.bind_eq_bind, Option.bind_some, hnode,
    Option.bind_eq_bind, Option.bind_some]
  rfl

/-- A crossing comes back next to itself. -/
theorem rejoinWays_nextToItself {pos : C} {l : List String} (hl : l ≠ [])
    (h : l.foldlM (rejoinWay m pos) g = some g') : ∃ c, g'.NextToItself c := by
  cases l with
  | nil => exact absurd rfl hl
  | cons way l =>
    obtain ⟨g₁, h₁, h⟩ := Option.bind_eq_some_iff.mp h
    obtain ⟨wi, -, h₁⟩ := Option.bind_eq_some_iff.mp h₁
    cases h₁
    refine ⟨_, foldlM_invariant (P := fun g => Graph.NextToItself g _) ?_
      (Graph.rejoin_nextToItself m g _ _).1 h⟩
    intro g way g' hg hstep
    obtain ⟨wi, -, hstep⟩ := Option.bind_eq_some_iff.mp hstep
    cases hstep
    exact (Graph.rejoin_nextToItself m g _ _).2 _ hg

theorem road_between {id : String} (hkey : Graph.Keyed m.nodes) {ni : WayNode C}
    (hni : m.nodeOf id = some ni) (hcross : ni.isCrossing = false) {a b : C}
    (hends : m.roadEnds ni = some (a, b)) : ∃ s e : WayNode C, s.coordinate = a ∧
      e.coordinate = b ∧ (∀ way g, updateGraphInfo m way g ni = Graph.cutRoad g s e) ∧
        ∀ g, restoreGraphInfo m g id = Graph.rejoinRoad m g s e := by
  obtain ⟨wi, hwi, hends⟩ := Option.bind_eq_some_iff.mp hends
  obtain ⟨s, hs, hends⟩ := Option.bind_eq_some_iff.mp hends
  obtain ⟨e, he, hends⟩ := Option.bind_eq_some_iff.mp hends
  cases hends
  refine ⟨s, e, rfl, rfl, fun way g => ?_, fun g => ?_⟩
  · have hwi : ni.wayIDs.head?.bind m.linestrings.find = some wi := hwi
    rw [updateGraphInfo, hwi, Option.bind_eq_bind, Option.bind_some, hcross,
      if_neg Bool.false_ne_true, hs, he]
    rfl
  · rw [restoreGraphInfo_eq hkey hni, hcross, if_neg Bool.false_ne_true, hwi, Option.bind_some,
      hs, he]
    rfl

/-- Exactly the roads as long as the direct distance of their ends are restored, and no crossing
is. -/
theorem restores_iff (way : WayInfo C) {id : String} (hkey : Graph.Keyed m.nodes)
    (hg : IsRoadGraph g) : Restores m way.id g id ↔ OnDirectRoad m g id := by
  constructor
  · rintro ⟨ni, g₁, g₂, hni, h₁, h₂, hsame⟩
    rw [restoreGraphInfo_eq hkey hni] at h₂
    obtain ⟨hblock, -, -⟩ := updateGraphInfo_spec hg.keyed hg.origin h₁
    cases hcross : ni.isCrossing with
    | true =>
      rw [hcross, if_pos rfl] at h₂
      have hways : ni.wayIDs ≠ [] := by
        intro hnil
        refine hblock.1 ?_
        rw [RoadMap.wayOf, hnil]
        rfl
      obtain ⟨c, hc⟩ := rejoinWays_nextToItself hways h₂
      refine absurd hc ?_
      unfold Graph.NextToItself
      rw [Graph.neighborDist_eq, hsame, ← Graph.neighborDist_eq]
      exact hg.apart c
    | false =>
      have hroad := hblock.2
      rw [hcross, if_neg Bool.false_ne_true] at hroad
      obtain ⟨a, b, hends, -, hb⟩ := hroad
      obtain ⟨s, e, rfl, rfl, hupdate, hrestore⟩ := road_between hkey hni hcross hends
      rw [hupdate] at h₁
      rw [← restoreGraphInfo_eq hkey hni, hrestore] at h₂
      have hne : s.coordinate ≠ e.coordinate := by
        intro hse
        refine absurd (Graph.rejoinRoad_nextToItself hse h₂) ?_
        unfold Graph.NextToItself
        rw [Graph.neighborDist_eq, hsame, ← Graph.neighborDist_eq]
        exact hg.apart _
      exact ⟨ni, _, _, hni, hcross, hends, ((Graph.neighbors_rejoined_iff hne h₁ h₂ hb).mp hsame).1⟩
  · rintro ⟨ni, a, b, hni, hcross, hends, hab⟩
    have hba := (hg.symm b a).trans hab
    obtain ⟨s, e, rfl, rfl, hupdate, hrestore⟩ := road_between hkey hni hcross hends
    have hne : s.coordinate ≠ e.coordinate := by
      intro hse
      refine hg.apart e.coordinate ?_
      rw [hse] at hab
      rw [Graph.NextToItself, hab]
      exact Option.some_ne_none _
    have hs := Graph.find_of_neighborDist hab
    have he := Graph.find_of_neighborDist hba
    obtain ⟨g₁, h₁⟩ := Graph.cutRoad_isSome hg.keyed hs he
    obtain ⟨-, -, hleaves, -, -⟩ := Graph.cutRoad_spec hg.keyed h₁
    obtain ⟨g₂, h₂⟩ : ∃ g₂, g₁.rejoinRoad m s e = some g₂ := by
      rw [Graph.rejoinRoad_eq]
      exact Graph.onEnds_isSome ((hleaves.kept _).mpr ⟨hs, not_false⟩)
        ((hleaves.kept _).mpr ⟨he, not_false⟩)
    exact ⟨ni, g₁, g₂, hni, (hupdate ..).trans h₁, (hrestore g₁).trans h₂,
      (Graph.neighbors_rejoined_iff hne h₁ h₂ he).mpr ⟨hab, hba⟩⟩

end Restore

/-! ## A lane

`node/1` and `node/2` are the ends of a lane, and `node/3` is on it. -/

def sampleLaneNodes : StdMap ℕ (WayNode ℕ) :=
  .ofList [(1, sampleCrossing 1 ["way/1"] [(2, 10)]), (2, sampleCrossing 2 ["way/1"] [(1, 10)]),
    (3, ⟨3, ["way/1"], nodeID 3, false, false, .empty⟩)]

theorem sampleLane_numbered : ∀ e ∈ sampleIds.entries,
    (sampleLaneNodes.find e.2).map WayNode.nodeID = some e.1 := by decide

theorem sampleLane_canonical (pos : ℕ) (node : WayNode ℕ)
    (h : sampleLaneNodes.find pos = some node) : Canonical node.nodeID := by
  have hall : ∀ e ∈ sampleLaneNodes.entries, ∃ n ∈ [1, 2, 3], e.2.nodeID = nodeID n := by decide
  obtain ⟨n, hn, he⟩ := hall (pos, node) (StdMap.mem_entries.mpr h)
  have hle : ∀ k ∈ [1, 2, 3], k ≤ intMax := by decide
  exact ⟨n, hle n hn, he⟩

def sampleLane : RoadMap ℕ where
  nodes := sampleLaneNodes
  linestrings := .ofList [("way/1", ⟨"way/1", [1, 3, 2].filterMap sampleLaneNodes.find⟩)]
  idToCoordinate := sampleIds
  hubenyDistance _ _ := 10
  calculateDistance _ _ := 10
  rnd q := q
  numbered id pos h := sampleLane_numbered (id, pos) (StdMap.mem_entries.mpr h)
  canonical := sampleLane_canonical
  origin := by decide

def sampleLaneRoads : Graph ℕ := sampleLaneNodes.erase 3

theorem sampleLaneRoads_isRoadGraph : IsRoadGraph sampleLaneRoads where
  keyed c node hc := by
    have hall : ∀ e ∈ sampleLaneRoads.entries, e.2.coordinate = e.1 := by decide
    exact hall (c, node) (StdMap.mem_entries.mpr hc)
  origin := by decide
  symm u v := by
    have hall : ∀ e ∈ sampleLaneRoads.entries, ∀ r ∈ e.2.neighborNodes.entries,
        neighborDist sampleLaneRoads r.1 e.1 = some r.2 := by decide
    have hback : ∀ u v d, neighborDist sampleLaneRoads u v = some d →
        neighborDist sampleLaneRoads v u = some d := by
      intro u v d h
      obtain ⟨node, hu, hv⟩ := Option.bind_eq_some_iff.mp h
      exact hall (u, node) (StdMap.mem_entries.mpr hu) (v, d) (StdMap.mem_entries.mpr hv)
    exact Option.ext fun d => ⟨hback u v d, hback v u d⟩
  apart c hc := by
    have hall : ∀ e ∈ sampleLaneRoads.entries, e.2.neighborNodes.find e.1 = none := by decide
    unfold Graph.NextToItself neighborDist at hc
    cases hfind : sampleLaneRoads.find c with
    | none => simp [hfind] at hc
    | some node =>
      rw [hfind] at hc
      exact hc (hall (c, node) (StdMap.mem_entries.mpr hfind))

/-- The lane is as long as its ends are apart. -/
theorem restores_iff_sample : Restores sampleLane "way/1" sampleLaneRoads (nodeID 3) := by
  have hnodes : ∀ e ∈ sampleLaneNodes.entries, e.2.coordinate = e.1 := by decide
  exact (restores_iff ⟨"way/1", []⟩
    (fun c node hc => hnodes (c, node) (StdMap.mem_entries.mpr hc)) sampleLaneRoads_isRoadGraph).mpr
      ⟨⟨3, ["way/1"], nodeID 3, false, false, .empty⟩, 2, 1, rfl, rfl, rfl, by decide⟩

/-- The crossing at the near shelter comes back, but the one next to it is cut off from the
shelter farther away. -/
theorem crossing_not_restored : ¬ Restores sampleTown "way/1" sampleRoads (nodeID 2) := by
  rintro ⟨ni, g₁, g₂, hni, h₁, h₂, hsame⟩
  have hrun : ((sampleTown.nodeOf (nodeID 2)).bind fun ni =>
      (updateGraphInfo sampleTown "way/1" sampleRoads ni).bind fun g₁ =>
        (restoreGraphInfo sampleTown g₁ (nodeID 2)).map fun g₂ => neighborDist g₂ 1 3) =
      some none := by decide +kernel
  rw [hni, Option.bind_some, h₁, Option.bind_some, h₂, Option.map_some, Graph.neighborDist_eq,
    hsame] at hrun
  have hroad : (sampleRoads.neighbors 1).bind (·.find 3) = some 20 := by decide
  rw [hroad] at hrun
  cases hrun

end Ns3.Ferry2
