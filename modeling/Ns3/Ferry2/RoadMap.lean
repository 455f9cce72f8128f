import Ns3.Ferry2.Dtn

/-!
# Roads

The part of `JSON_Data` (`json_data.cc`) a moving user reads, and the two
functions of `MyUser` (`evacuation-user.cc`) that take a blocked crossing or
road out of the user's own graph and put it back. Coordinates are only
compared, and the two geodesic distances are parameters. `none` is an exception
nobody catches, or a `front ()` of an empty list.
-/

namespace Ns3.Ferry2

open Ns3.Lib

variable {C : Type} [LinearOrder C]

/-- `way_node`. -/
structure WayNode (C : Type) [LinearOrder C] where
  coordinate : C
  wayIDs : List String
  nodeID : String
  isCrossing : Bool
  isBlocked : Bool
  neighborNodes : StdMap C ℚ

/-- `way_info`. -/
structure WayInfo (C : Type) [LinearOrder C] where
  id : String
  nodes : List (WayNode C)

/-- A user's graph: its crossings, each with the crossings next to it. -/
abbrev Graph (C : Type) [LinearOrder C] := StdMap C (WayNode C)

/-! ## Blocking and unblocking -/

/-- A loop body of `update_mapinfo`: the crossing is taken out and put back with its flag set. -/
def withFlag (nodes : StdMap C (WayNode C)) (pos : C) (flag : Bool) : StdMap C (WayNode C) :=
  match nodes.find pos with
  | some node => (nodes.erase pos).insert pos { node with isBlocked := flag }
  | none => nodes

theorem find_withFlag (nodes : StdMap C (WayNode C)) (pos pos' : C) (flag : Bool) :
    (withFlag nodes pos flag).find pos' = (nodes.find pos').map fun node =>
      if pos' = pos then { node with isBlocked := flag } else node := by
  unfold withFlag
  split
  · rename_i node hnode
    rw [StdMap.insert_erase, StdMap.find_assign]
    split_ifs with h
    · subst h
      simp [hnode]
    · simp
  · rename_i hnone
    split_ifs with h
    · subst h
      simp [hnone]
    · simp

theorem nodeID_withFlag (nodes : StdMap C (WayNode C)) (pos pos' : C) (flag : Bool) :
    ((withFlag nodes pos flag).find pos').map WayNode.nodeID =
      (nodes.find pos').map WayNode.nodeID := by
  rw [find_withFlag, Option.map_map]
  congr 1
  funext node
  simp only [Function.comp_apply]
  split_ifs <;> rfl

/-! ## The map -/

/-- `JSON_Data`. The last three fields are what `SetNodeID` and `json_input` see to: `SetNodeID`
writes both directions of the numbering, and `json_input` takes `(0, 0)` for no coordinate. -/
structure RoadMap (C : Type) [LinearOrder C] [Zero C] where
  nodes : StdMap C (WayNode C)
  linestrings : StdMap String (WayInfo C)
  idToCoordinate : StdMap String C
  hubenyDistance : C → C → ℚ
  calculateDistance : C → C → ℚ
  /-- What a `double` keeps of the result of an operation. -/
  rnd : ℚ → ℚ
  numbered : ∀ id pos, idToCoordinate.find id = some pos →
    (nodes.find pos).map WayNode.nodeID = some id
  canonical : ∀ pos node, nodes.find pos = some node → Canonical node.nodeID
  origin : nodes.find 0 = none

variable [Zero C]

/-- `way_node ()`. -/
def WayNode.new : WayNode C := ⟨0, [], "", false, false, .empty⟩

namespace RoadMap

def getIDfromCoordinate (m : RoadMap C) (pos : C) : Option String :=
  (m.nodes.find pos).map WayNode.nodeID

variable {m : RoadMap C}

theorem getIDfromCoordinate_of_find {id : String} {pos : C}
    (h : m.idToCoordinate.find id = some pos) : m.getIDfromCoordinate pos = some id :=
  m.numbered id pos h

theorem canonical_getIDfromCoordinate {id : String} {pos : C}
    (h : m.getIDfromCoordinate pos = some id) : Canonical id := by
  unfold getIDfromCoordinate at h
  obtain ⟨node, hnode, rfl⟩ := Option.map_eq_some_iff.mp h
  exact m.canonical pos node hnode

theorem getIDfromCoordinate_zero : m.getIDfromCoordinate 0 = none := by
  simp [getIDfromCoordinate, m.origin]

/-- The map with a crossing blocked or unblocked. -/
def setBlocked (m : RoadMap C) (pos : C) (flag : Bool) : RoadMap C :=
  { m with
    nodes := withFlag m.nodes pos flag
    numbered := fun id pos' h => by
      rw [nodeID_withFlag]
      exact m.numbered id pos' h
    canonical := fun pos' node h => by
      have hid := nodeID_withFlag m.nodes pos pos' flag
      rw [h] at hid
      obtain ⟨node', hnode', he⟩ := Option.map_eq_some_iff.mp hid.symm
      rw [← he]
      exact m.canonical pos' node' hnode'
    origin := by simp [find_withFlag, m.origin] }

end RoadMap

/-! ## A user's graph -/

/-- The first crossing of a way after `pos`. -/
def crossingAfter (pos : C) (wnl : List (WayNode C)) : Option (WayNode C) :=
  ((wnl.dropWhile fun it => it.coordinate ≠ pos).drop 1).find? WayNode.isCrossing

/-- `SetNeighborNodes`, then `m_graph.erase` and `m_graph.insert`. -/
def Graph.replace (g : Graph C) (node : WayNode C) (neighbors : StdMap C ℚ) : Graph C :=
  (g.erase node.coordinate).insert node.coordinate { node with neighborNodes := neighbors }

/-- The branch of `UpdateGraphInfo` for a crossing. `insert` keeps the neighbour that is there. -/
def Graph.forgetCrossing (g : Graph C) (ni : WayNode C) : Option (Graph C) :=
  ni.neighborNodes.keys.foldlM (fun g neighbor => do
    let node ← g.find neighbor
    let node := { node with neighborNodes := node.neighborNodes.erase ni.coordinate }
    return (g.erase ni.coordinate).insert node.coordinate node) g

/-- The branch for a road between two crossings. -/
def Graph.cutRoad (g : Graph C) (s e : WayNode C) : Option (Graph C) := do
  let sNeighbor ← g.find s.coordinate
  let g := g.replace s (sNeighbor.neighborNodes.erase e.coordinate)
  let eNeighbor ← g.find e.coordinate
  return g.replace e (eNeighbor.neighborNodes.erase s.coordinate)

/-- `MyUser::UpdateGraphInfo`, for a user on the way `currentway`. -/
def updateGraphInfo (m : RoadMap C) (currentway : String) (g : Graph C) (ni : WayNode C) :
    Option (Graph C) := do
  let wi ← ni.wayIDs.head?.bind m.linestrings.find
  if ni.isCrossing then
    let _ ← m.linestrings.find currentway
    g.forgetCrossing ni
  else
    g.cutRoad ((crossingAfter ni.coordinate wi.nodes).getD .new)
      ((crossingAfter ni.coordinate wi.nodes.reverse).getD .new)

/-- Join two crossings again. The second neighbour list is read at the first crossing, too. -/
def Graph.rejoin (m : RoadMap C) (g : Graph C) (s e : WayNode C) : Graph C :=
  let dist := m.hubenyDistance s.coordinate e.coordinate
  let sNeighbor := ((g.find s.coordinate).map WayNode.neighborNodes).getD .empty
  let g := g.replace s (sNeighbor.insert e.coordinate dist)
  let eNeighbor := ((g.find s.coordinate).map WayNode.neighborNodes).getD .empty
  g.replace e (eNeighbor.insert s.coordinate dist)

/-- Join the two ends of a blocked road again. -/
def Graph.rejoinRoad (m : RoadMap C) (g : Graph C) (s e : WayNode C) : Option (Graph C) := do
  let dist := m.hubenyDistance s.coordinate e.coordinate
  let sNeighbor ← g.find s.coordinate
  let g := g.replace s (sNeighbor.neighborNodes.insert e.coordinate dist)
  let eNeighbor ← g.find e.coordinate
  return g.replace e (eNeighbor.neighborNodes.insert s.coordinate dist)

/-- The crossing after `pos`, or else the last one of the way. -/
def crossingBeyond (pos : C) (wnl : List (WayNode C)) : WayNode C :=
  (crossingAfter pos wnl).getD ((wnl.reverse.find? WayNode.isCrossing).getD .new)

/-- `MyUser::RestoreGraphInfo`. -/
def restoreGraphInfo (m : RoadMap C) (g : Graph C) (id : String) : Option (Graph C) := do
  let pos ← m.idToCoordinate.find id
  let ni ← m.nodes.find pos
  if ni.isCrossing then
    ni.wayIDs.foldlM (fun g way => do
      let wi ← m.linestrings.find way
      return g.rejoin m (crossingBeyond pos wi.nodes) (crossingBeyond pos wi.nodes.reverse)) g
  else
    let wi ← ni.wayIDs.head?.bind m.linestrings.find
    g.rejoinRoad m ((crossingAfter pos wi.nodes).getD .new)
      ((crossingAfter pos wi.nodes.reverse).getD .new)

/-! ## A small town

A crossing and two shelters, `node/2` near and `node/3` farther away. -/

def sampleCrossing (id : ℕ) (wayIDs : List String) (neighbors : List (ℕ × ℚ)) : WayNode ℕ :=
  ⟨id, wayIDs, nodeID id, true, false, .ofList neighbors⟩

def sampleRoads : Graph ℕ :=
  .ofList [(1, sampleCrossing 1 ["way/1", "way/2"] [(2, 10), (3, 20)]),
    (2, sampleCrossing 2 ["way/1"] [(1, 10)]), (3, sampleCrossing 3 ["way/2"] [(1, 20)])]

def sampleIds : StdMap String ℕ := .ofList [(nodeID 1, 1), (nodeID 2, 2), (nodeID 3, 3)]

def sampleWay (id : String) (ends : List ℕ) : String × WayInfo ℕ :=
  (id, ⟨id, ends.filterMap sampleRoads.find⟩)

theorem sampleIds_numbered : ∀ e ∈ sampleIds.entries,
    (sampleRoads.find e.2).map WayNode.nodeID = some e.1 := by decide

theorem sampleRoads_canonical : ∀ e ∈ sampleRoads.entries, ∃ n ∈ [1, 2, 3], e.2.nodeID = nodeID n := by
  decide

def sampleTown : RoadMap ℕ where
  nodes := sampleRoads
  linestrings := .ofList [sampleWay "way/1" [1, 2], sampleWay "way/2" [1, 3]]
  idToCoordinate := sampleIds
  hubenyDistance _ _ := 10
  calculateDistance _ _ := 10
  rnd q := q
  numbered id pos h := sampleIds_numbered (id, pos) (StdMap.mem_entries.mpr h)
  canonical pos node h := by
    obtain ⟨n, hn, he⟩ := sampleRoads_canonical (pos, node) (StdMap.mem_entries.mpr h)
    refine ⟨n, ?_, he⟩
    simp only [List.mem_cons, List.not_mem_nil, or_false] at hn
    unfold intMax
    omega
  origin := by decide

theorem sampleTown_open : ∀ pos node, sampleTown.nodes.find pos = some node →
    node.isBlocked = false := by
  intro pos node hnode
  have hall : ∀ e ∈ sampleRoads.entries, e.2.isBlocked = false := by decide
  exact hall (pos, node) (StdMap.mem_entries.mpr hnode)

end Ns3.Ferry2
