import Ns3.Ferry2.RoadGraph
import Ns3.Lib.Explore
import Mathlib.Data.Set.Card

/-!
# Pruning the road map

The rest of `JSON_Data::json_input`: `SetGraph` searches the map from every
crossing, the largest of the graphs that are found is kept, and the ways outside
it are erased with their nodes. `none` is an `at` that throws, the dereference
of an `end ()`, or a search that is deeper than the number of calls it is given.
-/

namespace Ns3.Ferry2

open Ns3.Lib Relation

variable {C : Type} [LinearOrder C]

/-- `JSON_Data::SetGraph`, with at most `k` calls inside one another. -/
def setGraph (nodes : StdMap C (WayNode C)) : ℕ → Graph C → C → Option (Graph C)
  | 0, _, _ => none
  | k + 1, sGraph, node => do
    let wno ← nodes.find node
    if sGraph.contains node then return sGraph
    else wno.neighborNodes.keys.foldlM (fun sGraph it2 => do
      let nWno ← nodes.find it2
      setGraph nodes k sGraph nWno.coordinate) (sGraph.insert node wno)

/-- The loop over `wnl` that puts `wno` in the place of its first copy. -/
def putFirst (wno : WayNode C) : List (WayNode C) → List (WayNode C)
  | [] => []
  | it3 :: rest => if wno.coordinate = it3.coordinate then wno :: rest else it3 :: putFirst wno rest

/-- The loop over `wn_ID_list`. -/
def updateWays (wno : WayNode C) (linestrings : StdMap String (WayInfo C)) :
    Option (StdMap String (WayInfo C)) :=
  wno.wayIDs.foldlM (fun linestrings id => do
    let it2 ← linestrings.find id
    return linestrings.assign id { it2 with nodes := putFirst wno it2.nodes }) linestrings

/-- Which of the two graphs is kept. -/
def largerGraph (graph sGraph : Graph C) : Graph C :=
  if graph.entries = [] then sGraph else if graph.size < sGraph.size then sGraph else graph

/-- The body of the loop over the nodes; `st` is `linestrings` and `graph`. -/
def surveyNode (k : ℕ) (nodes : StdMap C (WayNode C)) (st : StdMap String (WayInfo C) × Graph C)
    (e : C × WayNode C) : Option (StdMap String (WayInfo C) × Graph C) := do
  let linestrings ← updateWays e.2 st.1
  if e.2.isCrossing then
    let sGraph ← setGraph nodes k .empty e.2.coordinate
    return (linestrings, largerGraph st.2 sGraph)
  else return (linestrings, st.2)

/-- What the loop over the nodes of the way `id` adds to `erase_way`. -/
def eraseWays (nodes : StdMap C (WayNode C)) (graph : Graph C) (id : String) :
    Bool → List (WayNode C) → Option (List String)
  | flag, [] => some (if flag then [] else [id])
  | flag, it2 :: rest => do
    let node ← nodes.find it2.coordinate
    if node.isCrossing then
      if graph.contains it2.coordinate then return []
      else
        let ids ← eraseWays nodes graph id true rest
        return id :: ids
    else eraseWays nodes graph id flag rest

/-- `std::list::unique`. -/
def unique : List String → List String
  | [] => []
  | [id] => [id]
  | id :: id' :: ids => if id = id' then unique (id' :: ids) else id :: unique (id' :: ids)

/-- The body of the loop over `erase_way`. -/
def eraseWay (d : MapData C) (id : String) : Option (MapData C) := do
  let it ← d.linestrings.find id
  return ⟨it.nodes.foldl (fun nodes it2 => nodes.erase it2.coordinate) d.nodes,
    d.linestrings.erase id⟩

/-- The graph that is kept, and what is left of the map. -/
def pruneRoads (k : ℕ) (d : MapData C) : Option (Graph C × MapData C) := do
  let st ← d.nodes.entries.foldlM (surveyNode k d.nodes) (d.linestrings, .empty)
  let ids ← st.1.entries.foldlM (fun ids e => do
    let ids' ← eraseWays d.nodes st.2 e.1 false e.2.nodes
    return ids ++ ids') []
  let d ← (unique ids).foldlM eraseWay ⟨d.nodes, st.1⟩
  return (st.2, d)

/-- `JSON_Data::json_input`, as far as the roads go. -/
def jsonInput (g : Geodesic C) (k : ℕ) (features : List (Feature C)) :
    Option (Graph C × MapData C) := do
  let d := readFeatures features
  let nodes ← linkRoads g d
  pruneRoads k ⟨nodes, d.linestrings⟩

end Ns3.Ferry2
