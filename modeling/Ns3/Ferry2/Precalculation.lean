import Ns3.Lib.StdMap
import Mathlib.Algebra.Order.Ring.Rat
import Mathlib.Data.List.Sort
import Mathlib.Data.Prod.Lex

/-!
# Precalculated evacuation routes

`dijkstra_pair`, `reconstruct_path_pair` and `precalculate_shortest_paths`
(`json_data.cc`). Coordinates and weights are rationals, and sums of weights
exact. A loop takes the number of turns it may take; `none` is a loop that has
not ended by then. `std::sort` and `std::rand` are parameters: only the
distances are compared, so that shelters as far away come in any order.
-/

namespace Ns3.Ferry2

open Ns3.Lib

/-- `std::pair<double, double>`: longitude and latitude. -/
abbrev Pos := ℚ ×ₗ ℚ

def mkPos (first second : ℚ) : Pos := toLex (first, second)

/-- `dummy_parent`. -/
def dummyParent : Pos := mkPos (-1) (-1)

/-- `inf`, the greatest `double`. -/
def maxWeight : ℚ := 2 ^ 1024 - 2 ^ 971

/-- The part of `way_node` that the precalculation reads and writes. -/
structure UavNode where
  neighborNodesforUAV : StdMap Pos ℚ
  shortestPath : List Pos
  nearestShelter : Pos

abbrev UavMap := StdMap Pos UavNode

/-! ## `dijkstra_pair` -/

/-- `dist`, `parent` and `pq`, in the order in which `top` finds them. -/
structure PairSearch where
  dist : StdMap Pos ℚ
  parent : StdMap Pos Pos
  pq : List (ℚ ×ₗ Pos)

namespace PairSearch

def start (nodes : UavMap) (s : Pos) : PairSearch where
  dist := (nodes.filterMap fun _ _ => some maxWeight).assign s 0
  parent := nodes.filterMap fun _ _ => some dummyParent
  pq := [toLex (0, s)]

/-- The body of the loop over the edges of `u`. -/
def relaxEdge (u : Pos) (st : PairSearch) (edge : Pos × ℚ) : PairSearch :=
  match st.dist.find edge.1, st.dist.find u with
  | some dv, some du =>
    if du + edge.2 < dv then
      { dist := st.dist.assign edge.1 (du + edge.2)
        parent := st.parent.assign edge.1 u
        pq := st.pq.orderedInsert (· ≤ ·) (toLex (du + edge.2, edge.1)) }
    else st
  | _, _ => st

/-- What the main loop does with an element it has popped. -/
def visit (nodes : UavMap) (st : PairSearch) (d : ℚ) (u : Pos) : Option PairSearch :=
  match st.dist.find u with
  | none => some st
  | some du =>
    if du < d then some st
    else do
      let node ← nodes.find u
      return node.neighborNodesforUAV.entries.foldl (relaxEdge u) st

def loop (nodes : UavMap) : ℕ → PairSearch → Option PairSearch
  | 0, _ => none
  | k + 1, st =>
    match st.pq with
    | [] => some st
    | top :: rest => do
      let st ← visit nodes { st with pq := rest } (ofLex top).1 (ofLex top).2
      loop nodes k st

end PairSearch

def dijkstraPair (k : ℕ) (nodes : UavMap) (s : Pos) : Option PairSearch :=
  PairSearch.loop nodes k (.start nodes s)

/-! ## `reconstruct_path_pair` -/

/-- The loop of `reconstruct_path_pair`, with the part of the path that is pushed already. -/
def traceBack (s : Pos) (parent : StdMap Pos Pos) : ℕ → Pos → List Pos → Option (List Pos)
  | 0, _, _ => none
  | k + 1, current, path =>
    if current ≠ dummyParent ∧ current ≠ s then
      match parent.find current with
      | none => some []
      | some p => traceBack s parent k p (path ++ [current])
    else if current = s then some (path ++ [s]).reverse
    else some []

def reconstructPathPair (k : ℕ) (s target : Pos) (parent : StdMap Pos Pos) : Option (List Pos) :=
  traceBack s parent k target []

/-! ## `precalculate_shortest_paths` -/

/-- `shelter_candidates`. -/
def shelterCandidates (dist : StdMap Pos ℚ) (exit : List Pos) : List (ℚ × Pos) :=
  exit.filterMap fun s => (dist.find s).map (·, s)

/-- The candidate drawn by `rand`, from the three that come first. -/
def targetShelter (sort : List (ℚ × Pos) → List (ℚ × Pos)) (rand : ℕ)
    (candidates : List (ℚ × Pos)) : Pos :=
  match (sort candidates)[rand % min 3 candidates.length]? with
  | some target => target.2
  | none => dummyParent

/-- What is stored for the crossing `u`: the path and the shelter. -/
def precalculateFrom (k : ℕ) (sort : List (ℚ × Pos) → List (ℚ × Pos)) (rand : ℕ) (exit : List Pos)
    (nodes : UavMap) (u : Pos) : Option (List Pos × Pos) := do
  let st ← dijkstraPair k nodes u
  let target := targetShelter sort rand (shelterCandidates st.dist exit)
  if (ofLex target).1 ≠ -1 then
    let path ← reconstructPathPair k u target st.parent
    return (path, target)
  else return ([], dummyParent)

/-- The body of the loop over the nodes. -/
def storeRoute (k : ℕ) (sort : List (ℚ × Pos) → List (ℚ × Pos)) (rand : Pos → ℕ) (exit : List Pos)
    (nodes : UavMap) (e : Pos × UavNode) : Option UavMap := do
  let stored ← precalculateFrom k sort (rand e.1) exit nodes e.1
  let node ← nodes.find e.1
  return nodes.assign e.1 { node with shortestPath := stored.1, nearestShelter := stored.2 }

/-- `JSON_Data::precalculate_shortest_paths`; `rand u` is the number drawn for `u`. -/
def precalculateShortestPaths (k : ℕ) (sort : List (ℚ × Pos) → List (ℚ × Pos)) (rand : Pos → ℕ)
    (exit : List Pos) (nodes : UavMap) : Option UavMap :=
  if nodes.entries = [] ∨ exit = [] then some nodes
  else nodes.entries.foldlM (storeRoute k sort rand exit) nodes

end Ns3.Ferry2
