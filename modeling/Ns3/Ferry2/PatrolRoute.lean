import Mathlib.Data.String.Basic
import Ns3.Ferry2.Precalculation

/-!
# The patrol route of the ferry

`SetExitNodeDistance` and `CalculatePatrolRoute` (`evacuation-building.cc`). The
route goes from each shelter to the first of the nearest ones that it has not
been to. The search for it starts from the greatest `double`, so that a shelter
this far away is never found: what is then pushed is the empty name.
`none` is an exception of `at`, or a loop that has not ended by then.
-/

namespace Ns3.Ferry2

open Ns3.Lib

/-- `exit_node_distances`. -/
abbrev ExitNodeDistances := StdMap String (StdMap String ℚ)

namespace ExitNodeDistances

/-- `exit_node_distances[a][b]`, which puts in what is not there. -/
def index (t : ExitNodeDistances) (a b : String) : ℚ × ExitNodeDistances :=
  let row := (t.find a).getD .empty
  let d := (row.find b).getD 0
  (d, t.assign a (row.assign b d))

/-- `exit_node_distances.at(a).at(b)`. -/
def at? (t : ExitNodeDistances) (a b : String) : Option ℚ := (t.find a).bind (·.find b)

end ExitNodeDistances

/-! ## `CalculatePatrolRoute` -/

/-- `min_dist_to_next` and `nearest_shelter`. -/
structure NearestSearch where
  table : ExitNodeDistances
  minDist : ℚ
  nearestShelter : String

namespace NearestSearch

def start (t : ExitNodeDistances) : NearestSearch := ⟨t, maxWeight, ""⟩

/-- The body of the loop over the candidates. -/
def compare (current : String) (s : NearestSearch) (candidate : String) : NearestSearch :=
  let read := s.table.index current candidate
  if read.1 < s.minDist then
    { table := read.2, minDist := read.1, nearestShelter := candidate }
  else { s with table := read.2 }

end NearestSearch

/-- The search for the nearest of the unvisited shelters. -/
def nearestOf (t : ExitNodeDistances) (current : String) (unvisited : List String) :
    NearestSearch :=
  unvisited.foldl (NearestSearch.compare current) (.start t)

/-- The loop over the unvisited shelters, in the order of the set. -/
def patrolLoop : ℕ → ExitNodeDistances → String → List String → List String →
    Option (ExitNodeDistances × List String)
  | 0, _, _, _, _ => none
  | k + 1, t, current, unvisited, route =>
    if unvisited = [] then some (t, route)
    else
      let s := nearestOf t current unvisited
      patrolLoop k s.table s.nearestShelter (unvisited.erase s.nearestShelter)
        (route ++ [s.nearestShelter])

/-- The loop that adds up `total_distance`. -/
def legsDistance (t : ExitNodeDistances) : ℚ → List String → Option ℚ
  | total, a :: b :: route => do
    let d ← t.at? a b
    legsDistance t (total + d) (b :: route)
  | total, _ => some total

/-- `total_distance`, with the way back to the first stop. -/
def lapDistance (t : ExitNodeDistances) (route : List String) : Option ℚ := do
  let total ← legsDistance t 0 route
  let last ← route.getLast?
  let start ← route.head?
  let d ← t.at? last start
  return total + d

/-- The part of `MyBuilding` that is read and written. -/
structure PatrolBuilding where
  setexitAutoflag : Bool
  exitNodes : StdMap String UInt32
  exitNodeDistances : ExitNodeDistances
  ferryStart : String
  patrolRoute : List String

namespace PatrolBuilding

/-- `ferry_start` once it is set; there is no first exit in an empty map. -/
def startNode (b : PatrolBuilding) : Option String :=
  if b.setexitAutoflag then b.exitNodes.keys.head? else some b.ferryStart

def calculatePatrolRoute (k : ℕ) (b : PatrolBuilding) : Option PatrolBuilding := do
  let start ← b.startNode
  let unvisited := b.exitNodeDistances.keys.filter (· ≠ start)
  let (t, route) ← patrolLoop k b.exitNodeDistances start unvisited [start]
  let _ ← lapDistance t route
  return { b with exitNodeDistances := t, ferryStart := start, patrolRoute := route }

/-- `SetExitNodeDistance` up to the call of `CalculatePatrolRoute`. -/
def fillDistances (distance : String → String → ℚ) (b : PatrolBuilding) : PatrolBuilding :=
  { b with
    exitNodeDistances := b.exitNodes.keys.foldl
      (fun t x => t.insert x (b.exitNodes.filterMap fun y _ => some (distance x y)))
      b.exitNodeDistances }

def setExitNodeDistance (k : ℕ) (distance : String → String → ℚ) (b : PatrolBuilding) :
    Option PatrolBuilding :=
  (b.fillDistances distance).calculatePatrolRoute k

end PatrolBuilding

end Ns3.Ferry2
