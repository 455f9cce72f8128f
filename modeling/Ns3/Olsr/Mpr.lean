import Mathlib.Data.Finset.Dedup
import Mathlib.Data.Finset.Insert
import Ns3.Lib.Buckets
import Ns3.Olsr.Neighbors

/-!
# `MprComputation`

The multipoint relays of a node, as `olsr-routing-protocol.cc` selects them:
all neighbors that always want to be, then those that alone reach a two-hop
neighbor, then the best neighbor while a two-hop neighbor is left to cover.
-/

namespace Ns3.Olsr

open Ns3.Lib

/-- `std::set<Ipv4Address>`. -/
abbrev MprSet := Finset Ipv4Address

section Computation

variable (mainAddress : Ipv4Address) (neighbors : NeighborSet) (twoHops : TwoHopNeighborSet)

/-- The neighbor set `N`. -/
def symNeighbors : List NeighborTuple := neighbors.tuples.filter fun n => n.status = .sym

/-- What the loop over the two-hop neighbors keeps. -/
def isN2 (N : List NeighborTuple) (t : TwoHopNeighborTuple) : Bool :=
  if t.twoHopNeighborAddr = mainAddress then false
  else
    match N.find? fun n => n.neighborMainAddr = t.neighborMainAddr with
    | none => false
    | some n =>
      if n.willingness = willNever then false
      else (N.find? fun n => n.neighborMainAddr = t.twoHopNeighborAddr).isNone

def coverTwoHopNeighbors (neighborMainAddr : Ipv4Address) (N2 : List TwoHopNeighborTuple) :
    List TwoHopNeighborTuple :=
  let toRemove : Finset Ipv4Address :=
    ((N2.filter fun t => t.neighborMainAddr = neighborMainAddr).map
      TwoHopNeighborTuple.twoHopNeighborAddr).toFinset
  N2.filter fun t => t.twoHopNeighborAddr ∉ toRemove

/-- Step 1. -/
def addAlways : List NeighborTuple → MprSet × List TwoHopNeighborTuple →
    MprSet × List TwoHopNeighborTuple
  | [], s => s
  | n :: N, (mprSet, N2) =>
    if n.willingness = willAlways then
      addAlways N (insert n.neighborMainAddr mprSet, coverTwoHopNeighbors n.neighborMainAddr N2)
    else addAlways N (mprSet, N2)

/-- No other neighbor reaches this two-hop neighbor. -/
def onlyOne (N2 : List TwoHopNeighborTuple) (t : TwoHopNeighborTuple) : Bool :=
  !N2.any fun o => o.twoHopNeighborAddr = t.twoHopNeighborAddr ∧
    o.neighborMainAddr ≠ t.neighborMainAddr

/-- The loop of step 3, with `coveredTwoHopNeighbors`. -/
def addOnly (N2 : List TwoHopNeighborTuple) : List TwoHopNeighborTuple →
    MprSet × Finset Ipv4Address → MprSet × Finset Ipv4Address
  | [], s => s
  | t :: ts, (mprSet, covered) =>
    if onlyOne N2 t then
      addOnly N2 ts (insert t.neighborMainAddr mprSet, covered ∪
        ((N2.filter fun o => o.neighborMainAddr = t.neighborMainAddr).map
          TwoHopNeighborTuple.twoHopNeighborAddr).toFinset)
    else addOnly N2 ts (mprSet, covered)

/-- Step 3. -/
def selectOnly (s : MprSet × List TwoHopNeighborTuple) : MprSet × List TwoHopNeighborTuple :=
  let (mprSet, covered) := addOnly s.2 s.2 (s.1, ∅)
  (mprSet, s.2.filter fun t => t.twoHopNeighborAddr ∉ covered)

/-- `Degree`. -/
def degree (tuple : NeighborTuple) : ℕ :=
  twoHops.tuples.countP fun t => t.neighborMainAddr = tuple.neighborMainAddr ∧
    neighbors.findNeighborTuple t.neighborMainAddr = none

/-- The number of records in `N2` that a neighbor reaches, `r` in step 4.1. -/
def reach (N2 : List TwoHopNeighborTuple) (n : NeighborTuple) : ℕ :=
  N2.countP fun t => n.neighborMainAddr = t.neighborMainAddr

/-- One comparison of step 4.2, of `max` and `max_r` with a neighbor and what it reaches. -/
def better (degree : NeighborTuple → ℕ) (max : Option (NeighborTuple × ℕ))
    (c : NeighborTuple × ℕ) : Option (NeighborTuple × ℕ) :=
  match max with
  | none => some c
  | some m =>
    if m.1.willingness < c.1.willingness then some c
    else if c.1.willingness = m.1.willingness then
      if m.2 < c.2 then some c
      else if c.2 = m.2 then
        if degree m.1 < degree c.1 then some c else some m
      else some m
    else some m

/-- Step 4.2. The numbers in `rs` are the keys of `reachability`. -/
def selectMax (N : List NeighborTuple) (N2 : List TwoHopNeighborTuple) :
    Option (NeighborTuple × ℕ) :=
  let reachability := buckets (reach N2) N
  reachability.entries.foldl (fun max e =>
    if e.1 = 0 then max
    else e.2.foldl (fun max n => better (degree neighbors twoHops) max (n, e.1)) max) none

/-- Step 4, `none` when a two-hop neighbor is left after `fuel` rounds. -/
def selectGreedy (N : List NeighborTuple) :
    ℕ → MprSet × List TwoHopNeighborTuple → Option MprSet
  | _, (mprSet, []) => some mprSet
  | 0, (_, _ :: _) => none
  | fuel + 1, (mprSet, t :: ts) =>
    match selectMax neighbors twoHops N (t :: ts) with
    | some max =>
      selectGreedy N fuel (insert max.1.neighborMainAddr mprSet,
        coverTwoHopNeighbors max.1.neighborMainAddr (t :: ts))
    | none => selectGreedy N fuel (mprSet, t :: ts)

/-- What step 4 begins with. -/
def beforeGreedy : MprSet × List TwoHopNeighborTuple :=
  let N := symNeighbors neighbors
  selectOnly (addAlways N (∅, twoHops.tuples.filter (isN2 mainAddress N)))

/-- A round of step 4 covers a record, so there are at most as many rounds as records. -/
def mprComputation : Option MprSet :=
  let s := beforeGreedy mainAddress neighbors twoHops
  selectGreedy neighbors twoHops (symNeighbors neighbors) s.2.length s

end Computation

end Ns3.Olsr
