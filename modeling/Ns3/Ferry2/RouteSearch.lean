import Ns3.Ferry2.RoadMap

/-!
# The route search of a user

The parts of `DijkstraRouteCalculationforGeographicInfo` (`evacuation-user.cc`)
that only read: the loop that settles the crossings of the user's graph, the
choice of a shelter among those the user knows, and the remaining distances
along the chosen route. `none` is an exception nobody catches.
-/

namespace Ns3.Ferry2

open Ns3.Lib

variable {C : Type} [LinearOrder C] [Zero C]

/-- `INF`. -/
def inf : ℚ := 2147483647

/-- `Dijkstra_Info`. -/
structure DijkstraInfo (C : Type) where
  dst : ℚ
  route : List C

/-! ## Settling -/

/-- The locals of the loop. -/
structure SearchState (C : Type) [LinearOrder C] where
  pNodes : StdMap C (DijkstraInfo C)
  nodes : StdMap C (DijkstraInfo C)
  selectNode : C
  exitDistanceMap : StdMap String ℚ

/-- The initialisation: everything but the start is infinitely far. -/
def SearchState.start (g : Graph C) (no : C) : SearchState C where
  pNodes := .ofList (g.keys.map fun pos => (pos, ⟨if pos = no then 0 else inf, []⟩))
  nodes := .empty
  selectNode := 0
  exitDistanceMap := .empty

/-- The nearest unsettled node and its distance; with all too far, the node selected before. -/
def selectNearest (pNodes : StdMap C (DijkstraInfo C)) (before : C) : ℚ × C :=
  pNodes.entries.foldl (fun best node =>
    if node.2.dst < best.1 then (node.2.dst, node.1) else best) (inf, before)

/-- `exit_distance_map[id] = dst`, if that is new or less. -/
def recordDistance (dists : StdMap String ℚ) (id : String) (dst : ℚ) : StdMap String ℚ :=
  match dists.find id with
  | some old => if dst < old then dists.assign id dst else dists
  | none => dists.assign id dst

/-- One unsettled node against the neighbours of the node just settled; the distances and the
nodes to update are collected. -/
def relaxNode (m : RoadMap C) (minCost : ℚ) (updRoute : List C) (neighbor : StdMap C ℚ)
    (acc : StdMap String ℚ × StdMap C (DijkstraInfo C)) (node : C × DijkstraInfo C) :
    Option (StdMap String ℚ × StdMap C (DijkstraInfo C)) :=
  match neighbor.find node.1 with
  | none => some acc
  | some weight =>
    let updDst := m.rnd (weight + minCost)
    if updDst < node.2.dst then do
      let id ← m.getIDfromCoordinate node.1
      return (recordDistance acc.1 id updDst, acc.2.insert node.1 ⟨updDst, updRoute⟩)
    else some acc

/-- The `while` loop. It ends when nothing is left, or when what is left is out of reach; every
turn settles a node, so that a graph of `n` nodes takes at most `n`. -/
def settle (m : RoadMap C) (g : Graph C) : ℕ → SearchState C → Option (SearchState C)
  | 0, s => some s
  | n + 1, s =>
    if s.pNodes.entries.isEmpty then some s
    else
      let best := selectNearest s.pNodes s.selectNode
      match s.pNodes.find best.2 with
      | none => some { s with selectNode := best.2 }
      | some info => do
        let node ← g.find best.2
        let pNodes := s.pNodes.erase best.2
        let upd ← pNodes.entries.foldlM
          (relaxNode m best.1 (info.route ++ [best.2]) node.neighborNodes)
          (s.exitDistanceMap, .empty)
        settle m g n {
          pNodes := upd.2.entries.foldl (fun p node => (p.erase node.1).insert node.1 node.2)
            pNodes
          nodes := s.nodes.insert best.2 info
          selectNode := best.2
          exitDistanceMap := upd.1 }

/-- The loop from its initial state. -/
def settleFrom (m : RoadMap C) (g : Graph C) (no : C) : Option (SearchState C) :=
  settle m g g.size (.start g no)

/-! ## The choice of a shelter -/

/-- The shelter loop, with the nearest so far. `some none` is the `return` at a shelter that was
not settled. -/
def chooseShelter (m : RoadMap C) (nodes : StdMap C (DijkstraInfo C))
    (fullexitnodeid : StdSet String) :
    List (UInt32 × (UInt32 × UInt32)) → ℚ × C → Option (Option (ℚ × C))
  | [], best => some (some best)
  | e :: es, best => do
    let pos ← m.idToCoordinate.find (nodeID e.1.toNat)
    match nodes.find pos with
    | none => return none
    | some info =>
      chooseShelter m nodes fullexitnodeid es
        (if info.dst < best.1 ∧ e.2.2 ≠ 0 ∧ !fullexitnodeid.contains (nodeID e.1.toNat) then
          (info.dst, pos)
        else best)

/-- The target of a search from `no`, with its distance: `(0, 0)` when no shelter qualifies. -/
def searchTarget (m : RoadMap C) (exitnodeinfolist : StdMap UInt32 (UInt32 × UInt32))
    (fullexitnodeid : StdSet String) (s : SearchState C) : Option (Option (ℚ × C)) :=
  chooseShelter m s.nodes fullexitnodeid exitnodeinfolist.entries (inf, 0)

/-- The remaining distances along the route, from its end. -/
def remainingDistances (m : RoadMap C) (exitDistance : ℚ) (dists : StdMap String ℚ)
    (route : List C) : Option (StdMap String ℚ) :=
  route.reverse.foldlM (fun r pos => do
    let id ← m.getIDfromCoordinate pos
    match dists.find id with
    | some dist => return r.assign id (m.rnd (exitDistance - dist))
    | none => return r) .empty

variable {m : RoadMap C}

/-- The shelter a search ends at is not known to be full. -/
theorem chooseShelter_target {nodes : StdMap C (DijkstraInfo C)} {full : StdSet String}
    {es : List (UInt32 × (UInt32 × UInt32))} {best target : ℚ × C}
    (h : chooseShelter m nodes full es best = some (some target)) :
    target = best ∨ ∃ id, m.getIDfromCoordinate target.2 = some id ∧ full.contains id = false := by
  induction es generalizing best with
  | nil =>
    left
    simpa [chooseShelter] using h.symm
  | cons e es ih =>
    simp only [chooseShelter, Option.bind_eq_bind, Option.bind_eq_some_iff] at h
    obtain ⟨pos, hpos, h⟩ := h
    split at h
    · simp at h
    · rename_i info hinfo
      rcases ih h with rfl | htarget
      · split_ifs with hnear
        · right
          obtain ⟨-, -, hfull⟩ := hnear
          exact ⟨_, m.getIDfromCoordinate_of_find hpos, by simpa using hfull⟩
        · left
          rfl
      · exact .inr htarget

/-- A search that does not start at a shelter known to be full does not end there either. -/
theorem searchTarget_ne {exits : StdMap UInt32 (UInt32 × UInt32)} {full : StdSet String}
    {s : SearchState C} {target : ℚ × C} {no : C} {id comp : String}
    (h : searchTarget m exits full s = some (some target))
    (hno : m.getIDfromCoordinate no = some id) (hfull : full.contains id = true)
    (hcomp : m.getIDfromCoordinate target.2 = some comp) : target.2 ≠ no := by
  rintro rfl
  rcases chooseShelter_target h with rfl | ⟨id', hid', hfull'⟩
  · simp [RoadMap.getIDfromCoordinate_zero] at hcomp
  · rw [hno] at hid'
    cases hid'
    simp [hfull] at hfull'

end Ns3.Ferry2
