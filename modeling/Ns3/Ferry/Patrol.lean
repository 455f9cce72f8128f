import Ns3.Ferry2.Dtn

/-!
# The patrol route of a ferry

`ChangePatrolRoute`, `GetExitInfoforFerry`, `HandleFerryNodeMovement` and
`GetNextXY` of `MyUser` (`evacuation-user.cc`), which read the same in `ferry/`
and `ferry2/`. A ferry flies its route stop by stop; once it knows of a blocked
crossing it takes one as its area and flies round the crossings whose shortest
path leads through it. `none` is an exception nobody catches. Every use of the
route by an index is returned with the result.
-/

namespace Ns3.Ferry

open Ns3.Lib Ns3.Ferry2

/-! ## The map -/

structure WayNode (C : Type) where
  nodeId : String
  crossingFlag : Bool
  shortestPath : List C

/-- What the handlers read of `JSON_Data`. Distances are `double`s, which are only compared. -/
structure RoadMap (C D : Type) where
  /-- In the order of their coordinates. -/
  waynodes : List (WayNode C)
  /-- `GetCoordinatefromID`, which throws on an id it does not know. -/
  coordinate : String → Option C
  calculateDistance : C → C → D
  /-- `99999999.9`, which stands for infinity. -/
  far : D
  closer : D → D → Bool

variable {C D : Type} [DecidableEq C]

/-- The crossings whose shortest path leads through the target. -/
def RoadMap.affectedCrossings (map : RoadMap C D) (blockcoordinate : C) : List String :=
  (map.waynodes.filter fun b => b.crossingFlag && b.shortestPath.contains blockcoordinate).map
    WayNode.nodeId

/-- The nearest of `ids` to `pos`, by its index; none when all are too far. -/
def RoadMap.nearest (map : RoadMap C D) (pos : C) (ids : List String) : Option (Option ℕ) := do
  let best ← ids.zipIdx.foldlM (fun best e => do
    let node ← map.coordinate e.1
    let d := map.calculateDistance pos node
    return if map.closer d best.1 then (d, some e.2) else best) (map.far, none)
  return best.2

/-- The nearest-neighbour order of `unsorted`; at most `n` stops are taken. -/
def RoadMap.sortRoute (map : RoadMap C D) : ℕ → C → List String → Option (List String)
  | 0, _, _ => some []
  | n + 1, pos, unsorted => do
    match ← map.nearest pos unsorted with
    | none => return []
    | some i =>
      let stop := unsorted.getD i ""
      let node ← map.coordinate stop
      let rest ← map.sortRoute n node (unsorted.eraseIdx i)
      return stop :: rest

/-! ## The ferry -/

structure FerryUser where
  blockednodeidAndTime : StdMap String Binary32
  aoiExitinfo : StdMap String (UInt32 × UInt32)
  increaseRate : StdMap String ℚ
  changerouteforUAV : Bool
  patrolRoute : List String
  oldPatrolRoute : List String
  currentPatrolIndex : UInt32
  myPatrolEreaAndStartTime : String × UInt32
  otherUAVPatrolEreaAndId : StdMap String UInt32
  patrolEreaidAndTime : StdMap String UInt32

/-- A use of the patrol route. -/
inductive Use
  /-- `m_patrolRoute[m_currentPatrolIndex]`, on a route of `length` stops. -/
  | current (index length : ℕ)
  /-- `m_patrolRoute[(m_currentPatrolIndex - 1) % size]`, the stop before `current`. -/
  | left (index current length : ℕ)
  deriving DecidableEq, Repr

inductive ChangeFrom
  | recv
  | timer
  deriving DecidableEq, Repr

/-- `my_change_time_sec` where it is turned into a `uint32_t`. -/
def changeTime (now : ℕ) : UInt32 := toUInt32 (nowSeconds now)

namespace FerryUser

/-- Another ferry has a valid and earlier time for the area. -/
def lostRace (u : FerryUser) (id : String) (time : UInt32) : Bool :=
  match u.patrolEreaidAndTime.find id with
  | some otherTime => decide (0 < otherTime ∧ otherTime < time)
  | none => false

/-- The ferry already has an area, it is still blocked, and nobody was earlier. -/
def keepsArea (u : FerryUser) : Bool :=
  u.changerouteforUAV && u.blockednodeidAndTime.contains u.myPatrolEreaAndStartTime.1 &&
    !u.lostRace u.myPatrolEreaAndStartTime.1 u.myPatrolEreaAndStartTime.2

/-- The first blocked crossing that no other ferry has and the ferry does not come late for. -/
def searchTarget (u : FerryUser) (time : UInt32) : Option String :=
  u.blockednodeidAndTime.keys.find? fun id =>
    !u.otherUAVPatrolEreaAndId.contains id && !u.lostRace id time

/-- `MyUser::GetExitInfoforFerry`: a ferry at a shelter reads its remaining capacity. -/
def getExitInfoforFerry (exitNodes : StdMap String UInt32) (now : ℕ) (u : FerryUser)
    (id : String) : Option FerryUser := do
  let space ← exitNodes.find id
  let old ← u.aoiExitinfo.find id
  let new := (space, UInt32.ofNat (now / 1000000000))
  if old.2 < new.2 then
    return { u with
      aoiExitinfo := (u.aoiExitinfo.erase id).insert id new
      increaseRate := u.increaseRate.insert id (increaseRateOf old new) }
  else return u

/-- The index of the stop just left; the subtraction wraps. -/
def leftIndex (u : FerryUser) : ℕ := (u.currentPatrolIndex - 1).toNat % u.patrolRoute.length

/-- `GetExitInfoforFerry` on the stop just left. An empty route divides by zero. -/
def readStopLeft (exitNodes : StdMap String UInt32) (now : ℕ) (u : FerryUser) :
    Option (FerryUser × List Use) := do
  let stop ← u.patrolRoute[u.leftIndex]?
  let u' ← u.getExitInfoforFerry exitNodes now stop
  return (u', [.left u.leftIndex u.currentPatrolIndex.toNat u.patrolRoute.length])

/-- Back to the shelters. -/
def revertRoute (u : FerryUser) : FerryUser :=
  { u with patrolRoute := u.oldPatrolRoute, changerouteforUAV := false }

/-- The ferry takes `targetid` as its area, if any crossing depends on it. -/
def takeArea (map : RoadMap C D) (exitNodes : StdMap String UInt32) (now : ℕ) (u : FerryUser)
    (targetid : String) : Option (FerryUser × List Use) := do
  let blockcoordinate ← map.coordinate targetid
  let newPatrolRoute := map.affectedCrossings blockcoordinate
  if newPatrolRoute = [] then u.revertRoute.readStopLeft exitNodes now
  else
    let sorted ← map.sortRoute newPatrolRoute.length blockcoordinate newPatrolRoute
    return ({ u with
      patrolRoute := sorted
      changerouteforUAV := true
      myPatrolEreaAndStartTime := (targetid, changeTime now) }, [])

/-- Nothing to patrol: the ferry has no area any more. -/
def leaveArea (exitNodes : StdMap String UInt32) (now : ℕ) (source : ChangeFrom) (u : FerryUser) :
    Option (FerryUser × List Use) :=
  let u := { u.revertRoute with myPatrolEreaAndStartTime := ("", 0) }
  match source with
  | .timer => u.readStopLeft exitNodes now
  | .recv => some (u, [])

/-- `MyUser::ChangePatrolRoute`. -/
def changePatrolRoute (map : RoadMap C D) (exitNodes : StdMap String UInt32) (now : ℕ)
    (source : ChangeFrom) (u : FerryUser) : Option (FerryUser × List Use) :=
  if u.keepsArea then some (u, [])
  else
    match u.searchTarget (changeTime now) with
    | none => u.leaveArea exitNodes now source
    | some targetid => u.takeArea map exitNodes now targetid

/-! ## Flying the route -/

/-- The stop `m_currentPatrolIndex` stands for; past the end it is whatever memory holds. -/
def currentStop (junk : String) (u : FerryUser) : String :=
  u.patrolRoute.getD u.currentPatrolIndex.toNat junk

def useCurrent (u : FerryUser) : Use :=
  .current u.currentPatrolIndex.toNat u.patrolRoute.length

/-- What a ferry does on arrival, before it flies on. -/
def arrive (map : RoadMap C D) (exitNodes : StdMap String UInt32) (now : ℕ) (junk : String)
    (u : FerryUser) : Option (FerryUser × List Use) :=
  if u.blockednodeidAndTime.size ≠ 0 then
    if u.changerouteforUAV = false then u.changePatrolRoute map exitNodes now .timer
    else some (u, [])
  else (u.getExitInfoforFerry exitNodes now (u.currentStop junk)).map fun u' => (u', [])

/-- `(m_currentPatrolIndex + 1) % m_patrolRoute.size ()`. -/
def advance (u : FerryUser) : FerryUser :=
  { u with currentPatrolIndex :=
      UInt32.ofNat ((u.currentPatrolIndex + 1).toNat % u.patrolRoute.length) }

/-- `MyUser::HandleFerryNodeMovement`, with the lookup of `GetNextXY`. -/
def handleFerryNodeMovement (map : RoadMap C D) (exitNodes : StdMap String UInt32) (now : ℕ)
    (junk : String) (u : FerryUser) : Option (FerryUser × List Use) :=
  if u.patrolRoute = [] then some (u, [])
  else do
    let (u', uses) ← u.arrive map exitNodes now junk
    if u'.patrolRoute = [] then return (u', u.useCurrent :: uses)
    let next := u'.advance
    let _ ← map.coordinate (next.currentStop junk)
    return (next, u.useCurrent :: uses ++ [next.useCurrent])

end FerryUser

end Ns3.Ferry
