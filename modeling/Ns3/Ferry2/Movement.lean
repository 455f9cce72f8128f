import Ns3.Ferry2.RouteSearch

/-!
# The movement of a user

`HandleUserMovement`, `GetWayNextVector`, `TaskOfCrossing`,
`DijkstraRouteCalculationforGeographicInfo` and `CompleteEvacuation` of `MyUser`
(`evacuation-user.cc`), with the static members of `MyBuilding` they share. A
user is a node of the DTN together with what only its movement uses. Positions,
waypoints and log files are left out, except for the log of completed
evacuations. `none` is an exception nobody catches, or a `front ()` or `back ()`
of an empty list.
-/

namespace Ns3.Ferry2

open Ns3.Lib

variable {C : Type} [LinearOrder C] [Zero C]

/-! ## State -/

/-- The static members of `MyBuilding` that users and the driver write. -/
structure Building where
  numUsers : UInt32
  addUsersNum : UInt32
  addUsersPerInterval : UInt32
  addUserEndTime : ℚ
  nextAddUserIndex : UInt32
  activeUsers : StdSet UInt32
  userIdCompletedEvacuation : List UInt32
  /-- Remaining capacities. -/
  exitNodes : StdMap String UInt32
  firstExitInfo : StdMap String UInt32
  movingUserNum : StdMap String UInt32
  /-- The user and the shelter of every line of `OutputText_CompleteTime`. -/
  completeTime : List (UInt32 × String)

/-- The static members movement reads besides those of the DTN. -/
structure UserConfig extends Config where
  useexitinfo : Bool

/-- What only the movement of a user uses. `humTimer` and `movingUserNumTimer` say whether the
timer is set, `hopTimers` holds the delays of the pending `EraseHopData`. -/
structure Walk (C : Type) [LinearOrder C] where
  graph : Graph C
  currentway : WayInfo C
  wnlistBuf : List (WayNode C)
  shortest : List C
  passednode : List C
  exitnode : String
  targetNodeBuf : String
  exitDistanceMap : StdMap String ℚ
  exitnodeinfolist : StdMap UInt32 (UInt32 × UInt32)
  exitinfopair : UInt32 × UInt32
  speed : ℚ
  requiredTime : ℚ
  generationTime : ℚ
  hopTimers : StdMap UInt32 UInt32
  changeroute : UInt32
  changeexit : UInt32
  isMove : Bool
  isExit : Bool
  checkMoveFlag : Bool
  alreadycountflag : Bool
  humTimer : Bool
  movingUserNumTimer : Bool

abbrev MyUser (C : Type) [LinearOrder C] := DtnNode (Walk C)

/-- What the DTN handlers ask of a user; the patrol route is a ferry's. -/
def userOps (m : RoadMap C) : UserOps (Walk C) where
  updateGraphInfo w id := do
    let pos ← m.idToCoordinate.find id
    let ni ← m.nodes.find pos
    let graph ← updateGraphInfo m w.currentway.id w.graph ni
    return { w with graph := graph }
  changePatrolRoute w _ _ := some w

/-! ## At a crossing -/

/-- The locals of `TaskOfCrossing` that its first `try` block sets when nothing throws. -/
structure Forecast where
  remainingCapacity : ℤ
  remainingCapacityArrival : ℤ

/-- A `uint32_t` assigned to an `int`. -/
def toInt (x : UInt32) : ℤ :=
  if x.toNat ≤ intMax then x.toNat else (x.toNat : ℤ) - 4294967296

/-- A `double` assigned to an `int`. -/
def truncate (q : ℚ) : ℤ := if 0 ≤ q then ⌊q⌋ else ⌈q⌉

/-- What the first `try` block looks up; `none` is an `out_of_range`, which it catches. -/
def forecastInputs (m : RoadMap C) (b : Building) (n : MyUser C) (ni : WayNode C) :
    Option (ℚ × ℚ × UInt32) := do
  let nodeid ← m.getIDfromCoordinate ni.coordinate
  let increse ← n.increaseRate.find n.user.exitnode
  let distance ← n.user.exitDistanceMap.find nodeid
  let space ← b.exitNodes.find n.user.exitnode
  return (increse, distance, space)

/-- The first `try` block: how full the target will be on arrival. -/
def forecast (cfg : UserConfig) (m : RoadMap C) (now : ℕ) (b : Building) (n : MyUser C)
    (ni : WayNode C) : Option Forecast × MyUser C :=
  match forecastInputs m b n ni with
  | none => (none, { n with user := { n.user with requiredTime := 0 } })
  | some (increse, distance, space) =>
    let requiredTime := m.rnd (distance / n.user.speed)
    let expected := m.rnd (increse * requiredTime)
    let remaining := toInt space
    let n := { n with user := { n.user with
      requiredTime := requiredTime
      generationTime := nowSeconds now } }
    let arrival : HopInfo :=
      ((n.user.exitnode, toUInt32 requiredTime), toUInt32 (nowSeconds now))
    (some ⟨remaining, truncate (m.rnd (remaining - expected))⟩,
      if cfg.sendHopFlag then { n with hop := updateHop n.hop n.userId arrival } else n)

/-- The crossing the user is at, not its target, is put down as full. -/
def avoidNode (nodeid : String) (n : MyUser C) : Option (MyUser C) := do
  let key ← nodeIDstoi nodeid
  return { n with
    fullexitnodeid := n.fullexitnodeid.insert nodeid ()
    isDijkstra := true
    user := { n.user with exitnodeinfolist := n.user.exitnodeinfolist.erase key } }

/-- The part under `GetUseExitInfoFlag`. -/
def useExitInfo (cfg : UserConfig) (nodeid : String) (f : Option Forecast) (n : MyUser C) :
    Option (MyUser C) :=
  match f with
  | some f =>
    if cfg.useexitinfo ∧ f.remainingCapacityArrival < 1 ∧ nodeid ≠ n.user.exitnode then
      avoidNode nodeid n
    else some n
  | none => some n

/-- The seconds until an announced arrival, in `uint32_t`. -/
def expectedArrivalTime (now : ℕ) (info : HopInfo) : UInt32 :=
  info.1.2 - toUInt32 (Format.binary64.rnd (nowSeconds now - info.2.toNat))

/-- How many announced arrivals at the target come before the user's own. -/
def earlierArrivals (now : ℕ) (n : MyUser C) : ℕ :=
  let myrequiredTime := Format.binary64.rnd (n.user.generationTime - nowSeconds now)
  (n.hop.entries.filter fun a => a.2.1.1 = n.user.exitnode && decide (0 < myrequiredTime) &&
    decide ((expectedArrivalTime now a.2).toNat < myrequiredTime)).length

/-- `MyUser::SetEraseHopTimer`. -/
def setEraseHopTimer (now : ℕ) (n : MyUser C) : MyUser C :=
  n.hop.entries.foldl (fun n a =>
    if a.2.1.2 = 0 then
      { n with
        hop := n.hop.erase a.1
        user := { n.user with hopTimers := n.user.hopTimers.erase a.1 } }
    else
      { n with user := { n.user with
        hopTimers := n.user.hopTimers.assign a.1 (expectedArrivalTime now a.2) } }) n

/-- The part under `GetSendHopFlag`; without a forecast the capacity is `400000`. -/
def useHop (cfg : UserConfig) (now : ℕ) (nodeid : String) (f : Option Forecast) (n : MyUser C) :
    Option (MyUser C) :=
  if cfg.sendHopFlag then
    let remaining := (f.map Forecast.remainingCapacity).getD 400000
    -- one arrival is the user's own
    if remaining - (earlierArrivals now n - 1 : ℕ) ≤ 0 then
      (avoidNode nodeid n).map (setEraseHopTimer now)
    else some (setEraseHopTimer now n)
  else some n

/-- The length of a way between two of its nodes; `f` and `b` say which was met already. -/
def spanLength (m : RoadMap C) (ni next : C) :
    List (WayNode C) → (f b : Bool) → (pre : C) → (length : ℚ) → ℚ
  | [], _, _, _, length => length
  | it :: rest, f, b, pre, length =>
    let coord := it.coordinate
    let length := if f || b then m.rnd (length + m.calculateDistance pre coord) else length
    let pre := if f || b then coord else pre
    if coord = ni ∧ !f ∧ b then length
    else
      let pre := if coord = ni ∧ !f then coord else pre
      let f := f || coord = ni
      if coord = next ∧ !b ∧ f then length
      else spanLength m ni next rest f (b || coord = next)
        (if coord = next ∧ !b then coord else pre) length

/-- The shortest of the candidate ways; of none below `INF`, the one looked at last. -/
def shortestWay (m : RoadMap C) (ni next : C) (candidates : List (WayInfo C))
    (last : WayInfo C) : WayInfo C :=
  (candidates.foldl (fun best wi =>
    let length := spanLength m ni next wi.nodes false false 0 0
    if length < best.1 then (length, wi) else best) (inf, last)).2

/-- The way to take from `ni` to `next`. -/
def selectWay (m : RoadMap C) (ni : WayNode C) (next : C) : Option (WayInfo C) := do
  let ways ← ni.wayIDs.mapM m.linestrings.find
  let selected := ways.flatMap fun wi =>
    (wi.nodes.filter fun it => it.coordinate = next).map fun _ => wi
  match selected with
  | [] => none
  | [wi] => return wi
  | _ :: _ :: _ => return shortestWay m ni.coordinate next selected (ways.getLastD ⟨"", []⟩)

/-- A list up to the first node at `pos`, and with it. -/
def throughNode (pos : C) : List (WayNode C) → List (WayNode C)
  | [] => []
  | it :: rest => if it.coordinate = pos then [it] else it :: throughNode pos rest

def startsAt (pos : C) : List (WayNode C) → Bool
  | [] => false
  | it :: _ => it.coordinate = pos

/-- The part of a way from `ni` to `next`, walked forward or backward. -/
def partWay (ni next : C) (nodes : List (WayNode C)) : List (WayNode C) :=
  match nodes.find? fun it => it.coordinate = ni || it.coordinate = next with
  | none => []
  | some it =>
    if it.coordinate = ni then throughNode next (nodes.dropWhile fun it => it.coordinate ≠ ni)
    else throughNode next (nodes.reverse.dropWhile fun it => it.coordinate ≠ ni)

/-- The way turned so that it starts at the crossing. -/
def orientWay (ni next : C) (wi : WayInfo C) : WayInfo C :=
  if startsAt ni wi.nodes then wi
  else if startsAt ni wi.nodes.reverse then { wi with nodes := wi.nodes.reverse }
  else { wi with nodes := partWay ni next wi.nodes }

/-- The second half of `TaskOfCrossing`: the crossing is ticked off the route, and the user turns
into the way to the next one. -/
def followRoute (m : RoadMap C) (ni : WayNode C) (w : Walk C) : Option (Walk C) :=
  match w.shortest with
  | [] => some w
  | head :: rest =>
    if ni.coordinate ≠ head then some w
    else
      let w := { w with passednode := w.passednode ++ [head], shortest := rest }
      match rest with
      | [] => some w
      | next :: _ => do
        let wi ← selectWay m ni next
        return { w with currentway := orientWay ni.coordinate next wi }

/-- The first half of `TaskOfCrossing`. -/
def forecastCrossing (cfg : UserConfig) (m : RoadMap C) (now : ℕ) (b : Building) (n : MyUser C)
    (ni : WayNode C) : Option (MyUser C) := do
  let nodeid := (m.getIDfromCoordinate ni.coordinate).getD ""
  let found := forecast cfg m now b n ni
  let n ← useExitInfo cfg nodeid found.1 found.2
  useHop cfg now nodeid found.1 n

/-- `MyUser::TaskOfCrossing`. -/
def taskOfCrossing (cfg : UserConfig) (m : RoadMap C) (now : ℕ) (b : Building) (n : MyUser C)
    (ni : WayNode C) : Option (MyUser C) := do
  let n ← forecastCrossing cfg m now b n ni
  let _ ← n.user.shortest.mapM m.nodes.find
  let user ← followRoute m ni n.user
  return { n with user := user }

/-- Only a crossing is one. -/
def taskIfCrossing (cfg : UserConfig) (m : RoadMap C) (now : ℕ) (b : Building) (n : MyUser C)
    (ni : WayNode C) : Option (MyUser C) :=
  if ni.isCrossing then taskOfCrossing cfg m now b n ni else some n

/-! ## Along a way -/

/-- The user has come to the end of a way: the whole way again, away from that end. The second
test reads the way the first one may have set. -/
def wholeWay (whole : List (WayNode C)) (front : WayNode C) (way : List (WayNode C)) :
    List (WayNode C) × List (WayNode C) :=
  let (way, wnlist) :=
    if startsAt front.coordinate whole then (whole.tail, whole.tail) else (way, [])
  match way with
  | [] => (way, wnlist)
  | front :: _ =>
    if startsAt front.coordinate whole.reverse then
      let wnlist := (wnlist ++ whole.reverse).tail
      (wnlist, wnlist)
    else (way, wnlist)

/-- What is left of a way after the user turns round before `ni`; none when neither is on it. -/
def turnRound (whole : List (WayNode C)) (front ni : C) : Option (List (WayNode C)) :=
  match whole.find? fun it => it.coordinate = front || it.coordinate = ni with
  | none => none
  | some it =>
    let back := if it.coordinate = front then whole.reverse else whole
    some ((back.dropWhile fun it => it.coordinate ≠ front).drop 1)

/-- The way after turning round, and `m_wnlist_buf`, which stands in for an empty one. -/
def turnedWay (w : Walk C) (turned : Option (List (WayNode C))) : Walk C :=
  match turned with
  | none => { w with wnlistBuf := [] }
  | some [] =>
    { w with currentway := { w.currentway with nodes := w.wnlistBuf.tail }, wnlistBuf := [] }
  | some (it :: rest) =>
    { w with
      currentway := { w.currentway with nodes := it :: rest }
      wnlistBuf := it :: rest }

/-- The next node is blocked: the user notes it, cuts it out of its graph and turns round. -/
def meetBlocked (m : RoadMap C) (now : ℕ) (n : MyUser C) (front ni : WayNode C) :
    Option (MyUser C) := do
  let n ← findBlocked (userOps m) now n ni.nodeID
  let wi ← m.linestrings.find n.user.currentway.id
  let graph ← updateGraphInfo m n.user.currentway.id n.user.graph ni
  return { n with
    isDijkstra := true
    user := { turnedWay n.user (turnRound wi.nodes front.coordinate ni.coordinate) with
      graph := graph } }

/-- The first half of `GetWayNextVector`: the way shrinks by the node the user was at. -/
def advance (m : RoadMap C) (now : ℕ) (n : MyUser C) : Option (MyUser C) :=
  match n.user.currentway.nodes with
  | [] => none
  | front :: [] => do
    let wi ← m.linestrings.find n.user.currentway.id
    let (way, wnlist) := wholeWay wi.nodes front [front]
    return { n with user := { n.user with
      currentway := { n.user.currentway with nodes := way }
      wnlistBuf := wnlist } }
  | front :: it :: rest =>
    let ni := (m.nodes.find it.coordinate).getD .new
    if ni.isBlocked then meetBlocked m now n front ni
    else some { n with user := { n.user with
      currentway := { n.user.currentway with nodes := it :: rest }
      wnlistBuf := it :: rest } }

/-- `MyUser::GetWayNextVector`, without the vector. -/
def getWayNextVector (cfg : UserConfig) (m : RoadMap C) (now : ℕ) (b : Building) (n : MyUser C) :
    Option (MyUser C) := do
  let n ← advance m now n
  let front ← n.user.currentway.nodes.head?
  taskIfCrossing cfg m now b n front

/-! ## The route search -/

/-- A user that changes its target takes itself off the count of the old one and adds itself to
that of the new one. -/
def Building.retarget (b : Building) (old new : String) : Option Building :=
  if new = old ∨ old = "first" then some b
  else do
    let oldNum ← b.movingUserNum.find old
    let moving := (b.movingUserNum.erase old).insert old (oldNum - 1)
    let newNum ← moving.find new
    return { b with movingUserNum := (moving.erase new).insert new (newNum + 1) }

/-- The statistics of changed routes and exits. -/
def countChange (route : List C) (comp : String) (w : Walk C) : Walk C :=
  if (w.shortest = [] ∧ w.exitnode = "") ∨ w.shortest = route.tail then w
  else if comp ≠ w.exitnode then
    { w with changeexit := w.changeexit + 1, changeroute := w.changeroute + 1 }
  else { w with changeroute := w.changeroute + 1 }

/-- The user after the choice of a route that ends at the shelter `comp`. -/
def takeRoute (route : List C) (comp : String) (dists : StdMap String ℚ) (n : MyUser C) :
    MyUser C :=
  { n with user := { countChange route comp n.user with
    exitDistanceMap := dists
    shortest := route
    exitnode := comp
    targetNodeBuf := comp } }

/-- The rest of the search, once a target is chosen. -/
def setRoute (cfg : UserConfig) (m : RoadMap C) (now : ℕ) (b : Building) (n : MyUser C)
    (no : WayNode C) (s : SearchState C) (target : ℚ × C) : Option (Building × MyUser C) := do
  let info ← s.nodes.find target.2
  let route := info.route ++ [target.2]
  let dists ← remainingDistances m target.1 s.exitDistanceMap route
  let comp ← m.getIDfromCoordinate target.2
  let b ← b.retarget n.user.targetNodeBuf comp
  let n ← taskIfCrossing cfg m now b (takeRoute route comp dists n) no
  return (b, n)

/-- `MyUser::DijkstraRouteCalculationforGeographicInfo`. -/
def dijkstraRouteCalculation (cfg : UserConfig) (m : RoadMap C) (now : ℕ) (b : Building)
    (n : MyUser C) (no : WayNode C) : Option (Building × MyUser C) := do
  let s ← settleFrom m n.user.graph no.coordinate
  match ← searchTarget m n.user.exitnodeinfolist n.fullexitnodeid s with
  | none => return (b, n)
  | some target => setRoute cfg m now b n no s target

/-! ## Completion -/

/-- How `CompleteEvacuation` ends: `threw` is an `out_of_range` at its call to
`InsertExitnodeInfoList`. -/
inductive Completion (C : Type) [LinearOrder C]
  | done (b : Building) (n : MyUser C)
  | threw (b : Building) (n : MyUser C)

/-- `MyBuilding::RemoveActiveUser`, `PushUserIdCompEvac`: what completion does first. -/
def Building.leave (b : Building) (userId : UInt32) : Building :=
  { b with
    activeUsers := if b.activeUsers.contains userId then b.activeUsers.erase userId
      else b.activeUsers
    userIdCompletedEvacuation := b.userIdCompletedEvacuation ++ [userId] }

/-- `MyBuilding::ExitNodesPassedUserSet`. -/
def Building.exitNodesPassedUserSet (b : Building) (id : String) (space : UInt32) : Building :=
  { b with exitNodes := b.exitNodes.assign id (space - 1) }

/-- `MyUser::InsertExitnodeInfoList`; `none` is its `at` on a shelter that is not in the list. -/
def insertExitnodeInfoList (l : StdMap UInt32 (UInt32 × UInt32)) (info : UInt32 × UInt32) :
    Option (StdMap UInt32 (UInt32 × UInt32)) :=
  if info.1 = 0 then some l
  else do
    let cap ← l.find info.1
    return if info.2 < cap.2 then l.assign info.1 (cap.1, info.2) else l

/-- `MyUser::CompleteEvacuation`, from where the shelter is known. -/
def completeAt (b : Building) (n : MyUser C) (exitnodeid : String) : Option (Completion C) := do
  let b := b.leave n.userId
  let key ← nodeIDstoi exitnodeid
  let space ← b.exitNodes.find exitnodeid
  let b := b.exitNodesPassedUserSet exitnodeid space
  let n := { n with user := { n.user with exitinfopair := (key, space - 1) } }
  match insertExitnodeInfoList n.user.exitnodeinfolist (key, space - 1) with
  | none => return .threw b n
  | some list => do
    let _ ← nodeIDstoi n.user.exitnode
    return .done { b with completeTime := b.completeTime ++ [(n.userId, exitnodeid)] }
      { n with exited := true, user := { n.user with exitnodeinfolist := list } }

/-- `CompleteEvacuation ("NONE")`: the shelter is the crossing passed last. Its caller does not
catch. -/
def completePassed (m : RoadMap C) (b : Building) (n : MyUser C) :
    Option (Building × MyUser C) := do
  let pos ← n.user.passednode.getLast?
  let exitnodeid ← m.getIDfromCoordinate pos
  match completeAt b n exitnodeid with
  | some (.done b n) => return (b, n)
  | some (.threw _ _) | none => none

/-! ## The movement timer -/

/-- `Aoi > MyBuilding::GetEraseAoI ()`. -/
def aoiAbove (now : ℕ) (stamp : Binary32) (limit : UInt32) : Bool :=
  match stamp.toRat with
  | some q => decide (limit.toNat < Format.binary64.rnd (nowSeconds now - q))
  | none => !stamp.isNaN && decide (stamp.key < 0)

/-- `MyUser::CheckAoI`: what is too old is forgotten, and its roads are open again. -/
def userCheckAoI (cfg : UserConfig) (m : RoadMap C) (now : ℕ) (n : MyUser C) :
    Option (MyUser C) :=
  n.blockednodeidAndTime.entries.foldlM (fun n a =>
    if aoiAbove now a.2 cfg.eraseAoI then do
      let graph ← restoreGraphInfo m n.user.graph a.1
      return { n with
        blockednodeidAndTime := n.blockednodeidAndTime.erase a.1
        user := { n.user with graph := graph } }
    else some n) n

/-- `threshold < THRESHOLD1`, for the share of its capacity a shelter has left. -/
def belowThreshold (cap : UInt32 × UInt32) : Bool :=
  cap.1 ≠ 0 && decide (Format.binary64.rnd (cap.2.toNat / cap.1.toNat) <
    Format.binary64.rnd (7 / 10))

/-- A user on a route looks whether its target is full, or fills up. -/
def checkTarget (m : RoadMap C) (n : MyUser C) : Option (MyUser C) :=
  match n.user.shortest.getLast? with
  | none => some n
  | some target => do
    let targetnodeid ← m.getIDfromCoordinate target
    if n.fullexitnodeid.contains targetnodeid then return { n with isDijkstra := true }
    else
      let key ← nodeIDstoi targetnodeid
      let cap ← n.user.exitnodeinfolist.find key
      return if belowThreshold cap then { n with isDijkstra := true } else n

/-- The movement timer has run out: `if (!isMove) isExit = true`, and the user waits no more. -/
def wake (n : MyUser C) : MyUser C :=
  { n with
    isWait := false
    user := { n.user with isExit := n.user.isExit || !n.user.isMove, humTimer := false } }

/-- `CheckAoI` is only called with `eraseinfoflag` on. -/
def forgetOld (cfg : UserConfig) (m : RoadMap C) (now : ℕ) (n : MyUser C) : Option (MyUser C) :=
  if cfg.eraseinfoflag then userCheckAoI cfg m now n else some n

/-- The first lines of `HandleUserMovement`. -/
def beginMovement (cfg : UserConfig) (m : RoadMap C) (now : ℕ) (n : MyUser C) :
    Option (MyUser C) := do
  let n ← forgetOld cfg m now (wake n)
  checkTarget m n

/-- A search is due and the user is at a crossing. -/
def searchStage (cfg : UserConfig) (m : RoadMap C) (now : ℕ) (b : Building) (n : MyUser C)
    (front : WayNode C) : Option (Building × MyUser C) :=
  if n.isDijkstra ∧ front.isCrossing then do
    let (b, n) ← dijkstraRouteCalculation cfg m now b n front
    return (b, { n with isDijkstra := false })
  else some (b, n)

/-- The journey is over. -/
def arrived (n : MyUser C) : MyUser C :=
  { n with user := { n.user with isMove := false, isExit := true } }

/-- The way is walked to its end and no search is due: the user has arrived. -/
def markArrived (n : MyUser C) : MyUser C :=
  if n.user.shortest = [] ∧ !n.isDijkstra then arrived n else n

/-- The last part of `HandleUserMovement`: the next step, or the end of the journey. -/
def moveOn (cfg : UserConfig) (m : RoadMap C) (now : ℕ) (speed : ℚ) (b : Building)
    (n : MyUser C) : Option (Building × MyUser C) :=
  if n.user.isMove then do
    let n ← getWayNextVector cfg m now b n
    return (b, { n with user := { n.user with speed := speed, humTimer := true } })
  else if n.user.isExit then completePassed m b n
  else some (b, n)

/-- `HandleUserMovement` from the search on. -/
def finishMovement (cfg : UserConfig) (m : RoadMap C) (now : ℕ) (speed : ℚ) (b : Building)
    (n : MyUser C) (front : WayNode C) : Option (Building × MyUser C) := do
  let (b, n) ← searchStage cfg m now b n front
  moveOn cfg m now speed b (markArrived n)

/-- The shelter the user stands at is full. -/
def noteFull (exitnodeid : String) (n : MyUser C) : MyUser C :=
  { n with fullexitnodeid := n.fullexitnodeid.insert exitnodeid (), isDijkstra := true }

/-- The user enters a shelter on its way. An exception there is caught, and the user goes on. -/
def enterShelter (cfg : UserConfig) (m : RoadMap C) (now : ℕ) (speed : ℚ) (b : Building)
    (n : MyUser C) (front : WayNode C) (exitnodeid : String) : Option (Building × MyUser C) :=
  match completeAt b (arrived n) exitnodeid with
  | none => none
  | some (.done b n) => some (b, n)
  | some (.threw b n) => finishMovement cfg m now speed b n front

/-- The `try` block of `HandleUserMovement` and what follows it. -/
def atNode (cfg : UserConfig) (m : RoadMap C) (now : ℕ) (speed : ℚ) (b : Building)
    (n : MyUser C) (front : WayNode C) (exitnodeid : String) : Option (Building × MyUser C) :=
  match b.exitNodes.find exitnodeid with
  | none => finishMovement cfg m now speed b n front
  | some space =>
    if space = 0 then finishMovement cfg m now speed b (noteFull exitnodeid n) front
    else if n.user.shortest ≠ [] then enterShelter cfg m now speed b n front exitnodeid
    else finishMovement cfg m now speed b n front

/-- `MyUser::HandleUserMovement`, at the time `now`; `speed` is the speed drawn or set for the
next step. -/
def handleUserMovement (cfg : UserConfig) (m : RoadMap C) (now : ℕ) (speed : ℚ) (b : Building)
    (n : MyUser C) : Option (Building × MyUser C) := do
  let n ← beginMovement cfg m now n
  let front ← n.user.currentway.nodes.head?
  let exitnodeid ← m.getIDfromCoordinate front.coordinate
  atNode cfg m now speed b n front exitnodeid

/-! ## The count of moving users -/

/-- `RoutingProtocol::CheckMovingUserNum`: a user is counted once it has a target, and taken off
the count once it has completed. -/
def checkMovingUserNum (b : Building) (n : MyUser C) : Building × MyUser C :=
  match b.movingUserNum.find n.user.exitnode with
  | none => (b, n)
  | some userNum =>
    let checkflag := n.user.checkMoveFlag
    let already := n.user.alreadycountflag
    let set (num : UInt32) : Building := { b with
      movingUserNum := (b.movingUserNum.erase n.user.exitnode).insert n.user.exitnode num }
    if checkflag ∧ n.user.isExit ∧ !already then
      (set (userNum - 1), { n with user := { n.user with alreadycountflag := true } })
    else if checkflag ∧ n.user.isExit ∧ already then
      (b, { n with user := { n.user with movingUserNumTimer := false } })
    else if !n.user.isExit ∧ !checkflag ∧ !already then
      (set (userNum + 1), { n with user := { n.user with checkMoveFlag := true } })
    else (b, n)

end Ns3.Ferry2
