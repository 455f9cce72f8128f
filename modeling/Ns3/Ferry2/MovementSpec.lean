import Ns3.Ferry2.Movement
import Ns3.Lib.Fold

/-!
# What a movement event does

Of a user that moves, two parts matter to the books the simulation keeps: its
standing (`Ledger`) and where it is on its route (`Route`). One lemma for each
function says what it does to these two, and `handleUserMovement_cases` puts
them together: a movement event searches, then walks on or completes.
-/

namespace Ns3.Ferry2

open Ns3.Lib

variable {C : Type} [LinearOrder C]

/-! ## Views -/

/-- What the counts of users depend on. -/
structure Ledger where
  nodeType : NodeType
  userId : UInt32
  exited : Bool
  isMove : Bool
  isExit : Bool
  exitnode : String
  targetNodeBuf : String
  checkMoveFlag : Bool
  alreadycountflag : Bool
  humTimer : Bool
  movingUserNumTimer : Bool
  deriving DecidableEq

/-- Where a user is: what is left of its route, what it has passed, and the way it is on. -/
structure Route (C : Type) [LinearOrder C] where
  shortest : List C
  passednode : List C
  currentway : List (WayNode C)

def DtnNode.ledger (n : MyUser C) : Ledger where
  nodeType := n.nodeType
  userId := n.userId
  exited := n.exited
  isMove := n.user.isMove
  isExit := n.user.isExit
  exitnode := n.user.exitnode
  targetNodeBuf := n.user.targetNodeBuf
  checkMoveFlag := n.user.checkMoveFlag
  alreadycountflag := n.user.alreadycountflag
  humTimer := n.user.humTimer
  movingUserNumTimer := n.user.movingUserNumTimer

def DtnNode.route (n : MyUser C) : Route C where
  shortest := n.user.shortest
  passednode := n.user.passednode
  currentway := n.user.currentway.nodes

/-- Still on its way. -/
def Ledger.Travels (l : Ledger) : Prop := l.isMove = true ∧ l.isExit = false

/-- Both views: what the user learns on the way leaves it alone. -/
def DtnNode.trip (n : MyUser C) : Ledger × Route C := (n.ledger, n.route)

theorem ledger_eq_of_trip {n n' : MyUser C} (h : n'.trip = n.trip) : n'.ledger = n.ledger :=
  congrArg Prod.fst h

theorem route_eq_of_trip {n n' : MyUser C} (h : n'.trip = n.trip) : n'.route = n.route :=
  congrArg Prod.snd h

variable {cfg : UserConfig} {now : ℕ} {b : Building} {n n' : MyUser C}

/-! ## Routes -/

/-- What `TaskOfCrossing` does to a route. -/
inductive Followed (ni : C) : Route C → Route C → Prop
  /-- The crossing is not the next one of the route. -/
  | off {r : Route C} (h : r.shortest.head? ≠ some ni) : Followed ni r r
  /-- It is the last one. The way stays. -/
  | last {passed : List C} {way : List (WayNode C)} :
      Followed ni ⟨[ni], passed, way⟩ ⟨[], passed ++ [ni], way⟩
  /-- It is ticked off, and the user turns into the next way. -/
  | next {next : C} {rest passed : List C} {way way' : List (WayNode C)} :
      Followed ni ⟨ni :: next :: rest, passed, way⟩ ⟨next :: rest, passed ++ [ni], way'⟩

/-- A route that is used up ends at the crossing the user stands at. A user without a route so
far has passed nothing. -/
def AtEnd (r : Route C) : Prop :=
  r.shortest = [] → r.passednode = [] ∨ ∃ front, r.currentway.head? = some front ∧
    front.isCrossing = true ∧ r.passednode.getLast? = some front.coordinate

theorem Followed.atEnd {front : WayNode C} {r r' : Route C} (h : Followed front.coordinate r r')
    (hfront : r.currentway.head? = some front) (hcross : front.isCrossing = true)
    (hr : r.shortest = [] → r.passednode = []) : AtEnd r' := by
  cases h with
  | off => exact fun hnil => .inl (hr hnil)
  | last =>
    intro _
    right
    exact ⟨front, hfront, hcross, by simp⟩
  | next =>
    intro hnil
    simp at hnil

/-- A route that is used up at a node has that node as the last one passed. -/
theorem Followed.passed_last {ni : C} {r r' : Route C} (h : Followed ni r r')
    (hr : r.shortest ≠ []) (hnil : r'.shortest = []) : r'.passednode.getLast? = some ni := by
  cases h with
  | off => exact absurd hnil hr
  | last => simp
  | next => simp at hnil

/-- A route to another node is not used up where it starts. -/
theorem Followed.shortest_ne_nil {no target : C} {before passed : List C}
    {way : List (WayNode C)} {r : Route C}
    (h : Followed no ⟨before ++ [target], passed, way⟩ r) (hne : target ≠ no) :
    r.shortest ≠ [] := by
  generalize hr : (⟨before ++ [target], passed, way⟩ : Route C) = r₀ at h
  cases h with
  | off =>
    subst hr
    simp
  | last =>
    have hlast := congrArg (fun r => r.shortest.getLast?) hr
    simp at hlast
    exact absurd hlast hne
  | next => simp

/-- Moving on changes the way and nothing else. -/
structure OnWay (n n' : MyUser C) : Prop where
  ledger : n'.ledger = n.ledger
  shortest : n'.route.shortest = n.route.shortest
  passednode : n'.route.passednode = n.route.passednode

theorem OnWay.of_trip (h : n'.trip = n.trip) : OnWay n n' where
  ledger := ledger_eq_of_trip h
  shortest := congrArg Route.shortest (route_eq_of_trip h)
  passednode := congrArg Route.passednode (route_eq_of_trip h)

theorem OnWay.trans {n₁ n₂ n₃ : MyUser C} (h : OnWay n₁ n₂) (h' : OnWay n₂ n₃) : OnWay n₁ n₃ where
  ledger := h'.ledger.trans h.ledger
  shortest := h'.shortest.trans h.shortest
  passednode := h'.passednode.trans h.passednode

/-! ## What a user learns and notes -/

theorem trip_avoidNode {nodeid : String} (h : avoidNode nodeid n = some n') :
    n'.trip = n.trip := by
  simp only [avoidNode, Option.bind_eq_bind, Option.bind_eq_some_iff] at h
  obtain ⟨key, -, hout⟩ := h
  cases hout
  rfl

theorem trip_useExitInfo {nodeid : String} {f : Option Forecast}
    (h : useExitInfo cfg nodeid f n = some n') : n'.trip = n.trip := by
  unfold useExitInfo at h
  split at h
  · split_ifs at h
    · exact trip_avoidNode h
    · cases h
      rfl
  · cases h
    rfl

theorem trip_setEraseHopTimer : (setEraseHopTimer now n).trip = n.trip := by
  unfold setEraseHopTimer
  refine foldl_view (g := DtnNode.trip) (fun n a => ?_) _ _
  split_ifs <;> rfl

theorem trip_useHop {nodeid : String} {f : Option Forecast}
    (h : useHop cfg now nodeid f n = some n') : n'.trip = n.trip := by
  unfold useHop at h
  dsimp only at h
  split_ifs at h
  · obtain ⟨n₁, h₁, rfl⟩ := Option.map_eq_some_iff.mp h
    rw [trip_setEraseHopTimer]
    exact trip_avoidNode h₁
  · cases h
    exact trip_setEraseHopTimer
  · cases h
    rfl

theorem onWay_turnedWay (turned : Option (List (WayNode C))) (graph : Graph C) (search : Bool) :
    OnWay n { n with isDijkstra := search, user := { turnedWay n.user turned with graph := graph } } := by
  unfold turnedWay
  split <;> exact ⟨rfl, rfl, rfl⟩

theorem ledger_takeRoute (route : List C) (comp : String) (dists : StdMap String ℚ) :
    (takeRoute route comp dists n).ledger =
      { n.ledger with exitnode := comp, targetNodeBuf := comp } := by
  unfold takeRoute countChange
  split_ifs <;> rfl

theorem route_takeRoute (route : List C) (comp : String) (dists : StdMap String ℚ) :
    (takeRoute route comp dists n).route = { n.route with shortest := route } := by
  unfold takeRoute countChange
  split_ifs <;> rfl

/-- The user notes the shelter it stands at when that is full. -/
def noted (b : Building) (id : String) (n : MyUser C) : MyUser C :=
  if b.exitNodes.find id = some 0 then noteFull id n else n

theorem trip_noted (id : String) : (noted b id n).trip = n.trip := by
  unfold noted
  split_ifs <;> rfl

theorem noted_of_full {id : String} (hfull : b.exitNodes.find id = some 0) :
    (noted b id n).isDijkstra = true ∧ (noted b id n).fullexitnodeid.contains id = true := by
  unfold noted
  rw [if_pos hfull]
  exact ⟨rfl, StdMap.contains_insert.mpr (.inl rfl)⟩

/-! ## Completion -/

/-- A ledger with the target of another one. -/
def Ledger.aimed (l l' : Ledger) : Ledger :=
  { l with exitnode := l'.exitnode, targetNodeBuf := l'.targetNodeBuf }

/-- The books after a completion that went through. -/
def Building.complete (b : Building) (userId : UInt32) (id : String) (space : UInt32) : Building :=
  { (b.leave userId).exitNodesPassedUserSet id space with
    completeTime := b.completeTime ++ [(userId, id)] }

def Ledger.finish (l : Ledger) : Ledger := { l with isMove := false, isExit := true, exited := true }

/-- A completion that goes through, at the shelter `id`. -/
inductive Ends (b : Building) (n : MyUser C) (id : String) : Building → MyUser C → Prop
  | mk {space : UInt32} {n' : MyUser C} (hspace : b.exitNodes.find id = some space)
      (hledger : n'.ledger = n.ledger.finish) (hroute : n'.route = n.route) :
      Ends b n id (b.complete n.ledger.userId id space) n'

theorem completeAt_done {id : String} {b' : Building} (hmove : n.user.isMove = false)
    (hexit : n.user.isExit = true) (h : completeAt b n id = some (.done b' n')) :
    Ends b n id b' n' := by
  simp only [completeAt, Option.bind_eq_bind, Option.bind_eq_some_iff] at h
  obtain ⟨key, -, space, hspace, h⟩ := h
  split at h
  · cases h
  · simp only [Option.bind_eq_some_iff] at h
    obtain ⟨-, -, hout⟩ := h
    cases hout
    refine .mk hspace ?_ rfl
    simp [DtnNode.ledger, Ledger.finish, hmove, hexit]

theorem completeAt_threw {id : String} {b' : Building}
    (h : completeAt b n id = some (.threw b' n')) :
    ∃ key space, nodeIDstoi id = some key ∧ key ≠ 0 ∧ n.user.exitnodeinfolist.find key = none ∧
      b.exitNodes.find id = some space ∧
      b' = (b.leave n.userId).exitNodesPassedUserSet id space ∧
      n' = { n with user := { n.user with exitinfopair := (key, space - 1) } } := by
  simp only [completeAt, Option.bind_eq_bind, Option.bind_eq_some_iff] at h
  obtain ⟨key, hkey, space, hspace, h⟩ := h
  split at h
  · rename_i hinsert
    cases h
    unfold insertExitnodeInfoList at hinsert
    split_ifs at hinsert with hzero
    refine ⟨key, space, hkey, hzero, ?_, hspace, rfl, rfl⟩
    by_contra hfound
    obtain ⟨cap, hcap⟩ := Option.ne_none_iff_exists'.mp hfound
    simp [hcap] at hinsert
  · simp only [Option.bind_eq_some_iff] at h
    obtain ⟨-, -, hout⟩ := h
    cases hout

theorem ends_arrived {id : String} {b' : Building} (h : Ends b (arrived n) id b' n') :
    Ends b n id b' n' := by
  obtain ⟨hspace, hledger, hroute⟩ := h
  exact .mk hspace hledger hroute

/-! ## The count of moving users -/

/-- What `CheckMovingUserNum` does. -/
inductive Checked (b : Building) (n : MyUser C) : Building → MyUser C → Prop
  | idle : Checked b n b n
  | removes :
      Checked b n b { n with user := { n.user with movingUserNumTimer := false } }
  | counts {num : UInt32} (hnum : b.movingUserNum.find n.ledger.exitnode = some num)
      (hexit : n.ledger.isExit = false) (hcheck : n.ledger.checkMoveFlag = false)
      (halready : n.ledger.alreadycountflag = false) :
      Checked b n { b with movingUserNum := b.movingUserNum.assign n.ledger.exitnode (num + 1) }
        { n with user := { n.user with checkMoveFlag := true } }
  | discounts {num : UInt32} (hnum : b.movingUserNum.find n.ledger.exitnode = some num)
      (hexit : n.ledger.isExit = true) (hcheck : n.ledger.checkMoveFlag = true)
      (halready : n.ledger.alreadycountflag = false) :
      Checked b n { b with movingUserNum := b.movingUserNum.assign n.ledger.exitnode (num - 1) }
        { n with user := { n.user with alreadycountflag := true } }

theorem checkMovingUserNum_spec (b : Building) (n : MyUser C) :
    Checked b n (checkMovingUserNum b n).1 (checkMovingUserNum b n).2 := by
  unfold checkMovingUserNum
  split
  · exact .idle
  · rename_i num hnum
    dsimp only
    rw [StdMap.insert_erase, StdMap.insert_erase]
    split_ifs with hdone hremove hnew
    · obtain ⟨hcheck, hexit, halready⟩ := hdone
      exact .discounts hnum hexit hcheck (by simpa [DtnNode.ledger] using halready)
    · exact .removes
    · obtain ⟨hexit, hcheck, halready⟩ := hnew
      refine .counts hnum ?_ ?_ ?_
      · simpa [DtnNode.ledger] using hexit
      · simpa [DtnNode.ledger] using hcheck
      · simpa [DtnNode.ledger] using halready
    · exact .idle

/-! ## At a crossing -/

variable [Zero C] {m : RoadMap C}

theorem trip_forecast (ni : WayNode C) : (forecast cfg m now b n ni).2.trip = n.trip := by
  unfold forecast
  split
  · rfl
  · dsimp only
    split_ifs <;> rfl

theorem trip_forecastCrossing {ni : WayNode C}
    (h : forecastCrossing cfg m now b n ni = some n') : n'.trip = n.trip := by
  simp only [forecastCrossing, Option.bind_eq_bind, Option.bind_eq_some_iff] at h
  obtain ⟨n₁, h₁, h₂⟩ := h
  calc n'.trip = n₁.trip := trip_useHop h₂
    _ = (forecast cfg m now b n ni).2.trip := trip_useExitInfo h₁
    _ = n.trip := trip_forecast ni

theorem followRoute_spec {ni : WayNode C} {w' : Walk C}
    (h : followRoute m ni n.user = some w') :
    ({ n with user := w' } : MyUser C).ledger = n.ledger ∧
      Followed ni.coordinate n.route ({ n with user := w' } : MyUser C).route := by
  obtain ⟨⟩ := n
  rename_i user
  obtain ⟨⟩ := user
  simp only [followRoute] at h
  split at h
  · cases h
    exact ⟨rfl, .off (by simp [DtnNode.route])⟩
  · split_ifs at h with hne
    · cases h
      exact ⟨rfl, .off (by simpa [DtnNode.route] using Ne.symm hne)⟩
    · rw [not_not] at hne
      subst hne
      split at h
      · cases h
        exact ⟨rfl, .last⟩
      · simp only [Option.bind_eq_bind, Option.bind_eq_some_iff] at h
        obtain ⟨wi, -, hout⟩ := h
        cases hout
        exact ⟨rfl, .next⟩

theorem taskOfCrossing_spec {ni : WayNode C} (h : taskOfCrossing cfg m now b n ni = some n') :
    n'.ledger = n.ledger ∧ Followed ni.coordinate n.route n'.route := by
  simp only [taskOfCrossing, Option.bind_eq_bind, Option.bind_eq_some_iff] at h
  obtain ⟨n₁, h₁, -, -, w', h₂, hout⟩ := h
  cases hout
  have htrip := trip_forecastCrossing h₁
  obtain ⟨hledger, hroute⟩ := followRoute_spec h₂
  refine ⟨hledger.trans (ledger_eq_of_trip htrip), ?_⟩
  rw [← route_eq_of_trip htrip]
  exact hroute

/-- A crossing is a node the user turns at, any other node only one it comes by. -/
theorem taskIfCrossing_spec {ni : WayNode C} (h : taskIfCrossing cfg m now b n ni = some n') :
    n'.ledger = n.ledger ∧
      (ni.isCrossing = true ∧ Followed ni.coordinate n.route n'.route ∨
        ni.isCrossing = false ∧ n'.route = n.route) := by
  unfold taskIfCrossing at h
  split_ifs at h with hcross
  · obtain ⟨hledger, hroute⟩ := taskOfCrossing_spec h
    exact ⟨hledger, .inl ⟨hcross, hroute⟩⟩
  · cases h
    exact ⟨rfl, .inr ⟨by simpa using hcross, rfl⟩⟩

/-! ## Along a way -/

theorem trip_findBlocked {id : String} (h : findBlocked (userOps m) now n id = some n') :
    n'.trip = n.trip := by
  unfold findBlocked at h
  split_ifs at h
  · cases h
    rfl
  · simp only [userOps, Option.bind_eq_bind, Option.bind_eq_some_iff] at h
    obtain ⟨w, ⟨pos, -, ni, -, g, -, hw⟩, hout⟩ := h
    cases hw
    cases hout
    rfl

theorem meetBlocked_onWay {front ni : WayNode C} (h : meetBlocked m now n front ni = some n') :
    OnWay n n' := by
  simp only [meetBlocked, Option.bind_eq_bind, Option.bind_eq_some_iff] at h
  obtain ⟨n₁, h₁, wi, -, g, -, hout⟩ := h
  cases hout
  exact (OnWay.of_trip (trip_findBlocked h₁)).trans (onWay_turnedWay _ g true)

theorem advance_onWay (h : advance m now n = some n') : OnWay n n' := by
  unfold advance at h
  split at h
  · simp at h
  · simp only [Option.bind_eq_bind, Option.bind_eq_some_iff] at h
    obtain ⟨wi, -, hout⟩ := h
    cases hout
    exact ⟨rfl, rfl, rfl⟩
  · dsimp only at h
    split_ifs at h
    · exact meetBlocked_onWay h
    · cases h
      exact ⟨rfl, rfl, rfl⟩

theorem getWayNextVector_spec (h : getWayNextVector cfg m now b n = some n') :
    n'.ledger = n.ledger ∧
      ((n.route.shortest = [] → n.route.passednode = []) → AtEnd n'.route) := by
  simp only [getWayNextVector, Option.bind_eq_bind, Option.bind_eq_some_iff] at h
  obtain ⟨n₁, h₁, front, hfront, h₂⟩ := h
  have hway := advance_onWay h₁
  obtain ⟨hledger, hroute⟩ := taskIfCrossing_spec h₂
  refine ⟨hledger.trans hway.ledger, fun hr => ?_⟩
  have hr₁ : n₁.route.shortest = [] → n₁.route.passednode = [] := by
    rw [hway.shortest, hway.passednode]
    exact hr
  rcases hroute with ⟨hcross, hfollow⟩ | ⟨-, hroute⟩
  · exact hfollow.atEnd hfront hcross hr₁
  · rw [hroute]
    exact fun hnil => .inl (hr₁ hnil)

/-! ## The route search -/

/-- The shelter a search from `no` sends the user to, if it comes to choose one. -/
def newTarget (m : RoadMap C) (n : MyUser C) (no : C) : Option String := do
  let s ← settleFrom m n.user.graph no
  let target ← (← searchTarget m n.user.exitnodeinfolist n.fullexitnodeid s)
  m.getIDfromCoordinate target.2

/-- A search from `no` that gives up, because a shelter on the user's list was not settled. -/
def givesUp (m : RoadMap C) (n : MyUser C) (no : C) : Bool :=
  match (settleFrom m n.user.graph no).bind
      (searchTarget m n.user.exitnodeinfolist n.fullexitnodeid) with
  | some none => true
  | _ => false

/-- How a search ends. -/
inductive Searched (m : RoadMap C) (b : Building) (n : MyUser C) (no : WayNode C) :
    Building → MyUser C → Prop
  | gaveUp (hup : givesUp m n no.coordinate = true) : Searched m b n no b n
  | found {comp : String} {b' : Building} {n' : MyUser C}
      (htarget : newTarget m n no.coordinate = some comp) (hcomp : Canonical comp)
      (hretarget : b.retarget n.ledger.targetNodeBuf comp = some b')
      (hledger : n'.ledger = { n.ledger with exitnode := comp, targetNodeBuf := comp })
      (hend : no.isCrossing = true → n'.route.shortest = [] →
        n'.route.passednode.getLast? = some no.coordinate)
      (hfull : ∀ id, m.getIDfromCoordinate no.coordinate = some id →
        n.fullexitnodeid.contains id = true → n'.route.shortest ≠ []) :
      Searched m b n no b' n'

theorem setRoute_spec {no : WayNode C} {s : SearchState C} {target : ℚ × C} {b' : Building}
    (hs : settleFrom m n.user.graph no.coordinate = some s)
    (htarget : searchTarget m n.user.exitnodeinfolist n.fullexitnodeid s = some (some target))
    (h : setRoute cfg m now b n no s target = some (b', n')) : Searched m b n no b' n' := by
  simp only [setRoute, Option.bind_eq_bind, Option.bind_eq_some_iff] at h
  obtain ⟨info, -, dists, -, comp, hcomp, b₁, hb₁, n₁, hn₁, hout⟩ := h
  cases hout
  obtain ⟨hledger, hroute⟩ := taskIfCrossing_spec hn₁
  rw [route_takeRoute] at hroute
  refine .found ?_ (RoadMap.canonical_getIDfromCoordinate hcomp) hb₁
    (hledger.trans (ledger_takeRoute ..)) ?_ ?_
  · simp [newTarget, hs, htarget, hcomp]
  · intro hcross hnil
    rcases hroute with ⟨-, hfollow⟩ | ⟨hcross', -⟩
    · exact hfollow.passed_last (by simp) hnil
    · simp [hcross] at hcross'
  · intro id hid hfull
    rcases hroute with ⟨-, hfollow⟩ | ⟨-, hroute⟩
    · exact hfollow.shortest_ne_nil (searchTarget_ne htarget hid hfull hcomp)
    · rw [hroute]
      simp

theorem dijkstraRouteCalculation_spec {no : WayNode C} {b' : Building}
    (h : dijkstraRouteCalculation cfg m now b n no = some (b', n')) : Searched m b n no b' n' := by
  simp only [dijkstraRouteCalculation, Option.bind_eq_bind, Option.bind_eq_some_iff] at h
  obtain ⟨s, hs, target, htarget, h⟩ := h
  cases target with
  | none =>
    cases h
    exact .gaveUp (by simp [givesUp, hs, htarget])
  | some target => exact setRoute_spec hs htarget h

/-- What the search stage of a movement event does. -/
inductive Sought (m : RoadMap C) (b : Building) (n : MyUser C) (front : WayNode C) :
    Building → MyUser C → Prop
  | idle (h : ¬ (n.isDijkstra = true ∧ front.isCrossing = true)) : Sought m b n front b n
  | searched {b' : Building} {n' : MyUser C} (hcross : front.isCrossing = true)
      (hdue : n.isDijkstra = true) (h : Searched m b n front b' n') :
      Sought m b n front b' { n' with isDijkstra := false }

theorem searchStage_spec {front : WayNode C} {b' : Building}
    (h : searchStage cfg m now b n front = some (b', n')) : Sought m b n front b' n' := by
  unfold searchStage at h
  split_ifs at h with hdue
  · simp only [Option.bind_eq_bind, Option.bind_eq_some_iff] at h
    obtain ⟨⟨b₁, n₁⟩, h₁, hout⟩ := h
    cases hout
    exact .searched hdue.2 hdue.1 (dijkstraRouteCalculation_spec h₁)
  · cases h
    exact .idle hdue

theorem completePassed_spec {b' : Building} (hmove : n.user.isMove = false)
    (hexit : n.user.isExit = true) (h : completePassed m b n = some (b', n')) :
    ∃ pos id, n.route.passednode.getLast? = some pos ∧ m.getIDfromCoordinate pos = some id ∧
      Ends b n id b' n' := by
  simp only [completePassed, Option.bind_eq_bind, Option.bind_eq_some_iff] at h
  obtain ⟨pos, hpos, id, hid, h⟩ := h
  split at h
  · rename_i hdone
    cases h
    exact ⟨pos, id, hpos, hid, completeAt_done hmove hexit hdone⟩
  all_goals simp at h

/-! ## A movement event -/

theorem trip_userCheckAoI (h : userCheckAoI cfg m now n = some n') : n'.trip = n.trip := by
  unfold userCheckAoI at h
  refine foldlM_fixed (g := DtnNode.trip) (fun n a n' ha => ?_) h
  split_ifs at ha
  · simp only [Option.bind_eq_bind, Option.bind_eq_some_iff] at ha
    obtain ⟨g, -, hout⟩ := ha
    cases hout
    rfl
  · cases ha
    rfl

theorem trip_forgetOld (h : forgetOld cfg m now n = some n') : n'.trip = n.trip := by
  unfold forgetOld at h
  split_ifs at h
  · exact trip_userCheckAoI h
  · cases h
    rfl

theorem trip_checkTarget (h : checkTarget m n = some n') : n'.trip = n.trip := by
  unfold checkTarget at h
  split at h
  · cases h
    rfl
  · simp only [Option.bind_eq_bind, Option.bind_eq_some_iff] at h
    obtain ⟨id, -, h⟩ := h
    split_ifs at h
    · cases h
      rfl
    · simp only [Option.bind_eq_some_iff] at h
      obtain ⟨key, -, cap, -, hout⟩ := h
      cases hout
      split_ifs <;> rfl

/-- The ledger of a user whose movement timer has just run out. -/
def Ledger.woken (l : Ledger) : Ledger :=
  { l with isExit := l.isExit || !l.isMove, humTimer := false }

theorem beginMovement_spec (h : beginMovement cfg m now n = some n') :
    n'.ledger = n.ledger.woken ∧ n'.route = n.route := by
  simp only [beginMovement, Option.bind_eq_bind, Option.bind_eq_some_iff] at h
  obtain ⟨n₁, h₁, h₂⟩ := h
  have htrip : n'.trip = (wake n).trip := (trip_checkTarget h₂).trans (trip_forgetOld h₁)
  have hledger : n'.ledger = (wake n).ledger := ledger_eq_of_trip htrip
  have hroute : n'.route = (wake n).route := route_eq_of_trip htrip
  exact ⟨hledger, hroute⟩

/-- After the search, the user walks on, or it has arrived at the crossing it passed last. -/
inductive Finished (m : RoadMap C) (b : Building) (n : MyUser C) :
    Building → MyUser C → Prop
  | walks {n' : MyUser C} (hmove : n.ledger.isMove = true)
      (hon : n.route.shortest = [] → n.isDijkstra = true)
      (hledger : n'.ledger = { n.ledger with humTimer := true })
      (hend : (n.route.shortest = [] → n.route.passednode = []) → AtEnd n'.route) :
      Finished m b n b n'
  | ends {pos : C} {id : String} {b' : Building} {n' : MyUser C}
      (hstop : n.ledger.isMove = false ∨ n.route.shortest = [] ∧ n.isDijkstra = false)
      (hpos : n.route.passednode.getLast? = some pos)
      (hid : m.getIDfromCoordinate pos = some id) (h : Ends b n id b' n') :
      Finished m b n b' n'

theorem moveOn_spec {speed : ℚ} {b' : Building}
    (hexit : n.ledger.isMove = false → n.ledger.isExit = true)
    (h : moveOn cfg m now speed b (markArrived n) = some (b', n')) : Finished m b n b' n' := by
  unfold markArrived at h
  split_ifs at h with harrived
  · have hstop : n.route.shortest = [] ∧ n.isDijkstra = false := by
      simpa [DtnNode.route] using harrived
    have h : completePassed m b (arrived n) = some (b', n') := h
    obtain ⟨pos, id, hpos, hid, hends⟩ := completePassed_spec rfl rfl h
    exact .ends (.inr hstop) hpos hid (ends_arrived hends)
  · unfold moveOn at h
    split_ifs at h with hmove hexited
    · simp only [Option.bind_eq_bind, Option.bind_eq_some_iff] at h
      obtain ⟨n₁, h₁, hout⟩ := h
      cases hout
      have hon : n.route.shortest = [] → n.isDijkstra = true := by
        intro hnil
        by_contra hdue
        exact harrived ⟨hnil, by simpa using hdue⟩
      obtain ⟨hledger, hend⟩ := getWayNextVector_spec h₁
      refine .walks hmove hon ?_ hend
      rw [← hledger]
      rfl
    · have hmove : n.user.isMove = false := by simpa using hmove
      obtain ⟨pos, id, hpos, hid, hends⟩ := completePassed_spec hmove hexited h
      exact .ends (.inl hmove) hpos hid hends
    · have hmove : n.user.isMove = false := by simpa using hmove
      exact absurd (hexit hmove) hexited

/-- A search leaves the ledger alone, but for the target. -/
theorem Sought.ledger {front : WayNode C} {b' : Building} (h : Sought m b n front b' n') :
    n'.ledger = n.ledger.aimed n'.ledger := by
  cases h with
  | idle => rfl
  | @searched b₁ n₁ hcross hdue h =>
    cases h with
    | gaveUp => rfl
    | found htarget hcomp hretarget hledger =>
      have hsame : ({ n₁ with isDijkstra := false } : MyUser C).ledger = n₁.ledger := rfl
      rw [hsame, hledger]
      rfl

theorem finishMovement_spec {front : WayNode C} {speed : ℚ} {b' : Building}
    (hexit : n.ledger.isMove = false → n.ledger.isExit = true)
    (h : finishMovement cfg m now speed b n front = some (b', n')) :
    ∃ b₁ n₁, Sought m b n front b₁ n₁ ∧ Finished m b₁ n₁ b' n' := by
  simp only [finishMovement, Option.bind_eq_bind, Option.bind_eq_some_iff] at h
  obtain ⟨⟨b₁, n₁⟩, h₁, h₂⟩ := h
  have hsought := searchStage_spec h₁
  refine ⟨b₁, n₁, hsought, moveOn_spec ?_ h₂⟩
  rw [hsought.ledger]
  exact hexit

/-- What a movement event does from the crossing or shelter the user is at. -/
inductive Moved (m : RoadMap C) (b : Building) (n : MyUser C) (front : WayNode C) (id : String) :
    Building → MyUser C → Prop
  /-- Nothing ends here. -/
  | passes {b₁ b' : Building} {n₁ n' : MyUser C}
      (hfull : b.exitNodes.find id = some 0 ∨ n.route.shortest = [] ∨ b.exitNodes.find id = none)
      (hsought : Sought m b (noted b id n) front b₁ n₁)
      (hfinished : Finished m b₁ n₁ b' n') : Moved m b n front id b' n'
  /-- The user enters a shelter on its way. -/
  | enters {b' : Building} {n' : MyUser C} (hfree : b.exitNodes.find id ≠ some 0)
      (hroute : n.route.shortest ≠ []) (h : Ends b n id b' n') : Moved m b n front id b' n'
  /-- It enters one that is no longer on its list. The exception comes when the books are written
  already, and the user completes a second time. -/
  | again {key space : UInt32} {b₁ b' : Building} {n₀ n₁ n' : MyUser C}
      (hroute : n.route.shortest ≠ []) (hkey : nodeIDstoi id = some key) (hzero : key ≠ 0)
      (hunknown : n.user.exitnodeinfolist.find key = none)
      (hspace : b.exitNodes.find id = some space) (hfree : space ≠ 0)
      (htrip : n₀.trip = (arrived n).trip) (hdue : n₀.isDijkstra = n.isDijkstra)
      (htarget : newTarget m n₀ front.coordinate = newTarget m n front.coordinate)
      (hsought : Sought m ((b.leave n.ledger.userId).exitNodesPassedUserSet id space) n₀ front b₁ n₁)
      (hfinished : Finished m b₁ n₁ b' n') : Moved m b n front id b' n'

theorem atNode_spec {front : WayNode C} {id : String} {speed : ℚ} {b' : Building}
    (hexit : n.ledger.isMove = false → n.ledger.isExit = true)
    (h : atNode cfg m now speed b n front id = some (b', n')) : Moved m b n front id b' n' := by
  unfold atNode at h
  split at h
  · rename_i hnone
    obtain ⟨b₁, n₁, hsought, hfinished⟩ := finishMovement_spec hexit h
    exact .passes (.inr (.inr hnone)) (by simpa [noted, hnone] using hsought) hfinished
  · rename_i space hspace
    split_ifs at h with hzero hroute
    · subst hzero
      obtain ⟨b₁, n₁, hsought, hfinished⟩ := finishMovement_spec (n := noteFull id n) hexit h
      exact .passes (.inl hspace) (by simpa [noted, hspace] using hsought) hfinished
    · unfold enterShelter at h
      split at h
      · cases h
      · rename_i hdone
        cases h
        refine .enters (by simpa [hspace] using hzero) hroute ?_
        exact ends_arrived (completeAt_done rfl rfl hdone)
      · rename_i b₀ n₀ hthrew
        obtain ⟨key, space', hkey, hne, hunknown, hspace', rfl, rfl⟩ := completeAt_threw hthrew
        rw [hspace] at hspace'
        cases hspace'
        obtain ⟨b₁, n₁, hsought, hfinished⟩ := finishMovement_spec (fun _ => rfl) h
        refine .again hroute hkey hne hunknown hspace hzero ?_ ?_ ?_ hsought hfinished <;> rfl
    · rw [not_not] at hroute
      obtain ⟨b₁, n₁, hsought, hfinished⟩ := finishMovement_spec hexit h
      exact .passes (.inr (.inl hroute)) (by simpa [noted, hspace, hzero] using hsought) hfinished

/-- What a movement event starts from: the user it leaves awake, at its node. -/
structure Begun (cfg : UserConfig) (m : RoadMap C) (now : ℕ) (n n₁ : MyUser C)
    (front : WayNode C) (id : String) : Prop where
  begun : beginMovement cfg m now n = some n₁
  ledger : n₁.ledger = n.ledger.woken
  route : n₁.route = n.route
  hfront : n.route.currentway.head? = some front
  hid : m.getIDfromCoordinate front.coordinate = some id

theorem handleUserMovement_spec {speed : ℚ} {b' : Building}
    (h : handleUserMovement cfg m now speed b n = some (b', n')) :
    ∃ n₁ front id, Begun cfg m now n n₁ front id ∧ Moved m b n₁ front id b' n' := by
  simp only [handleUserMovement, Option.bind_eq_bind, Option.bind_eq_some_iff] at h
  obtain ⟨n₁, h₁, front, hfront, id, hid, h₂⟩ := h
  obtain ⟨hledger, hroute⟩ := beginMovement_spec h₁
  have hexit : n₁.ledger.isMove = false → n₁.ledger.isExit = true := by
    rw [hledger]
    intro hmove
    have hmove : n.ledger.isMove = false := hmove
    simp [Ledger.woken, hmove]
  have hfront : n₁.route.currentway.head? = some front := hfront
  rw [hroute] at hfront
  exact ⟨n₁, front, id, ⟨h₁, hledger, hroute, hfront, hid⟩, atNode_spec hexit h₂⟩

/-! ## The ledger after a movement event -/

/-- A user walks on, with its timer set again, or is done. -/
inductive Carried (l l' : Ledger) : Prop
  | walks (hmove : l.isMove = true) (h : l' = { l.aimed l' with humTimer := true })
  | ends (h : l' = (l.aimed l').finish)

theorem Finished.carried {l : Ledger} {b' : Building} (h : Finished m b n b' n')
    (hl : n.ledger = l.aimed n.ledger) : Carried l n'.ledger := by
  cases h with
  | walks hmove _ hledger =>
    rw [hl] at hmove hledger
    rw [hledger]
    exact .walks hmove rfl
  | ends _ _ _ hends =>
    obtain ⟨-, hledger, -⟩ := hends
    rw [hl] at hledger
    rw [hledger]
    exact .ends rfl

theorem Moved.carried {front : WayNode C} {id : String} {b' : Building}
    (h : Moved m b n front id b' n') : Carried n.ledger n'.ledger := by
  cases h with
  | passes _ hsought hfinished =>
    have hl := hsought.ledger
    rw [ledger_eq_of_trip (trip_noted id)] at hl
    exact hfinished.carried hl
  | enters _ _ hends =>
    obtain ⟨-, hledger, -⟩ := hends
    rw [hledger]
    exact .ends rfl
  | again _ _ _ _ _ _ htrip _ _ hsought hfinished =>
    have hl := hsought.ledger
    rw [ledger_eq_of_trip htrip] at hl
    cases hfinished with
    | walks hmove =>
      rw [hl] at hmove
      cases hmove
    | ends _ _ _ hends =>
      obtain ⟨-, hledger, -⟩ := hends
      rw [hl] at hledger
      rw [hledger]
      exact .ends rfl

theorem handleUserMovement_ledger {speed : ℚ} {b' : Building}
    (h : handleUserMovement cfg m now speed b n = some (b', n')) :
    Carried n.ledger.woken n'.ledger := by
  obtain ⟨n₁, front, id, hbegun, hmoved⟩ := handleUserMovement_spec h
  rw [← hbegun.ledger]
  exact hmoved.carried

theorem Carried.userId {l l' : Ledger} (h : Carried l l') : l'.userId = l.userId := by
  cases h with
  | walks _ h => rw [h]; rfl
  | ends h => rw [h]; rfl

theorem Carried.flags {l l' : Ledger} (h : Carried l l') :
    l'.checkMoveFlag = l.checkMoveFlag ∧ l'.alreadycountflag = l.alreadycountflag := by
  cases h with
  | walks _ h => rw [h]; exact ⟨rfl, rfl⟩
  | ends h => rw [h]; exact ⟨rfl, rfl⟩

/-- A user on its way goes on, or moves no more. -/
theorem Carried.stage {l l' : Ledger} (h : Carried l.woken l') (hl : l.Travels) :
    l'.Travels ∨ l'.humTimer = false := by
  obtain ⟨hmove, hexit⟩ := hl
  cases h with
  | walks _ h =>
    left
    rw [h]
    simp [Ledger.Travels, Ledger.aimed, Ledger.woken, hmove, hexit]
  | ends h =>
    right
    rw [h]
    rfl

end Ns3.Ferry2
