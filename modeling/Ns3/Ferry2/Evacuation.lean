import Ns3.Ferry2.MovementSpec
import Ns3.Lib.Run

/-!
# The evacuation as a whole

The users, the static members they share and the map, under every order of the
events of a simulation: movement timers, the timers that count moving users,
the activation of reserved users (`test.cc`), blocked and unblocked crossings,
and whatever a user learns from the DTN.
-/

namespace Ns3.Ferry2

open Ns3.Lib

variable {C : Type} [LinearOrder C] [Zero C]

structure World (C : Type) [LinearOrder C] [Zero C] where
  map : RoadMap C
  building : Building
  /-- `n_user`, by the index the driver uses. -/
  nUser : ℕ → MyUser C

/-- What a user takes from others. The handlers of the DTN write its tables, its graph and
`isDijkstra`. -/
def DtnNode.learn (n news : MyUser C) : MyUser C :=
  { news with
    nodeType := n.nodeType
    userId := n.userId
    exited := n.exited
    isWait := n.isWait
    user := { n.user with graph := news.user.graph } }

inductive Event (C : Type) [LinearOrder C]
  /-- `ActivateReservedAddUsers`. -/
  | addUsers (now : ℕ)
  /-- The movement timer of a user; `speed` is that of its next step. -/
  | move (u now : ℕ) (speed : ℚ)
  | checkMovingUserNum (u : ℕ)
  | hear (u : ℕ) (news : MyUser C)
  | block (pos : C) (flag : Bool)

namespace World

/-- How many users there are, active and reserved. -/
def size (w : World C) : ℕ := w.building.numUsers.toNat + w.building.addUsersNum.toNat

def setUser (w : World C) (b : Building) (u : ℕ) (n : MyUser C) : World C :=
  { w with building := b, nUser := Function.update w.nUser u n }

/-! ## Reserved users -/

/-- The number the driver enters a user under. -/
def userNumber (nodeIndex : UInt32) : UInt32 := nodeIndex + 1

/-- `MyBuilding::AddActiveUser`. -/
def addActiveUser (active : StdSet UInt32) (userId : UInt32) : StdSet UInt32 :=
  active.insert userId ()

/-- One turn of the loop: the user with the given index starts to move. -/
def activate (w : World C) (nodeIndex : UInt32) : World C :=
  let n := w.nUser nodeIndex.toNat
  w.setUser { w.building with
      activeUsers := addActiveUser w.building.activeUsers (userNumber nodeIndex)
      nextAddUserIndex := w.building.nextAddUserIndex + 1 } nodeIndex.toNat
    { n with isWait := false, user := { n.user with humTimer := true } }

/-- The loop over the users of one interval. -/
def activateLoop : ℕ → World C → World C
  | 0, w => w
  | k + 1, w =>
    let idx := w.building.nextAddUserIndex
    if w.building.addUsersNum ≤ idx then w
    else activateLoop k (w.activate (w.building.numUsers + idx))

/-- `NetSim::ActivateReservedAddUsers`. -/
def activateReservedAddUsers (w : World C) (now : ℕ) : World C :=
  if w.building.addUserEndTime < nowSeconds now then w
  else activateLoop w.building.addUsersPerInterval.toNat w

/-! ## Steps -/

/-- A timer only runs out while it is set. -/
def step (cfg : UserConfig) (w : World C) : Event C → Option (World C)
  | .addUsers now => some (w.activateReservedAddUsers now)
  | .move u now speed =>
    if u < w.size ∧ (w.nUser u).user.humTimer then
      (handleUserMovement cfg w.map now speed w.building (w.nUser u)).map fun r =>
        w.setUser r.1 u r.2
    else none
  | .checkMovingUserNum u =>
    if u < w.size ∧ (w.nUser u).user.movingUserNumTimer then
      let r := checkMovingUserNum w.building (w.nUser u)
      some (w.setUser r.1 u r.2)
    else none
  | .hear u news =>
    if u < w.size then some (w.setUser w.building u ((w.nUser u).learn news)) else none
  | .block pos flag => some { w with map := w.map.setBlocked pos flag }

/-! ## The start -/

/-- The constructor's list of shelters, with their capacities. -/
def initialExits (exitNodes : StdMap String UInt32) :
    Option (StdMap UInt32 (UInt32 × UInt32)) :=
  exitNodes.entries.foldlM (fun l e => do
    let key ← nodeIDstoi e.1
    return l.insert key (e.2, e.2)) .empty

/-- Nobody counted yet. -/
def initialMoving (exitNodes : StdMap String UInt32) : StdMap String UInt32 :=
  .ofList (exitNodes.entries.map fun e => (e.1, 0))

/-- The loop of `MakeNetworkTopologyforJSON` over the users that move from the start. -/
def initialActive (numUsers : UInt32) : StdSet UInt32 :=
  (List.range numUsers.toNat).foldl
    (fun active i => addActiveUser active (userNumber (UInt32.ofNat i))) .empty

/-- A user after its constructor and `RoutingProtocol::Start`, which sets the timers of the users
that are not reserved. -/
structure Fresh (b : Building) (u : ℕ) (n : MyUser C) : Prop where
  userId : n.userId = UInt32.ofNat u
  exits : initialExits b.exitNodes = some n.user.exitnodeinfolist
  shortest : n.user.shortest = []
  passednode : n.user.passednode = []
  exitnode : n.user.exitnode = ""
  targetNodeBuf : n.user.targetNodeBuf = "first"
  isMove : n.user.isMove = true
  isExit : n.user.isExit = false
  exited : n.exited = false
  checkMoveFlag : n.user.checkMoveFlag = false
  alreadycountflag : n.user.alreadycountflag = false
  humTimer : n.user.humTimer = decide (u < b.numUsers.toNat)
  movingUserNumTimer : n.user.movingUserNumTimer = decide (u < b.numUsers.toNat)

structure Started (w : World C) : Prop where
  bound : w.size < UInt32.size
  nextAddUserIndex : w.building.nextAddUserIndex = 0
  activeUsers : w.building.activeUsers = initialActive w.building.numUsers
  completed : w.building.userIdCompletedEvacuation = []
  completeTime : w.building.completeTime = []
  firstExitInfo : w.building.firstExitInfo = w.building.exitNodes
  movingUserNum : w.building.movingUserNum = initialMoving w.building.exitNodes
  fresh : ∀ u < w.size, Fresh w.building u (w.nUser u)

end World

/-- The evacuation. -/
def evacuation (cfg : UserConfig) : System (World C) (Event C) where
  init := World.Started
  step w e w' := w.step cfg e = some w'

/-! ## What a step does -/

namespace World

variable {cfg : UserConfig} {w w' : World C} {u now : ℕ} {speed : ℚ}

theorem step_move (h : w.step cfg (.move u now speed) = some w') :
    u < w.size ∧ (w.nUser u).ledger.humTimer = true ∧ ∃ b n,
      handleUserMovement cfg w.map now speed w.building (w.nUser u) = some (b, n) ∧
      w' = w.setUser b u n := by
  simp only [step] at h
  split_ifs at h with htimer
  obtain ⟨⟨b, n⟩, hmove, rfl⟩ := Option.map_eq_some_iff.mp h
  exact ⟨htimer.1, htimer.2, b, n, hmove, rfl⟩

theorem step_checkMovingUserNum (h : w.step cfg (.checkMovingUserNum u) = some w') :
    u < w.size ∧ (w.nUser u).ledger.movingUserNumTimer = true ∧
      ∃ b n, Checked w.building (w.nUser u) b n ∧ w' = w.setUser b u n := by
  simp only [step] at h
  split_ifs at h with htimer
  cases h
  exact ⟨htimer.1, htimer.2, _, _, checkMovingUserNum_spec _ _, rfl⟩

theorem size_setUser {b : Building} {n : MyUser C} (hnum : b.numUsers = w.building.numUsers)
    (hadd : b.addUsersNum = w.building.addUsersNum) : (w.setUser b u n).size = w.size := by
  simp [size, setUser, hnum, hadd]

/-- A step that changes one user keeps what holds of the others. -/
theorem forall_setUser {Q : ℕ → MyUser C → Prop} {b : Building} {n : MyUser C}
    (hnum : b.numUsers = w.building.numUsers) (hadd : b.addUsersNum = w.building.addUsersNum)
    (h : ∀ v < w.size, Q v (w.nUser v)) (hu : Q u n) :
    ∀ v < (w.setUser b u n).size, Q v ((w.setUser b u n).nUser v) := by
  intro v hv
  rw [size_setUser hnum hadd] at hv
  simp only [setUser, Function.update_apply]
  split_ifs with he
  · rw [he]
    exact hu
  · exact h v hv

theorem step_hear {news : MyUser C} (h : w.step cfg (.hear u news) = some w') :
    u < w.size ∧ w' = w.setUser w.building u ((w.nUser u).learn news) := by
  simp only [step] at h
  split_ifs at h with hu
  cases h
  exact ⟨hu, rfl⟩

end World

/-! ## Two users

`node/2` has room for one person, and `node/3` for five. -/

def sampleCapacity : StdMap String UInt32 := .ofList [(nodeID 2, 1), (nodeID 3, 5)]

def sampleExits : StdMap UInt32 (UInt32 × UInt32) := .ofList [(2, (1, 1)), (3, (5, 5))]

/-- A user at the crossing, about to set out. -/
def samplePerson (u : ℕ) : MyUser ℕ where
  nodeType := .evcUser
  userId := UInt32.ofNat u
  exited := false
  isWait := false
  id := UInt32.ofNat u
  ifaces := [UInt32.ofNat u]
  broadcastId := 0
  idCache := ⟨[], 1000000000⟩
  requestBuffer := []
  requestCollecting := false
  lastHelloSeen := .empty
  aoiExitinfo := .ofList [(nodeID 2, (1, 0)), (nodeID 3, (5, 0))]
  blockednodeid := .empty
  blockednodeidAndTime := .empty
  fullexitnodeid := .empty
  increaseRate := .empty
  hop := .empty
  whileQuickHello := false
  isDijkstra := true
  user := {
    graph := sampleRoads
    currentway := (sampleWay "way/1" [1, 2]).2
    wnlistBuf := []
    shortest := []
    passednode := []
    exitnode := ""
    targetNodeBuf := "first"
    exitDistanceMap := .empty
    exitnodeinfolist := sampleExits
    exitinfopair := (0, 0)
    speed := 1
    requiredTime := 0
    generationTime := 0
    hopTimers := .empty
    changeroute := 0
    changeexit := 0
    isMove := true
    isExit := false
    checkMoveFlag := false
    alreadycountflag := false
    humTimer := decide (u < 2)
    movingUserNumTimer := decide (u < 2) }

/-- Two users, and none in reserve. -/
def sampleEvacuation : World ℕ where
  map := sampleTown
  building := {
    numUsers := 2
    addUsersNum := 0
    addUsersPerInterval := 1
    addUserEndTime := 0
    nextAddUserIndex := 0
    activeUsers := World.initialActive 2
    userIdCompletedEvacuation := []
    exitNodes := sampleCapacity
    firstExitInfo := sampleCapacity
    movingUserNum := World.initialMoving sampleCapacity
    completeTime := [] }
  nUser := samplePerson

def sampleSettings : UserConfig := ⟨⟨false, false, 60, false, 0⟩, false⟩

theorem sampleEvacuation_started : sampleEvacuation.Started where
  bound := by decide
  nextAddUserIndex := rfl
  activeUsers := rfl
  completed := rfl
  completeTime := rfl
  firstExitInfo := rfl
  movingUserNum := rfl
  fresh u hu := by
    have hexits : World.initialExits sampleCapacity = some sampleExits := by decide
    exact ⟨rfl, hexits, rfl, rfl, rfl, rfl, rfl, rfl, rfl, rfl, rfl, rfl, rfl⟩

/-- What a computed run of the town shows is reached. -/
theorem sampleEvacuation_reachable {α : Type} {view : World ℕ → α} {a : α}
    {P : World ℕ → Event ℕ → Prop} [DecidableRel P] {es : List (Event ℕ)}
    (h : (System.exec (World.step sampleSettings) P sampleEvacuation es).map view = some a) :
    ∃ w, ((evacuation sampleSettings).restrict P).Reachable w ∧ view w = a :=
  System.reachable_of_exec (S := evacuation sampleSettings) (fun _ _ _ => id)
    sampleEvacuation_started h

end Ns3.Ferry2
