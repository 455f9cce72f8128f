import Ns3.Ferry.Patrol

/-!
# Hello messages of `ferry/`

In `ferry/` a hello carries everything its sender knows, and the receiver
answers it directly: `RecvHello` merges the patrol tables, reconsiders the
patrol route and hands the rest to `CheckHelloData`, which merges shelters,
blocked crossings and hop data and returns what the sender lacks
(`DTN-protocol.cc`). The headers are those of `ferry2/`, whose codec is the
same; here a message is the headers it carries.
-/

namespace Ns3.Ferry

open Ns3.Lib Ns3.Ferry2

/-! ## State -/

structure Node (E : Type) where
  nodeType : NodeType
  userId : UInt32
  /-- `m_status == EXIT`. -/
  exited : Bool
  ifaces : List Ipv4Address
  broadcastId : UInt32
  idCache : IdCache
  blockednodeid : StdSet String
  fullexitnodeid : StdSet String
  hop : StdMap UInt32 HopInfo
  whileQuickHello : Bool
  isDijkstra : Bool
  ferry : FerryUser
  user : E

inductive Message
  | hello (source : Ipv4Address) (data : UserData) (hop : Hop)
  | userData (destination : Ipv4Address) (data : UserData) (hop : Hop)

abbrev Outcome (E : Type) := Node E × List Message

variable {E C D : Type} [DecidableEq C]

/-- `MyUser::UpdateGraphInfo` for the crossing of an id; `none` when one of the lookups throws. -/
abbrev UpdateGraph (E : Type) := E → String → Option E

/-- `MyUser::UpdateGraphInfoReceivedPacket`: a ferry has no graph. -/
def updateGraphInfoReceivedPacket (graph : UpdateGraph E) (n : Node E) (id : String) :
    Option (Node E) :=
  if n.nodeType = .ferryNode then some n
  else do
    let user ← graph n.user id
    return { n with user := user, isDijkstra := true }

def Node.setBlocked (n : Node E) (m : StdMap String Binary32) : Node E :=
  { n with ferry := { n.ferry with blockednodeidAndTime := m } }

/-! ## Sending -/

/-- The header `SendHello` fills. -/
def helloData (n : Node E) : UserData where
  userId := n.userId + 1
  dst := 0xffffffff
  broadcastId := n.broadcastId
  blockedSet := n.blockednodeid.erase ""
  fullexitSet := n.fullexitnodeid.erase ""
  aoiExitinfo := n.ferry.aoiExitinfo
  aoiBlockinfo := n.ferry.blockednodeidAndTime
  myPatrolEreaAndStartTime := n.ferry.myPatrolEreaAndStartTime
  otherUAVPatrolEreaAndId := n.ferry.otherUAVPatrolEreaAndId
  patrolEreaidAndTime := n.ferry.patrolEreaidAndTime

/-- `RoutingProtocol::CheckAoI`. -/
def checkAoI (cfg : Config) (now : ℕ) (n : Node E) : Node E :=
  { n with whileQuickHello :=
      n.ferry.aoiExitinfo.entries.any (fun a => exitIsFresh cfg now a.2.2) ||
        n.ferry.blockednodeidAndTime.entries.any fun a => blockIsFresh cfg now a.2 }

def sendHello (cfg : Config) (now : ℕ) (n : Node E) : Outcome E :=
  let n := { n with broadcastId := n.broadcastId + 1 }
  if n.exited then (n, [])
  else
    let cache := n.ifaces.foldl (fun c a => (c.isDuplicate now a n.broadcastId).2) n.idCache
    (checkAoI cfg now { n with idCache := cache },
      n.ifaces.map fun a => .hello a (helloData n) ⟨n.hop⟩)

/-! ## `CheckHelloData` -/

/-- Its locals: the node, the snapshots taken before the loops, the reply and the two flags. -/
structure CheckState (E : Type) where
  node : Node E
  aoiData : StdMap String (UInt32 × UInt32)
  aoiBlockedData : StdMap String Binary32
  replyExit : StdMap String (UInt32 × UInt32)
  replyBlocked : StdMap String Binary32
  replyHop : StdMap UInt32 HopInfo
  newdataflag : Bool
  sendflag : Bool

def insertHops (m : StdMap UInt32 HopInfo) (hop : Hop) : StdMap UInt32 HopInfo :=
  hop.hop.entries.foldl (fun m a => m.insert a.1 a.2) m

/-- One shelter of the hello: the older side learns from the newer one. -/
def checkExit (hop : Hop) (st : CheckState E) (e : String × (UInt32 × UInt32)) :
    Option (CheckState E) := do
  let old ← st.aoiData.find e.1
  if e.2.2 < old.2 then
    return { st with
      replyExit := st.replyExit.insert e.1 old
      node := { st.node with hop := insertHops st.node.hop hop }
      sendflag := true }
  else if old.2 = e.2.2 then
    return { st with node := { st.node with hop := insertHops st.node.hop hop } }
  else
    let info := (st.aoiData.erase e.1).insert e.1 e.2
    return { st with
      aoiData := info
      newdataflag := true
      node := { st.node with ferry := { st.node.ferry with
        aoiExitinfo := info
        increaseRate := st.node.ferry.increaseRate.insert e.1 (increaseRateOf old e.2) } } }

/-- Entries past the age limit are neither taken nor sent, when the option is on. -/
def accepts (cfg : Config) (now : ℕ) (stamp : Binary32) : Bool :=
  !cfg.eraseinfoflag || aoiBelow now stamp cfg.eraseAoI

/-- One crossing of the node's own, which the hello may lack. -/
def checkMissing (cfg : Config) (now : ℕ) (recv : StdMap String Binary32) (st : CheckState E)
    (e : String × Binary32) : CheckState E :=
  if recv.contains e.1 then st
  else if accepts cfg now e.2 then
    { st with
      replyBlocked := (st.replyBlocked.erase e.1).insert e.1 e.2
      sendflag := true }
  else st

/-- An unknown crossing goes into the user, and not into the snapshot. -/
def learnBlocked (graph : UpdateGraph E) (st : CheckState E) (e : String × Binary32) :
    Option (CheckState E) := do
  let m := st.node.ferry.blockednodeidAndTime
  let node ← updateGraphInfoReceivedPacket graph
    (st.node.setBlocked ((m.erase e.1).insert e.1 e.2)) e.1
  return { st with node := node, newdataflag := true }

/-- A newer time goes into the snapshot, and the whole snapshot into the user. -/
def writeBack (graph : UpdateGraph E) (st : CheckState E) (e : String × Binary32) :
    Option (CheckState E) := do
  let m := (st.aoiBlockedData.erase e.1).insert e.1 e.2
  let node ← updateGraphInfoReceivedPacket graph (st.node.setBlocked m) e.1
  return { st with node := node, aoiBlockedData := m }

/-- A received time is only stored when it is accepted. -/
def whenAccepted (cfg : Config) (now : ℕ)
    (store : CheckState E → String × Binary32 → Option (CheckState E)) (st : CheckState E)
    (e : String × Binary32) : Option (CheckState E) :=
  if accepts cfg now e.2 then store st e else some st

/-- The comparison with `old_data_aoi`. -/
def compareBlocked (cfg : Config) (graph : UpdateGraph E) (now : ℕ) (st : CheckState E)
    (e : String × Binary32) (old : Binary32) : Option (CheckState E) :=
  if e.2 < old then
    some { st with
      replyBlocked := (st.replyBlocked.erase e.1).insert e.1 old
      sendflag := true }
  else if old < e.2 then do
    let st ← whenAccepted cfg now (writeBack graph) st e
    return { st with newdataflag := true }
  else some st

/-- One crossing of the hello. After an unknown one `old_data_aoi` is not initialised, and the
comparison runs all the same: `oldDataAoi` is what it holds. -/
def checkBlocked (cfg : Config) (graph : UpdateGraph E) (now : ℕ) (oldDataAoi : String → Binary32)
    (st : CheckState E) (e : String × Binary32) : Option (CheckState E) :=
  match st.aoiBlockedData.find e.1 with
  | some old => compareBlocked cfg graph now st e old
  | none => do
    let st ← whenAccepted cfg now (learnBlocked graph) st e
    compareBlocked cfg graph now st e (oldDataAoi e.1)

/-- One entry of the received hop data, against the hop data held at the start. -/
def checkHop (mine : StdMap UInt32 HopInfo) (st : CheckState E) (e : UInt32 × HopInfo) :
    CheckState E :=
  match mine.find e.1 with
  | some held =>
    if held.2 < e.2.2 then
      { st with
        node := { st.node with hop := updateHop st.node.hop e.1 e.2 }
        newdataflag := true }
    else if e.2.2 = held.2 then st
    else { st with replyHop := st.replyHop.insert e.1 held, sendflag := true }
  | none =>
    { st with
      node := { st.node with hop := st.node.hop.insert e.1 e.2 }
      newdataflag := true }

def checkMissingHop (recv : StdMap UInt32 HopInfo) (st : CheckState E) (e : UInt32 × HopInfo) :
    CheckState E :=
  if recv.contains e.1 then st
  else { st with replyHop := st.replyHop.insert e.1 e.2, sendflag := true }

/-- `MyUser::SetEraseHopTimer`: an arrival due now is dropped at once. -/
def eraseArrived (m : StdMap UInt32 HopInfo) : StdMap UInt32 HopInfo :=
  m.entries.foldl (fun m e => if e.2.1.2 = 0 then m.erase e.1 else m) m

def checkHops (cfg : Config) (mine : StdMap UInt32 HopInfo) (hop : Hop) (st : CheckState E) :
    CheckState E :=
  if cfg.sendHopFlag then
    let st := hop.hop.entries.foldl (checkHop mine) st
    let st := mine.entries.foldl (checkMissingHop hop.hop) st
    { st with node := { st.node with hop := eraseArrived st.node.hop } }
  else st

/-- What `CheckHelloData` finds in its uninitialised local, for each crossing, and in the
broadcast id that its reply leaves unset. -/
structure CheckJunk where
  oldDataAoi : String → Binary32
  broadcastId : UInt32

/-- What the sender of the hello lacks, if anything. -/
def replyOf (junk : CheckJunk) (st : CheckState E) (userId : UInt32) (sender : Ipv4Address) :
    List Message :=
  if st.sendflag then
    [.userData sender ⟨userId, sender, junk.broadcastId, .empty, .empty, st.replyExit,
      st.replyBlocked, ("", 0), .empty, .empty⟩ ⟨st.replyHop⟩]
  else []

def checkStart (n : Node E) : CheckState E where
  node := n
  aoiData := n.ferry.aoiExitinfo
  aoiBlockedData := n.ferry.blockednodeidAndTime
  replyExit := .empty
  replyBlocked := .empty
  replyHop := .empty
  newdataflag := false
  sendflag := false

def checkHelloData (cfg : Config) (graph : UpdateGraph E) (now : ℕ) (junk : CheckJunk)
    (n : Node E) (data : UserData) (hop : Hop) (sender : Ipv4Address) : Option (Outcome E) := do
  let st ← data.aoiExitinfo.entries.foldlM (checkExit hop) (checkStart n)
  let st := st.aoiBlockedData.entries.foldl (checkMissing cfg now data.aoiBlockinfo) st
  let st ← data.aoiBlockinfo.entries.foldlM (checkBlocked cfg graph now junk.oldDataAoi) st
  let st := checkHops cfg n.hop hop st
  let reply := replyOf junk st n.userId sender
  if st.node.nodeType ≠ .ferryNode ∧ cfg.useQuickHello ∧ st.newdataflag ∧
      st.node.whileQuickHello = false then
    let (node, out) := sendHello cfg now { st.node with whileQuickHello := true }
    return (node, out ++ reply)
  else return (st.node, reply)

/-! ## `RecvHello` -/

/-- One step of `merge_min`: the earlier time stays. -/
def recordMin (m : StdMap String UInt32) (k : String) (v : UInt32) : StdMap String UInt32 :=
  match m.find k with
  | none => m.insert k v
  | some old => if v < old then m.assign k v else m

def mergeMin (a b : StdMap String UInt32) : StdMap String UInt32 :=
  b.entries.foldl (fun m e => recordMin m e.1 e.2) a

/-- The patrol tables, with what the hello says about them and about its sender. -/
def mergePatrol (u : FerryUser) (hello : UserData) : FerryUser :=
  let other := hello.otherUAVPatrolEreaAndId.entries.foldl (fun m a => m.insert a.1 a.2)
    u.otherUAVPatrolEreaAndId
  let times := mergeMin u.patrolEreaidAndTime hello.patrolEreaidAndTime
  if hello.myPatrolEreaAndStartTime.1 ≠ "" then
    { u with
      otherUAVPatrolEreaAndId := other.assign hello.myPatrolEreaAndStartTime.1 hello.userId
      patrolEreaidAndTime :=
        recordMin times hello.myPatrolEreaAndStartTime.1 hello.myPatrolEreaAndStartTime.2 }
  else { u with otherUAVPatrolEreaAndId := other, patrolEreaidAndTime := times }

/-- `ChangePatrolRoute (FROMRECV)`, which only a ferry runs. -/
def reconsiderRoute (map : RoadMap C D) (exitNodes : StdMap String UInt32) (now : ℕ) (n : Node E) :
    Option (Node E) :=
  if n.nodeType = .ferryNode then do
    let (u, _) ← n.ferry.changePatrolRoute map exitNodes now .recv
    return { n with ferry := u }
  else some n

/-- What `RecvHello` runs in besides the node. -/
structure World (E C D : Type) where
  cfg : Config
  graph : UpdateGraph E
  map : RoadMap C D
  exitNodes : StdMap String UInt32
  now : ℕ
  junk : CheckJunk

def recvHello (w : World E C D) (n : Node E) (hello : UserData) (hop : Hop)
    (sender : Ipv4Address) : Option (Outcome E) := do
  let dup := n.idCache.isDuplicate w.now sender hello.broadcastId
  let n := { n with idCache := dup.2 }
  if dup.1 then return (n, [])
  else
    let n ← reconsiderRoute w.map w.exitNodes w.now { n with ferry := mergePatrol n.ferry hello }
    checkHelloData w.cfg w.graph w.now w.junk n hello hop sender

end Ns3.Ferry
