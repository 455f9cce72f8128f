import Ns3.Ferry2.IdCache

/-!
# The DTN node and its handlers

`RoutingProtocol` (`DTN-protocol.cc`) together with the part of `MyUser` that
its handlers read and write. A handler returns the new node and the datagrams
it schedules; `none` is an exception nobody catches, which ends the simulation.
Reads of uninitialised locals and fields take their value from an argument
(`junk`), so that a result holds whatever the memory contained.

What the handlers reach in the rest of the user (road graph, patrol route) is
the component `user : E`, used only through `UserOps`.
-/

namespace Ns3.Ferry2

open Ns3.Lib

/-! ## Time -/

/-- `Simulator::Now ().GetDouble () / 1000000000`, for a time in nanoseconds. -/
def nowSeconds (now : ℕ) : ℚ :=
  Format.binary64.rnd (Format.binary64.rnd now / 1000000000)

/-- The same, stored in a `float`. -/
def stampOf (now : ℕ) : Binary32 := .ofRat (nowSeconds now)

/-- `aoi < MyBuilding::GetEraseAoI ()` for the age of a stamp; on an infinity or a NaN the
difference decides without being computed. -/
def aoiBelow (now : ℕ) (stamp : Binary32) (limit : UInt32) : Bool :=
  match stamp.toRat with
  | some q => Format.binary64.rnd (nowSeconds now - q) < limit.toNat
  | none => !stamp.isNaN && decide (0 < stamp.key)

/-- A `double` assigned to a `uint32_t`: truncated, and taken modulo `2^32` where C++ leaves the
result undefined. -/
def toUInt32 (q : ℚ) : UInt32 :=
  UInt32.ofInt (if 0 ≤ q then ⌊q⌋ else ⌈q⌉)

/-! ## State -/

inductive NodeType
  | evcUser
  | addEvcUser
  | evcAP
  | ferryNode
  deriving DecidableEq, Repr

/-- The static members the handlers read. -/
structure Config where
  sendHopFlag : Bool
  eraseinfoflag : Bool
  eraseAoI : UInt32
  useQuickHello : Bool
  aoiThreshold : UInt32
  deriving Repr

structure BufferedRequest where
  requesterAddress : Ipv4Address
  requesterId : UInt32
  exitIds : List String
  blockIds : List String
  deriving DecidableEq, Repr

/-- What `MyUser` does in other files when a handler asks for it; `none` when it throws. -/
structure UserOps (E : Type) where
  /-- `JSON_Data::GetCoordinatefromID`, `nodes.at` and `UpdateGraphInfo`. -/
  updateGraphInfo : E → String → Option E
  /-- `ChangePatrolRoute (FROMRECV)`, on the stored blocked crossings. -/
  changePatrolRoute : E → StdMap String Binary32 → ℕ → Option E

structure DtnNode (E : Type) where
  nodeType : NodeType
  userId : UInt32
  /-- `m_status == EXIT`. -/
  exited : Bool
  isWait : Bool
  /-- `m_id`, the source of what the node sends to one receiver. -/
  id : Ipv4Address
  /-- The local addresses in `m_socketAddresses`. -/
  ifaces : List Ipv4Address
  broadcastId : UInt32
  idCache : IdCache
  requestBuffer : List BufferedRequest
  requestCollecting : Bool
  lastHelloSeen : StdMap UInt32 ℕ
  aoiExitinfo : StdMap String (UInt32 × UInt32)
  blockednodeid : StdSet String
  blockednodeidAndTime : StdMap String Binary32
  fullexitnodeid : StdSet String
  increaseRate : StdMap String ℚ
  hop : StdMap UInt32 HopInfo
  whileQuickHello : Bool
  isDijkstra : Bool
  user : E

/-- A datagram handed to a socket: who sends it, to whom (`none` is the broadcast address). -/
structure Datagram where
  source : Ipv4Address
  destination : Option Ipv4Address
  bytes : List UInt8
  deriving DecidableEq, Repr

variable {E : Type}

/-- What a handler leaves: the node, and the datagrams it schedules. -/
abbrev Outcome (E : Type) := DtnNode E × List Datagram

/-- `MyUser::UpdateGraphInfoReceivedPacket`: a ferry has no graph. -/
def updateGraphInfoReceivedPacket (ops : UserOps E) (n : DtnNode E) (id : String) :
    Option (DtnNode E) :=
  if n.nodeType = .ferryNode then some n
  else do
    let user ← ops.updateGraphInfo n.user id
    return { n with user := user, isDijkstra := true }

/-- `MyUser::UpdateHop`. -/
def updateHop (m : StdMap UInt32 HopInfo) (id : UInt32) (p : HopInfo) : StdMap UInt32 HopInfo :=
  match m.find id with
  | some _ => (m.erase id).insert id p
  | none => m.insert id p

/-- The branch of `MyUser::GetWayNextVector` at a blocked crossing: the time of the discovery
replaces whatever is stored for it. -/
def findBlocked (ops : UserOps E) (now : ℕ) (n : DtnNode E) (id : String) :
    Option (DtnNode E) :=
  if id = "" then some n
  else do
    let user ← ops.updateGraphInfo n.user id
    return { n with
      blockednodeid := n.blockednodeid.insert id ()
      blockednodeidAndTime := (n.blockednodeidAndTime.erase id).insert id (stampOf now)
      user := user }

/-! ## Hello -/

/-- The summary vector `SendHello` sends: the exit summary is cleared before it goes in. -/
def helloSummary (n : DtnNode E) : SummaryVector where
  userId := n.userId + 1
  dst := 0xffffffff
  broadcastId := n.broadcastId
  exitSummary := .empty
  blockSummary := n.blockednodeidAndTime

/-- `aoi <= MyBuilding::GetAoIthreshold ()` for the age of a shelter's count. -/
def exitIsFresh (cfg : Config) (now : ℕ) (time : UInt32) : Bool :=
  toUInt32 (Format.binary64.rnd (nowSeconds now - time.toNat)) ≤ cfg.aoiThreshold

/-- The same for a blocked crossing, whose age stays a `double`. -/
def blockIsFresh (cfg : Config) (now : ℕ) (stamp : Binary32) : Bool :=
  match stamp.toRat with
  | some q => Format.binary64.rnd (nowSeconds now - q) ≤ cfg.aoiThreshold.toNat
  | none => !stamp.isNaN && decide (0 < stamp.key)

/-- `RoutingProtocol::CheckAoI`: quick hellos pause while the node holds something fresh. -/
def checkAoI (cfg : Config) (now : ℕ) (n : DtnNode E) : DtnNode E :=
  { n with whileQuickHello :=
      n.aoiExitinfo.entries.any (fun a => exitIsFresh cfg now a.2.2) ||
        n.blockednodeidAndTime.entries.any fun a => blockIsFresh cfg now a.2 }

def sendHello (cfg : Config) (now : ℕ) (n : DtnNode E) : Option (Outcome E) :=
  let n := { n with broadcastId := n.broadcastId + 1 }
  if n.exited then some (n, [])
  else do
    let packet ← helloPacket cfg.sendHopFlag (helloSummary n) ⟨n.hop⟩
    -- a node refuses its own broadcasts from now on
    let cache := n.ifaces.foldl (fun c a => (c.isDuplicate now a n.broadcastId).2) n.idCache
    return (checkAoI cfg now { n with idCache := cache },
      n.ifaces.map fun a => ⟨a, none, packet⟩)

/-- `RoutingProtocol::SendRequest`; the route it looks up is the one it has just set. -/
def sendRequest (n : DtnNode E) (destination : Ipv4Address) (exitIds blockIds : List String) :
    Option (Outcome E) := do
  let packet ← requestPacket ⟨n.userId + 1, exitIds, blockIds⟩
  return (n, [⟨n.id, some destination, packet⟩])

/-- The crossings a hello has newer news of: those not stored, or stored with an earlier time. -/
def requestBlockIds (mine recv : StdMap String Binary32) : List String :=
  (recv.entries.filter fun e =>
    match mine.find e.1 with
    | none => true
    | some myTime => decide (myTime < e.2)).map Prod.fst

/-- A request is only sent when there is something to ask for. -/
def requestNews (n : DtnNode E) (sender : Ipv4Address) (blockIds : List String) :
    Option (Outcome E) :=
  if blockIds = [] then some (n, []) else sendRequest n sender [] blockIds

/-- A ferry reconsiders its patrol route on every hello. -/
def reconsiderRoute (ops : UserOps E) (now : ℕ) (n : DtnNode E) : Option (DtnNode E) :=
  if n.nodeType = .ferryNode then do
    let user ← ops.changePatrolRoute n.user n.blockednodeidAndTime now
    return { n with user := user }
  else some n

def recvHello (cfg : Config) (ops : UserOps E) (now : ℕ) (junk : SummaryVector) (n : DtnNode E)
    (p : List UInt8) (sender : Ipv4Address) : Option (Outcome E) := do
  let ((summary, _), _) ← removeHello cfg.sendHopFlag junk p
  let dup := n.idCache.isDuplicate now sender summary.broadcastId
  let n := { n with idCache := dup.2 }
  if dup.1 then return (n, [])
  let (n, out) ← requestNews n sender
    (requestBlockIds n.blockednodeidAndTime summary.blockSummary)
  let n ← reconsiderRoute ops now n
  return ({ n with lastHelloSeen := n.lastHelloSeen.assign summary.userId now }, out)

/-! ## Request -/

/-- `RecvRequest`: the request waits in the buffer; the first one starts the collecting window,
at whose end `ProcessRequestBuffer` runs. -/
def recvRequest (junk : RequestData) (n : DtnNode E) (p : List UInt8) (sender : Ipv4Address) :
    Option (Outcome E) := do
  let (request, _) ← removeRequest junk p
  return ({ n with
    requestBuffer := n.requestBuffer ++
      [⟨sender, request.requesterId, request.exitIds, request.blockIds⟩]
    requestCollecting := true }, [])

/-- The entries of `m` for the ids asked for. -/
def selectEntries {β : Type} (m : StdMap String β) (ids : List String) : StdMap String β :=
  ids.foldl (fun s id =>
    match m.find id with
    | some v => s.insert id v
    | none => s) .empty

/-- `MakeSendDataFromRequest`; the broadcast id and the patrol fields are those of a new object. -/
def makeSendDataFromRequest (junk : UInt32) (n : DtnNode E) (dst : Ipv4Address)
    (exitIds blockIds : List String) : UserData where
  userId := n.userId + 1
  dst := dst
  broadcastId := junk
  blockedSet := selectEntries (.ofList (n.blockednodeidAndTime.keys.map (·, ()))) blockIds
  fullexitSet := .empty
  aoiExitinfo := selectEntries n.aoiExitinfo exitIds
  aoiBlockinfo := selectEntries n.blockednodeidAndTime blockIds
  myPatrolEreaAndStartTime := ("", 0)
  otherUAVPatrolEreaAndId := .empty
  patrolEreaidAndTime := .empty

def sendUserDataAsUnicast (cfg : Config) (n : DtnNode E) (data : UserData) (hop : Hop)
    (destination : Ipv4Address) : Option (Outcome E) := do
  let packet ← userDataPacket cfg.sendHopFlag data hop
  return (n, [⟨n.id, some destination, packet⟩])

/-- `ProcessRequestBuffer`: the first request of the window is answered, the others dropped. -/
def processRequestBuffer (cfg : Config) (junk : UInt32) (n : DtnNode E) : Option (Outcome E) :=
  match n.requestBuffer with
  | [] => some ({ n with requestCollecting := false }, [])
  | selected :: _ => do
    let data := makeSendDataFromRequest junk n selected.requesterAddress selected.exitIds
      selected.blockIds
    let (n, out) ← sendUserDataAsUnicast cfg n data ⟨.empty⟩ selected.requesterAddress
    return ({ n with requestBuffer := [], requestCollecting := false }, out)

/-! ## User data -/

/-- `double (old - new) / double (newTime - oldTime)`, the differences in `uint32_t`. -/
def increaseRateOf (old new : UInt32 × UInt32) : ℚ :=
  Format.binary64.rnd ((old.1 - new.1).toNat / (new.2 - old.2).toNat)

/-- The locals of `RecvUserDataAsUnicast` its loops update: the node, the snapshots taken before
them, and `newdataflag`. -/
structure RecvState (E : Type) where
  node : DtnNode E
  oldAoIexitinfo : StdMap String (UInt32 × UInt32)
  oldAoIblockedinfo : StdMap String Binary32
  newdataflag : Bool

/-- The body of the loop over the received shelter counts; `at` throws on an unknown shelter. -/
def recvExitInfo (st : RecvState E) (e : String × (UInt32 × UInt32)) : Option (RecvState E) := do
  let old ← st.oldAoIexitinfo.find e.1
  if old.2 < e.2.2 then
    let info := (st.oldAoIexitinfo.erase e.1).insert e.1 e.2
    return { st with
      oldAoIexitinfo := info
      newdataflag := true
      node := { st.node with
        increaseRate := st.node.increaseRate.insert e.1 (increaseRateOf old e.2)
        aoiExitinfo := info } }
  else return st

/-- The block that stores a received time: through the snapshot into the user, then the graph. -/
def storeBlocked (ops : UserOps E) (st : RecvState E) (id : String) (recv : Binary32) :
    Option (RecvState E) := do
  let info := (st.oldAoIblockedinfo.erase id).insert id recv
  let node ← updateGraphInfoReceivedPacket ops { st.node with blockednodeidAndTime := info } id
  return { st with node := node, oldAoIblockedinfo := info, newdataflag := true }

/-- The guard around it: with `eraseinfoflag` on, only times younger than the limit are stored. -/
def acceptBlocked (cfg : Config) (ops : UserOps E) (now : ℕ) (st : RecvState E) (id : String)
    (recv : Binary32) : Option (RecvState E) :=
  if cfg.eraseinfoflag && !aoiBelow now recv cfg.eraseAoI then some st
  else storeBlocked ops st id recv

/-- The body of the loop over the received crossings. On an unknown id the `catch` block stores
the time, and the comparison after it then reads `old_data_aoi` uninitialised. -/
def recvBlockedInfo (cfg : Config) (ops : UserOps E) (now : ℕ) (junk : String → Binary32)
    (st : RecvState E) (e : String × Binary32) : Option (RecvState E) := do
  let (st, old) ← match st.oldAoIblockedinfo.find e.1 with
    | some old => some (st, old)
    | none => do
      let st ← acceptBlocked cfg ops now st e.1 e.2
      some (st, junk e.1)
  if old < e.2 then acceptBlocked cfg ops now st e.1 e.2 else some st

/-- The body of the loop over the received hop data. -/
def recvHopInfo (have_ : StdMap UInt32 HopInfo) (m : StdMap UInt32 HopInfo)
    (e : UInt32 × HopInfo) : StdMap UInt32 HopInfo :=
  match have_.find e.1 with
  | some comp => if e.2.2 ≤ comp.2 then m else updateHop m e.1 e.2
  | none => m.insert e.1 e.2

/-- What an object under construction happens to hold. -/
structure RecvJunk where
  data : UserData
  oldDataAoi : String → Binary32

def recvUserDataAsUnicast (cfg : Config) (ops : UserOps E) (now : ℕ) (junk : RecvJunk)
    (n : DtnNode E) (p : List UInt8) : Option (Outcome E) := do
  let ((data, hop), _) ← removeUserData cfg.sendHopFlag junk.data p
  let oldExit := n.aoiExitinfo
  let oldBlocked := n.blockednodeidAndTime
  let haveHop := n.hop
  let n := { n with
    fullexitnodeid := data.fullexitSet.keys.foldl (fun s a => s.insert a ()) n.fullexitnodeid
    blockednodeid := data.blockedSet.keys.foldl (fun s a => s.insert a ()) n.blockednodeid }
  let st ← data.aoiExitinfo.entries.foldlM recvExitInfo ⟨n, oldExit, oldBlocked, false⟩
  let st ← data.aoiBlockinfo.entries.foldlM (recvBlockedInfo cfg ops now junk.oldDataAoi) st
  let n := st.node
  let n := { n with hop := hop.hop.entries.foldl (recvHopInfo haveHop) n.hop }
  if cfg.useQuickHello ∧ st.newdataflag ∧ n.whileQuickHello = false ∧ n.nodeType ≠ .ferryNode then
    sendHello cfg now n
  else return (n, [])

/-! ## Shelter broadcasts -/

/-- `SendShelterInfoAsBroadcast`. -/
def sendShelterInfoAsBroadcast (now : ℕ) (n : DtnNode E) (data : ShelterInfo) :
    Option (Outcome E) := do
  let n := { n with broadcastId := n.broadcastId + 1 }
  let data := { data with id := n.id, broadcastId := n.broadcastId }
  let packet ← shelterPacket data
  let cache := n.ifaces.foldl (fun c a => (c.isDuplicate now a n.broadcastId).2) n.idCache
  return ({ n with idCache := cache }, n.ifaces.map fun a => ⟨a, none, packet⟩)

/-- The object `RecvShelterDataAsBroadcast` reads into: the constructor sets the counts and the
default address, and leaves the broadcast id to whatever is in memory. -/
def freshShelterInfo (junk : UInt32) : ShelterInfo where
  id := uninitializedAddress
  broadcastId := junk
  exitNum := 0
  shelterID := 0
  time := 0

/-- The first half of `RecvShelterDataAsBroadcast`: read the header and look its key up. -/
def checkShelterData (now : ℕ) (junk : UInt32) (n : DtnNode E) (p : List UInt8) :
    Option (Bool × ShelterInfo × DtnNode E) := do
  let (data, _) ← shelterInfo.removeHeader (freshShelterInfo junk) p
  let dup := n.idCache.isDuplicate now data.id data.broadcastId
  return (dup.1, data, { n with idCache := dup.2 })

/-- The second half: `at` throws on a shelter the user does not know. -/
def updateShelterData (cfg : Config) (now : ℕ) (n : DtnNode E) (data : ShelterInfo) :
    Option (Outcome E) := do
  let id := nodeID data.shelterID.toNat
  let old ← n.aoiExitinfo.find id
  if old.2 < data.time then
    let new := (data.exitNum, data.time)
    let n := { n with
      aoiExitinfo := (n.aoiExitinfo.erase id).insert id new
      increaseRate := n.increaseRate.insert id (increaseRateOf old new) }
    if cfg.useQuickHello ∧ n.whileQuickHello = false ∧ n.nodeType ≠ .ferryNode then
      sendHello cfg now n
    else return (n, [])
  else return (n, [])

def recvShelterDataAsBroadcast (cfg : Config) (now : ℕ) (junk : UInt32) (n : DtnNode E)
    (p : List UInt8) : Option (Outcome E) := do
  let (dup, data, n) ← checkShelterData now junk n p
  if dup then return (n, []) else updateShelterData cfg now n data

/-! ## Dispatch -/

/-- What the receive handlers find in the objects they construct. -/
structure Junk where
  summary : SummaryVector
  request : RequestData
  recv : RecvJunk
  shelterBroadcastId : UInt32

/-- `RecvProto`: a waiting or evacuated user takes no broadcast, but answers to the rest. -/
def recvProto (cfg : Config) (ops : UserOps E) (now : ℕ) (junk : Junk) (n : DtnNode E)
    (d : Datagram) : Option (Outcome E) := do
  let (tHeader, p) ← removeType d.bytes
  if ¬ tHeader.valid then return (n, [])
  match tHeader.type with
  | .userData => recvUserDataAsUnicast cfg ops now junk.recv n p
  | .hello =>
    if n.isWait || n.exited then return (n, [])
    else recvHello cfg ops now junk.summary n p d.source
  | .shelterData =>
    if n.isWait || n.exited then return (n, [])
    else recvShelterDataAsBroadcast cfg now junk.shelterBroadcastId n p
  | .request => recvRequest junk.request n p d.source
  | .metaData => return (n, [])

end Ns3.Ferry2
