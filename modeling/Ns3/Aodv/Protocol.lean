import Ns3.Aodv.RequestQueue
import Ns3.Aodv.Table
import Ns3.Ferry2.IdCache

/-!
# The AODV routing protocol

`aodv-routing-protocol.cc` and `aodv-neighbor.cc`: the state of one node and
the handlers of its packets, messages and timers. A handler is a computation on
the node's state that fails where the program aborts or has no socket to send
from. `aodv-id-cache.cc` is the cache of `Ns3.Ferry2.IdCache`. The frames a
handler sends are collected in `outbox`, and `deferred` holds the destinations
of the `SendRequest` calls that have been put off. Times are nanoseconds.
-/

namespace Ns3.Aodv

open Ns3.Lib
open Ns3.Ferry2 (IdCache)
open RoutingTableEntry (blank ofRoute)

/-! ## State -/

/-- The attributes, with their defaults. -/
structure Config where
  rreqRetries : UInt32 := 2
  ttlStart : UInt16 := 1
  ttlIncrement : UInt16 := 2
  ttlThreshold : UInt16 := 7
  timeoutBuffer : UInt16 := 2
  rreqRateLimit : UInt16 := 10
  rerrRateLimit : UInt16 := 10
  activeRouteTimeout : ℤ := 3000000000
  netDiameter : UInt32 := 35
  nodeTraversalTime : ℤ := 40000000
  netTraversalTime : ℤ := 2800000000
  pathDiscoveryTime : ℤ := 5600000000
  myRouteTimeout : ℤ := 11200000000
  helloInterval : ℤ := 1000000000
  allowedHelloLoss : UInt32 := 2
  destinationOnly : Bool := false
  gratuitousReply : Bool := true
  enableHello : Bool := true
  deriving DecidableEq

/-- An interface the protocol runs on. -/
structure Iface where
  index : ℤ
  addr : Ipv4Address
  broadcast : Ipv4Address
  deriving DecidableEq, Repr

structure Neighbor where
  addr : Ipv4Address
  expireTime : ℤ
  close : Bool
  deriving DecidableEq, Repr

/-- A timer of `m_addressReqTimer`: whether it is running, and the delay it was last scheduled
with; `backoff` is the shift of that delay, if it has one. -/
structure RetryTimer where
  running : Bool
  delay : ℤ
  backoff : Option UInt16
  deriving DecidableEq, Repr

structure Node where
  /-- The interfaces of `m_socketAddresses`. -/
  ifaces : List Iface
  routingTable : RoutingTable
  queue : RequestQueue ℕ
  requestId : UInt32
  seqNo : UInt32
  rreqIdCache : IdCache
  nb : List Neighbor
  rreqCount : UInt16
  rerrCount : UInt16
  addressReqTimer : StdMap Ipv4Address RetryTimer
  deferred : List Ipv4Address
  outbox : List Frame
  /-- The queued packets handed to their forward callbacks and to their error callbacks. -/
  forwarded : List (QueueEntry ℕ)
  reported : List (QueueEntry ℕ)
  deriving DecidableEq

abbrev Handler (α : Type) := StateT Node Option α

/-- `Simulator::Now ()` and the attributes. -/
structure Env where
  cfg : Config
  now : ℕ

/-- `IsMyOwnAddress`. -/
def Node.owns (n : Node) (a : Ipv4Address) : Prop := ∃ i ∈ n.ifaces, i.addr = a

instance (n : Node) (a : Ipv4Address) : Decidable (n.owns a) :=
  inferInstanceAs (Decidable (∃ i ∈ n.ifaces, _))

/-! ## Sending -/

/-- Through `FindSocketWithInterfaceAddress`, whose result is asserted to exist. Without a
receiver it is the subnet directed broadcast. -/
def sendTo (iface : Option Ipv4Address) (receiver : Option Ipv4Address) (ttl : UInt8)
    (m : Message) : Handler Unit := do
  let n ← get
  match iface with
  | none => failure
  | some a =>
    if n.owns a then modify fun n => { n with outbox := n.outbox ++ [⟨a, receiver, ttl, m⟩] }
    else failure

/-- A subnet directed broadcast from each interface; the message may name the interface. -/
def sendBroadcast (ttl : UInt8) (m : Iface → Message) : Handler Unit :=
  modify fun n => { n with
    outbox := n.outbox ++ n.ifaces.map fun i => ⟨i.addr, none, ttl, m i⟩ }

/-! ## Table and queue -/

section
variable (v : Env)

def lookupRoute (id : Ipv4Address) : Handler (Option RoutingTableEntry) := do
  let n ← get
  let r := n.routingTable.lookupRoute v.now id
  modify fun n => { n with routingTable := r.2 }
  return r.1

def addRoute (rt : RoutingTableEntry) : Handler Unit :=
  modify fun n => { n with routingTable := n.routingTable.addRoute v.now rt }

def update (rt : RoutingTableEntry) : Handler Unit :=
  modify fun n => { n with routingTable := n.routingTable.update rt }

/-- `Update` when a lookup has found an entry, else `AddRoute`. -/
def putRoute (old : Option RoutingTableEntry) (rt : RoutingTableEntry) : Handler Unit :=
  if old.isSome then update rt else addRoute v rt

def deleteRoute (dst : Ipv4Address) : Handler Unit :=
  modify fun n => { n with routingTable := n.routingTable.deleteRoute v.now dst }

def dropPacketWithDst (dst : Ipv4Address) : Handler Unit :=
  modify fun n => { n with
    queue := (n.queue.dropPacketWithDst v.now dst).1
    reported := n.reported ++ (n.queue.dropPacketWithDst v.now dst).2 }

/-- The route of an entry: `GetInterfaceForDevice` of no device is -1. -/
def routeOf (n : Node) (rt : RoutingTableEntry) : Route where
  source := rt.source
  interface := ((n.ifaces.find? fun i => some i.addr = rt.iface).map (·.index)).getD (-1)

def sendPacketFromQueue (dst : Ipv4Address) (rt : RoutingTableEntry) : Handler Unit :=
  modify fun n =>
    let served := n.queue.sendPacketFromQueue v.now dst (routeOf n rt)
    { n with
      queue := served.queue
      forwarded := n.forwarded ++ served.forwarded
      reported := n.reported ++ served.dropped }

/-! ## Route errors -/

/-- The loop over unreachable destinations that adds their precursors, each once. -/
def precursorsOf (dsts : List Ipv4Address) (prec : List Ipv4Address) :
    Handler (List Ipv4Address) :=
  dsts.foldlM (fun prec dst => do
    let rt ← lookupRoute v dst
    return (rt.getD (blank v.now)).getPrecursors prec) prec

/-- The interfaces through which the precursors with a valid route are reached, each once. -/
def ifacesOf (precursors : List Ipv4Address) : Handler (List (Option Ipv4Address)) :=
  precursors.foldlM (fun ifaces p => do
    match ← lookupRoute v p with
    | none => return ifaces
    | some rt =>
      return if rt.flag = .valid ∧ rt.iface ∉ ifaces then ifaces ++ [rt.iface] else ifaces) []

def sendRerrMessage (rerr : RerrHeader) (precursors : List Ipv4Address) : Handler Unit := do
  let n ← get
  if precursors = [] ∨ n.rerrCount = v.cfg.rerrRateLimit then pure ()
  else match precursors with
    | [p] =>
      match ← lookupRoute v p with
      | none => pure ()
      | some toPrecursor =>
        if toPrecursor.flag = .valid then
          sendTo toPrecursor.iface p 1 (.rerr rerr)
          modify fun n => { n with rerrCount := n.rerrCount + 1 }
        else pure ()
    | _ =>
      let ifaces ← ifacesOf v precursors
      ifaces.forM fun i => sendTo i none 1 (.rerr rerr)

def getListOfDestinationWithNextHop (nextHop : Ipv4Address) : Handler RerrHeader := do
  let n ← get
  let r := n.routingTable.getListOfDestinationWithNextHop v.now nextHop
  modify fun n => { n with routingTable := r.2 }
  return r.1

def invalidateRoutesWithDst (unreachable : RerrHeader) : Handler Unit :=
  modify fun n => { n with
    routingTable := n.routingTable.invalidateRoutesWithDst v.now unreachable }

/-- The header of a broken link. No destination is ever refused, so that the loop over them never
sends what it has to start another header. -/
def linkBreakHeader (nextHop : Ipv4Address) (seqNo : UInt32) (unreachable : RerrHeader) :
    RerrHeader :=
  unreachable.entries.foldl (fun h e => addUnDestination h e.1 e.2)
    (addUnDestination StdMap.empty nextHop seqNo)

def sendRerrWhenBreaksLinkToNextHop (nextHop : Ipv4Address) : Handler Unit := do
  match ← lookupRoute v nextHop with
  | none => pure ()
  | some toNextHop =>
    let unreachable ← getListOfDestinationWithNextHop v nextHop
    let rerr := linkBreakHeader nextHop toNextHop.seqNo unreachable
    let precursors ← precursorsOf v unreachable.keys (toNextHop.getPrecursors [])
    (if destCount rerr = 0 then pure () else sendRerrMessage v rerr precursors)
    invalidateRoutesWithDst v (unreachable.insert nextHop toNextHop.seqNo)

def sendRerrWhenNoRouteToForward (dst : Ipv4Address) (dstSeqNo : UInt32) (origin : Ipv4Address) :
    Handler Unit := do
  let n ← get
  if n.rerrCount = v.cfg.rerrRateLimit then pure ()
  else
    let rerr := addUnDestination StdMap.empty dst dstSeqNo
    match ← lookupRoute v origin with
    | none => sendBroadcast 1 fun _ => .rerr rerr
    | some toOrigin =>
      if toOrigin.flag = .valid then sendTo toOrigin.iface toOrigin.nextHop 1 (.rerr rerr)
      else sendBroadcast 1 fun _ => .rerr rerr

/-! ## Neighbours -/

/-- `CloseNeighbor`. -/
def Neighbor.Gone (nb : Neighbor) : Prop := nb.expireTime < v.now ∨ nb.close = true

instance (nb : Neighbor) : Decidable (nb.Gone v) := inferInstanceAs (Decidable (_ ∨ _))

/-- `Neighbors::Purge`, with the handler of link failures. -/
def nbPurge : Handler Unit := do
  let n ← get
  (n.nb.filter fun nb => nb.Gone v).forM fun nb => sendRerrWhenBreaksLinkToNextHop v nb.addr
  modify fun n => { n with nb := n.nb.filter fun nb => ¬ nb.Gone v }

/-- `Neighbors::Update`. -/
def nbUpdate (addr : Ipv4Address) (expire : ℤ) : Handler Unit := do
  let n ← get
  if ∃ nb ∈ n.nb, nb.addr = addr then
    modify fun n => { n with nb := n.nb.map fun nb =>
      if nb.addr = addr then { nb with expireTime := max (expire + v.now) nb.expireTime } else nb }
  else
    modify fun n => { n with nb := n.nb ++ [⟨addr, expire + v.now, false⟩] }
    nbPurge v

/-- `ProcessTxError`, for the neighbours with the hardware address of the frame. -/
def processTxError (addrs : List Ipv4Address) : Handler Unit := do
  modify fun n => { n with
    nb := n.nb.map fun nb => if nb.addr ∈ addrs then { nb with close := true } else nb }
  nbPurge v

/-! ## Route requests -/

/-- The TTL of a request: the hop field of the entry drives the expanding ring search. -/
def requestTtl : Option RoutingTableEntry → UInt16
  | none => v.cfg.ttlStart
  | some rt =>
    if rt.flag ≠ .inSearch then min (rt.hops + v.cfg.ttlIncrement) v.cfg.netDiameter.toUInt16
    else if v.cfg.ttlThreshold < rt.hops + v.cfg.ttlIncrement then v.cfg.netDiameter.toUInt16
    else rt.hops + v.cfg.ttlIncrement

/-- The request goes out with the full TTL, which counts as an attempt. -/
def AtNetDiameter (ttl : UInt16) : Prop := ttl.toUInt32 = v.cfg.netDiameter

instance (ttl : UInt16) : Decidable (AtNetDiameter v ttl) := inferInstanceAs (Decidable (_ = _))

/-- The entry that a request leaves for its destination. -/
def searchEntry (dst : Ipv4Address) (rt : Option RoutingTableEntry) : RoutingTableEntry :=
  let ttl := requestTtl v rt
  let e := rt.getD (ofRoute v.now none dst false 0 ttl RoutingTableEntry.unset 0)
  { e with
    reqCount := if AtNetDiameter v ttl then e.reqCount + 1 else e.reqCount
    hops := ttl
    flag := .inSearch
    lifeTime := v.cfg.pathDiscoveryTime + v.now }

/-- The delay after which a request is repeated, and the shift of its binary backoff. -/
def retryTimer (rt : RoutingTableEntry) : RetryTimer :=
  if rt.hops.toUInt32 < v.cfg.netDiameter then
    { running := true
      delay := 2 * v.cfg.nodeTraversalTime * (rt.hops.toNat + v.cfg.timeoutBuffer.toNat)
      backoff := none }
  else
    let backoffFactor := rt.reqCount.toUInt16 - 1
    { running := true
      delay := v.cfg.netTraversalTime * 2 ^ backoffFactor.toNat
      backoff := some backoffFactor }

/-- `ScheduleRreqRetry`; at full TTL a count of 0 aborts the program. -/
def scheduleRreqRetry (dst : Ipv4Address) : Handler Unit := do
  let rt ← lookupRoute v dst
  let rt := rt.getD (blank v.now)
  if ¬ rt.hops.toUInt32 < v.cfg.netDiameter ∧ rt.reqCount = 0 then failure
  else modify fun n => { n with
    addressReqTimer := n.addressReqTimer.assign dst (retryTimer v rt) }

/-- The header of a request; the origin is the interface it is sent from. -/
def requestHeader (dst : Ipv4Address) (rt : Option RoutingTableEntry) (n : Node) (i : Iface) :
    RreqHeader where
  gratuitousRrep := v.cfg.gratuitousReply
  destinationOnly := v.cfg.destinationOnly
  unknownSeqno := !(rt.any (·.validSeqNo))
  hopCount := 0
  id := n.requestId
  dst := dst
  dstSeqno := (rt.map fun e => if e.validSeqNo then e.seqNo else 0).getD 0
  origin := i.addr
  originSeqno := n.seqNo

/-- The node remembers its own requests as seen, under each of its addresses. -/
def rememberRequest (n : Node) : IdCache :=
  n.ifaces.foldl (fun c i => (c.isDuplicate v.now i.addr n.requestId).2) n.rreqIdCache

/-- `SendRequest`. Over the rate limit the call is put off until the limit's timer expires. -/
def sendRequest (dst : Ipv4Address) : Handler Unit := do
  let n ← get
  if n.rreqCount = v.cfg.rreqRateLimit then
    modify fun n => { n with deferred := n.deferred ++ [dst] }
  else
    modify fun n => { n with rreqCount := n.rreqCount + 1 }
    let rt ← lookupRoute v dst
    putRoute v rt (searchEntry v dst rt)
    modify fun n => { n with seqNo := n.seqNo + 1, requestId := n.requestId + 1 }
    modify fun n => { n with rreqIdCache := rememberRequest v n }
    let n ← get
    sendBroadcast (requestTtl v rt).toUInt8 fun i => .rreq (requestHeader v dst rt n i)
    scheduleRreqRetry v dst

/-! ## Routes to neighbours and lifetimes -/

/-- `UpdateRouteLifeTime`. -/
def updateRouteLifeTime (addr : Ipv4Address) (lifetime : ℤ) : Handler Unit := do
  match ← lookupRoute v addr with
  | none => pure ()
  | some rt =>
    if rt.flag = .valid then
      update { rt with
        reqCount := 0
        lifeTime := max lifetime (rt.getLifeTime v.now) + v.now }
    else pure ()

/-- `UpdateRouteToNeighbor`. A known direct route over this interface stays as it is: its new
lifetime is not written back. -/
def updateRouteToNeighbor (sender receiver : Ipv4Address) : Handler Unit := do
  match ← lookupRoute v sender with
  | none =>
    addRoute v (ofRoute v.now receiver sender false 0 1 sender v.cfg.activeRouteTimeout)
  | some toNeighbor =>
    if toNeighbor.validSeqNo ∧ toNeighbor.hops = 1 ∧ toNeighbor.iface = some receiver then pure ()
    else
      update (ofRoute v.now receiver sender false 0 1 sender
        (max v.cfg.activeRouteTimeout (toNeighbor.getLifeTime v.now)))

/-! ## Replies -/

/-- `int32_t (a) - int32_t (b)`. -/
def seqDiff (a b : UInt32) : Int32 := a.toInt32 - b.toInt32

/-- `SetLifeTime` of a reply: milliseconds in an unsigned word. -/
def toLifeTime (t : ℤ) : UInt32 := UInt32.ofInt (t.tdiv 1000000)

def sendReply (h : RreqHeader) (toOrigin : RoutingTableEntry) : Handler Unit := do
  modify fun n =>
    if ¬ h.unknownSeqno ∧ h.dstSeqno = n.seqNo + 1 then { n with seqNo := n.seqNo + 1 } else n
  let n ← get
  sendTo toOrigin.iface toOrigin.nextHop toOrigin.hops.toUInt8 (.rrep
    { ackRequired := false
      hopCount := 0
      dst := h.dst
      dstSeqno := n.seqNo
      origin := toOrigin.dst
      lifeTime := toLifeTime v.cfg.myRouteTimeout })

/-- The reply that an entry gives rise to. -/
def replyFor (e : RoutingTableEntry) (origin : Ipv4Address) (ack : Bool) : RrepHeader where
  ackRequired := ack
  hopCount := e.hops.toUInt8
  dst := e.dst
  dstSeqno := e.seqNo
  origin := origin
  lifeTime := toLifeTime (e.getLifeTime v.now)

/-- For a reply about a neighbour an acknowledgement is asked for. The delay of its timer is set
on a copy of the entry for the next hop, so that all that remains of it is the lookup. -/
def awaitAck (toDst toOrigin : RoutingTableEntry) : Handler Unit :=
  if toDst.hops = 1 then do
    let _ ← lookupRoute v toOrigin.nextHop
  else pure ()

def sendReplyByIntermediateNode (toDst toOrigin : RoutingTableEntry) (gratRep : Bool) :
    Handler Unit := do
  awaitAck v toDst toOrigin
  update (toDst.insertPrecursor toOrigin.nextHop)
  update (toOrigin.insertPrecursor toDst.nextHop)
  sendTo toOrigin.iface toOrigin.nextHop toOrigin.hops.toUInt8
    (.rrep (replyFor v toDst toOrigin.dst (toDst.hops = 1)))
  if gratRep then
    sendTo toDst.iface toDst.nextHop toDst.hops.toUInt8 (.rrep (replyFor v toOrigin toDst.dst false))
  else pure ()

def sendReplyAck (neighbor : Ipv4Address) : Handler Unit := do
  let toNeighbor ← lookupRoute v neighbor
  sendTo (toNeighbor.getD (blank v.now)).iface neighbor 1 .rrepAck

/-! ## Receiving a request -/

/-- The lifetime of a reverse route. -/
def reverseLifeTime (hop : UInt8) : ℤ :=
  2 * v.cfg.netTraversalTime - 2 * hop.toNat * v.cfg.nodeTraversalTime

/-- The reverse route to the originator, new or made out of the entry there is: next hop and hop
count are overwritten whatever the sequence numbers say, and the flag stays. -/
def reverseEntry (h : RreqHeader) (hop : UInt8) (receiver src : Ipv4Address) :
    Option RoutingTableEntry → RoutingTableEntry
  | none =>
    ofRoute v.now receiver h.origin true h.originSeqno hop.toUInt16 src (reverseLifeTime v hop)
  | some e =>
    { e with
      seqNo :=
        if e.validSeqNo ∧ ¬ 0 < seqDiff h.originSeqno e.seqNo then e.seqNo else h.originSeqno
      validSeqNo := true
      nextHop := src
      iface := some receiver
      hops := hop.toUInt16
      lifeTime := max (reverseLifeTime v hop) (e.getLifeTime v.now) + v.now }

/-- The local copy of the reverse route: it stays blank when there was no entry. -/
def localOrigin (h : RreqHeader) (hop : UInt8) (receiver src : Ipv4Address) :
    Option RoutingTableEntry → RoutingTableEntry
  | none => blank v.now
  | some e => reverseEntry v h hop receiver src (some e)

/-- The entry for the node a request came from. Its sequence number is the originator's, and is
marked as unknown. -/
def previousEntry (h : RreqHeader) (receiver src : Ipv4Address) :
    Option RoutingTableEntry → RoutingTableEntry
  | none => ofRoute v.now receiver src false h.originSeqno 1 src v.cfg.activeRouteTimeout
  | some e =>
    { e with
      lifeTime := v.cfg.activeRouteTimeout + v.now
      validSeqNo := false
      seqNo := h.originSeqno
      flag := .valid
      iface := some receiver
      hops := 1
      nextHop := src }

/-- The request is sent on from each interface. -/
def forwardRequest (h : RreqHeader) (ttl : UInt8) : Handler Unit :=
  if ttl < 2 then pure () else sendBroadcast (ttl - 1) fun _ => .rreq h

/-- The last part of `RecvRequest`: the node is not the destination. -/
def relayRequest (h : RreqHeader) (ttl : UInt8) (src : Ipv4Address)
    (toOrigin : RoutingTableEntry) : Handler Unit := do
  match ← lookupRoute v h.dst with
  | none => forwardRequest h ttl
  | some toDst =>
    if toDst.nextHop = src then pure ()
    else if (h.unknownSeqno ∨ 0 ≤ seqDiff toDst.seqNo h.dstSeqno) ∧ toDst.validSeqNo then
      if ¬ h.destinationOnly ∧ toDst.flag = .valid then
        let found ← lookupRoute v h.origin
        sendReplyByIntermediateNode v toDst (found.getD toOrigin) h.gratuitousRrep
      else forwardRequest { h with dstSeqno := toDst.seqNo, unknownSeqno := false } ttl
    else forwardRequest h ttl

/-- The part of `RecvRequest` that deals with a request that is not ignored. -/
def takeRequest (h : RreqHeader) (ttl : UInt8) (receiver src : Ipv4Address) : Handler Unit := do
  let h := { h with hopCount := h.hopCount + 1 }
  let old ← lookupRoute v h.origin
  putRoute v old (reverseEntry v h h.hopCount receiver src old)
  let toOrigin := localOrigin v h h.hopCount receiver src old
  let prev ← lookupRoute v src
  putRoute v prev (previousEntry v h receiver src prev)
  nbUpdate v src (v.cfg.allowedHelloLoss.toNat * v.cfg.helloInterval)
  let n ← get
  if n.owns h.dst then
    let found ← lookupRoute v h.origin
    sendReply v h (found.getD toOrigin)
  else relayRequest v h ttl src toOrigin

/-- `RecvRequest`. Requests from the blacklist and duplicates are ignored. -/
def recvRequest (h : RreqHeader) (ttl : UInt8) (receiver src : Ipv4Address) : Handler Unit := do
  let toPrev ← lookupRoute v src
  if toPrev.any (·.blackListState) then pure ()
  else
    let n ← get
    let dup := n.rreqIdCache.isDuplicate v.now h.origin h.id
    modify fun n => { n with rreqIdCache := dup.2 }
    if dup.1 then pure () else takeRequest v h ttl receiver src

/-! ## Receiving a reply -/

/-- The entry for a neighbour after its Hello message. -/
def helloEntry (h : RrepHeader) (receiver : Ipv4Address) :
    Option RoutingTableEntry → RoutingTableEntry
  | none => ofRoute v.now receiver h.dst true h.dstSeqno 1 h.dst (h.lifeTime.toNat * 1000000)
  | some e =>
    { e with
      lifeTime := max (v.cfg.allowedHelloLoss.toNat * v.cfg.helloInterval) (e.getLifeTime v.now) +
        v.now
      seqNo := h.dstSeqno
      validSeqNo := true
      flag := .valid
      iface := some receiver
      hops := 1
      nextHop := h.dst }

def processHello (h : RrepHeader) (receiver : Ipv4Address) : Handler Unit := do
  let old ← lookupRoute v h.dst
  putRoute v old (helloEntry v h receiver old)
  if v.cfg.enableHello then
    nbUpdate v h.dst (v.cfg.allowedHelloLoss.toNat * v.cfg.helloInterval)
  else pure ()

/-- The entry a reply announces. -/
def replyEntry (h : RrepHeader) (receiver sender : Ipv4Address) : RoutingTableEntry :=
  ofRoute v.now receiver h.dst true h.dstSeqno h.hopCount.toUInt16 sender
    (h.lifeTime.toNat * 1000000)

/-- The four circumstances in which the existing entry is updated. -/
def Supersedes (h : RrepHeader) (toDst : RoutingTableEntry) : Prop :=
  ¬ toDst.validSeqNo ∨ 0 < seqDiff h.dstSeqno toDst.seqNo ∨
    h.dstSeqno = toDst.seqNo ∧ (toDst.flag ≠ .valid ∨ h.hopCount.toUInt16 < toDst.hops)

instance (h : RrepHeader) (toDst : RoutingTableEntry) : Decidable (Supersedes h toDst) :=
  inferInstanceAs (Decidable (_ ∨ _))

/-- A search is over: the entry is what the reply says, and there is no timer any more. -/
def endSearch (h : RrepHeader) (receiver sender : Ipv4Address)
    (toDst : Option RoutingTableEntry) : Handler Unit :=
  if toDst.any (·.flag = .inSearch) then do
    update (replyEntry v h receiver sender)
    modify fun n => { n with addressReqTimer := n.addressReqTimer.erase h.dst }
  else pure ()

/-- The reply has reached the node that asked. -/
def replyArrived (h : RrepHeader) (receiver sender : Ipv4Address)
    (toDst : Option RoutingTableEntry) : Handler Unit := do
  endSearch v h receiver sender toDst
  let found ← lookupRoute v h.dst
  sendPacketFromQueue v h.dst (found.getD (toDst.getD (blank v.now)))

/-- The precursors noted by a node that a reply passes through; the entry for the originator with
its precursor is the result. -/
def notePrecursors (h : RrepHeader) (toOrigin : RoutingTableEntry) :
    Handler RoutingTableEntry := do
  match ← lookupRoute v h.dst with
  | none => return toOrigin
  | some toDst =>
    if toDst.flag = .valid then
      update (toDst.insertPrecursor toOrigin.nextHop)
      let toNextHopToDst ← lookupRoute v toDst.nextHop
      update ((toNextHopToDst.getD (blank v.now)).insertPrecursor toOrigin.nextHop)
      update (toOrigin.insertPrecursor toDst.nextHop)
      let toNextHopToOrigin ← lookupRoute v toOrigin.nextHop
      update ((toNextHopToOrigin.getD (blank v.now)).insertPrecursor toDst.nextHop)
      return toOrigin.insertPrecursor toDst.nextHop
    else return toOrigin

/-- The reply is passed on towards the node that asked. -/
def relayReply (h : RrepHeader) (ttl : UInt8) : Handler Unit := do
  match ← lookupRoute v h.origin with
  | none => pure ()
  | some toOrigin =>
    if toOrigin.flag = .inSearch then pure ()
    else
      let toOrigin := toOrigin.setLifeTime v.now
        (max v.cfg.activeRouteTimeout (toOrigin.getLifeTime v.now))
      update toOrigin
      let toOrigin ← notePrecursors v h toOrigin
      if ttl < 2 then pure ()
      else sendTo toOrigin.iface toOrigin.nextHop (ttl - 1) (.rrep h)

/-- The route table entry for the destination is created or updated. -/
def installReply (h : RrepHeader) (receiver sender : Ipv4Address) :
    Option RoutingTableEntry → Handler Unit
  | none => addRoute v (replyEntry v h receiver sender)
  | some e => if Supersedes h e then update (replyEntry v h receiver sender) else pure ()

/-- `RecvReply` for a reply that is no Hello message. -/
def takeReply (h : RrepHeader) (ttl : UInt8) (receiver sender : Ipv4Address) : Handler Unit := do
  let toDst ← lookupRoute v h.dst
  installReply v h receiver sender toDst
  (if h.ackRequired then sendReplyAck v sender else pure ())
  let n ← get
  if n.owns h.origin then replyArrived v h receiver sender toDst
  else relayReply v { h with ackRequired := false } ttl

def recvReply (h : RrepHeader) (ttl : UInt8) (receiver sender : Ipv4Address) : Handler Unit :=
  let h := { h with hopCount := h.hopCount + 1 }
  if h.dst = h.origin then processHello v h receiver else takeReply v h ttl receiver sender

def recvReplyAck (neighbor : Ipv4Address) : Handler Unit := do
  match ← lookupRoute v neighbor with
  | none => pure ()
  | some rt => update { rt with flag := .valid }

/-! ## Receiving a route error -/

def recvError (h : RerrHeader) (src : Ipv4Address) : Handler Unit := do
  let dstWithNextHopSrc ← getListOfDestinationWithNextHop v src
  let unreachable := h.filterMap fun dst seqNo =>
    if dstWithNextHopSrc.contains dst then some seqNo else none
  let precursors ← precursorsOf v unreachable.keys []
  (if destCount unreachable = 0 then pure () else sendRerrMessage v unreachable precursors)
  invalidateRoutesWithDst v unreachable

/-- `RecvAodv`, on the interface with address `receiver`. -/
def recvAodv (f : Frame) (receiver : Ipv4Address) : Handler Unit := do
  updateRouteToNeighbor v f.sender receiver
  match f.message with
  | .rreq h => recvRequest v h f.ttl receiver f.sender
  | .rrep h => recvReply v h f.ttl receiver f.sender
  | .rerr h => recvError v h f.sender
  | .rrepAck => recvReplyAck v f.sender

/-! ## Timers -/

/-- The search for a destination is over: its packets are dropped. -/
def stopSearch (dst : Ipv4Address) : Handler Unit := do
  modify fun n => { n with addressReqTimer := n.addressReqTimer.erase dst }
  deleteRoute v dst
  dropPacketWithDst v dst

def routeRequestTimerExpire (dst : Ipv4Address) : Handler Unit := do
  let found ← lookupRoute v dst
  let toDst := found.getD (blank v.now)
  if found.any (·.flag = .valid) then sendPacketFromQueue v dst toDst
  else if toDst.reqCount.toUInt32 = v.cfg.rreqRetries then stopSearch v dst
  else if toDst.flag = .inSearch then sendRequest v dst
  else stopSearch v dst

def sendHello : Handler Unit := do
  let n ← get
  sendBroadcast 1 fun i => .rrep
    { ackRequired := false
      hopCount := 0
      dst := i.addr
      dstSeqno := n.seqNo
      origin := i.addr
      lifeTime := toLifeTime (v.cfg.allowedHelloLoss.toNat * v.cfg.helloInterval) }

/-! ## Data packets -/

/-- `DeferredRouteOutput`: an outbound packet without a route. -/
def deferredRouteOutput (p : Packet) (h : Ipv4Header) (callbacks : ℕ) : Handler Unit := do
  let n ← get
  match n.queue.enqueue v.now ⟨p, h, callbacks, v.now + v.now⟩ with
  | none => failure
  | some (result, queue, dropped) =>
    modify fun n => { n with queue := queue, reported := n.reported ++ dropped }
    if result then
      let rt ← lookupRoute v h.destination
      if rt.any (·.flag = .inSearch) then pure () else sendRequest v h.destination
    else pure ()

/-- `RouteOutput` for a destination with a valid route. -/
def routeOutput (dst : Ipv4Address) : Handler Unit := do
  match ← lookupRoute v dst with
  | none => pure ()
  | some rt =>
    if rt.flag = .valid then
      updateRouteLifeTime v dst v.cfg.activeRouteTimeout
      updateRouteLifeTime v rt.nextHop v.cfg.activeRouteTimeout
    else pure ()

/-- The unicast local delivery of `RouteInput`. -/
def localDelivery (origin : Ipv4Address) : Handler Unit := do
  updateRouteLifeTime v origin v.cfg.activeRouteTimeout
  match ← lookupRoute v origin with
  | none => pure ()
  | some toOrigin =>
    if toOrigin.flag = .valid then
      updateRouteLifeTime v toOrigin.nextHop v.cfg.activeRouteTimeout
      nbUpdate v toOrigin.nextHop v.cfg.activeRouteTimeout
    else pure ()

def forwarding (dst origin : Ipv4Address) : Handler Unit := do
  modify fun n => { n with routingTable := n.routingTable.purge v.now }
  match ← lookupRoute v dst with
  | none => sendRerrWhenNoRouteToForward v dst 0 origin
  | some toDst =>
    if toDst.flag = .valid then
      updateRouteLifeTime v origin v.cfg.activeRouteTimeout
      updateRouteLifeTime v dst v.cfg.activeRouteTimeout
      updateRouteLifeTime v toDst.nextHop v.cfg.activeRouteTimeout
      let toOrigin ← lookupRoute v origin
      let toOrigin := toOrigin.getD (blank v.now)
      updateRouteLifeTime v toOrigin.nextHop v.cfg.activeRouteTimeout
      nbUpdate v toDst.nextHop v.cfg.activeRouteTimeout
      nbUpdate v toOrigin.nextHop v.cfg.activeRouteTimeout
    else if toDst.validSeqNo then sendRerrWhenNoRouteToForward v dst toDst.seqNo origin
    else sendRerrWhenNoRouteToForward v dst 0 origin

/-! ## Events -/

/-- What can happen at a node. -/
inductive NodeEvent where
  | recv (f : Frame) (receiver : Ipv4Address)
  | outbound (p : Packet) (h : Ipv4Header) (callbacks : ℕ)
  | deferredRequest (dst : Ipv4Address)
  | retryExpire (dst : Ipv4Address)
  | rreqRateLimitExpire
  | rerrRateLimitExpire
  | hello
  | nbExpire
  | txError (addrs : List Ipv4Address)
  | routeOutput (dst : Ipv4Address)
  | localDelivery (origin : Ipv4Address)
  | broadcastDelivery (origin : Ipv4Address)
  | forwarding (dst origin : Ipv4Address)
  deriving DecidableEq

/-- A deferred `SendRequest` runs only if it was scheduled, a retry timer only expires while it
runs. -/
def handle : NodeEvent → Handler Unit
  | .recv f receiver => recvAodv v f receiver
  | .outbound p h callbacks => deferredRouteOutput v p h callbacks
  | .deferredRequest dst => do
    let n ← get
    if dst ∈ n.deferred then
      modify fun n => { n with deferred := n.deferred.erase dst }
      sendRequest v dst
    else failure
  | .retryExpire dst => do
    let n ← get
    match n.addressReqTimer.find dst with
    | none => failure
    | some timer =>
      if timer.running then
        modify fun n => { n with
          addressReqTimer := n.addressReqTimer.assign dst { timer with running := false } }
        routeRequestTimerExpire v dst
      else failure
  | .rreqRateLimitExpire => modify fun n => { n with rreqCount := 0 }
  | .rerrRateLimitExpire => modify fun n => { n with rerrCount := 0 }
  | .hello => if v.cfg.enableHello then sendHello v else failure
  | .nbExpire => nbPurge v
  | .txError addrs => processTxError v addrs
  | .routeOutput dst => routeOutput v dst
  | .localDelivery origin => localDelivery v origin
  | .broadcastDelivery origin => updateRouteLifeTime v origin v.cfg.activeRouteTimeout
  | .forwarding dst origin => forwarding v dst origin

/-- One event at a node. -/
def Node.step (n : Node) (e : NodeEvent) : Option Node := (handle v e n).map (·.2)

end

/-! ## Starting -/

/-- The routes of `SetIpv4` and `NotifyInterfaceUp`: loopback, and each interface's broadcast
address. They never expire. -/
def startRoutes (ifaces : List Iface) : RoutingTable where
  entries := ifaces.foldl (fun t i => t.insert i.broadcast
    (ofRoute 0 i.addr i.broadcast true 0 1 i.broadcast maximumSimulationTime))
    (StdMap.empty.insert loopback
      (ofRoute 0 loopback loopback true 0 1 loopback maximumSimulationTime))
  badLinkLifetime := 15000000000
where
  loopback : Ipv4Address := 0x7f000001
  maximumSimulationTime : ℤ := 2 ^ 63 - 1

/-- The routes a node starts with are all of one form. -/
theorem startRoutes_all {P : RoutingTableEntry → Prop} {ifaces : List Iface}
    (hP : ∀ a d, P (ofRoute 0 (some a) d true 0 1 d startRoutes.maximumSimulationTime)) :
    (startRoutes ifaces).All P := by
  have hfold : ∀ (is : List Iface) (t : StdMap Ipv4Address RoutingTableEntry),
      (∀ d e, t.find d = some e → e.dst = d ∧ P e) →
      ∀ d e, (is.foldl (fun t i => t.insert i.broadcast (ofRoute 0 (some i.addr) i.broadcast true 0 1
        i.broadcast startRoutes.maximumSimulationTime)) t).find d = some e → e.dst = d ∧ P e := by
    intro is
    induction is with
    | nil => exact fun t ht => ht
    | cons i is ih =>
      refine fun t ht => ih _ fun d e he => ?_
      rw [StdMap.find_insert] at he
      split at he
      · rename_i hd
        cases hold : t.find i.broadcast with
        | none =>
          rw [hold] at he
          cases he
          exact ⟨hd.symm, hP _ _⟩
        | some e' =>
          rw [hold] at he
          cases he
          obtain ⟨hdst, hp⟩ := ht _ _ hold
          exact ⟨hdst.trans hd.symm, hp⟩
      · exact ht d e he
  refine hfold ifaces _ fun d e he => ?_
  rw [StdMap.find_insert] at he
  split at he
  · rename_i hd
    cases he
    exact ⟨hd.symm, hP _ _⟩
  · cases he

/-- A node whose interfaces have come up. -/
def Node.up (ifaces : List Iface) : Node where
  ifaces := ifaces
  routingTable := startRoutes ifaces
  queue := ⟨[], 64, 30000000000⟩
  requestId := 0
  seqNo := 0
  rreqIdCache := ⟨[], 5600000000⟩
  nb := []
  rreqCount := 0
  rerrCount := 0
  addressReqTimer := StdMap.empty
  deferred := []
  outbox := []
  forwarded := []
  reported := []

end Ns3.Aodv
