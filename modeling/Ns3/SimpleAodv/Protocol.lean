import Mathlib.Logic.Function.Basic
import Ns3.Ferry2.IdCache
import Ns3.Lib.StdMap

/-!
# The flooding routing protocol

`simple-protocol.cc`, `simple-rtable.cc` and `data-buffer.h` of `simpleaodv-a`:
route requests are flooded, every node that takes one up stores the neighbour
it came from as its next hop towards the source, and replies and
acknowledgements travel back along these next hops and do the same for their
own sources. `simple-id-cache.cc` is the cache of `Ns3.Ferry2.IdCache`. A node
is known by the address of its one wireless interface, `m_id`. Of a routing
entry only the next hop is kept: the other fields are the same for all entries
or never read. Times are nanoseconds.
-/

namespace Ns3.SimpleAodv

open Ns3.Lib
open Ns3.Ferry2 (Ipv4Address IdCache)

/-! ## Packets -/

structure RouteRequest where
  source : Ipv4Address
  dst : Ipv4Address
  seqNo : UInt32
  ttl : UInt8
  rreqId : UInt32
  deriving DecidableEq, Repr

structure RouteReply where
  source : Ipv4Address
  dst : Ipv4Address
  seqNo : UInt32
  deriving DecidableEq, Repr

structure DataAck where
  source : Ipv4Address
  dst : Ipv4Address
  seqNo : UInt32
  deriving DecidableEq, Repr

/-- The packets whose handlers change a routing table. -/
inductive Packet where
  | routeRequest (rreq : RouteRequest)
  | routeReply (rrep : RouteReply)
  | dataAck (ack : DataAck)
  deriving DecidableEq, Repr

/-- The node a packet tells a route to. -/
def Packet.source : Packet → Ipv4Address
  | .routeRequest rreq => rreq.source
  | .routeReply rrep => rrep.source
  | .dataAck ack => ack.source

/-- A packet on its way; without a receiver it was broadcast. -/
structure Frame where
  sender : Ipv4Address
  receiver : Option Ipv4Address
  packet : Packet
  deriving DecidableEq, Repr

/-! ## A node -/

/-- `RoutingTable`: the next hop of each destination. -/
abbrev RoutingTable := StdMap Ipv4Address Ipv4Address

/-- `DataKey`. -/
abbrev DataKey := Ipv4Address × UInt32

structure Node where
  routingTable : RoutingTable
  rreqIdCache : IdCache
  rreqId : UInt32
  db : List DataKey
  deriving DecidableEq

namespace Node

/-- The state after `NotifyInterfaceUp`: the one entry is that of the interface's network. -/
def up (netAddress : Ipv4Address) : Node where
  routingTable := StdMap.empty.insert netAddress 0
  rreqIdCache := IdCache.ofSecond
  rreqId := 0
  db := []

def lookupRoute (n : Node) (dst : Ipv4Address) : Option Ipv4Address := n.routingTable.find dst

/-- `SetRoute`: `AddRoute` when there is no entry, else `Update`, which overwrites it. -/
def setRoute (n : Node) (next dst : Ipv4Address) : Node :=
  match n.lookupRoute dst with
  | none => { n with routingTable := n.routingTable.insert dst next }
  | some _ => { n with routingTable := n.routingTable.assign dst next }

/-- `DataBuffer::AddData`, an `emplace`. -/
def addData (n : Node) (key : DataKey) : Node :=
  if key ∈ n.db then n else { n with db := n.db ++ [key] }

/-- The common end of the three senders of unicast packets. -/
def sendAlong (n : Node) (me dst : Ipv4Address) (p : Packet) : List Frame :=
  match n.lookupRoute dst with
  | none => []
  | some nextHop => [⟨me, some nextHop, p⟩]

/-! ### Requests -/

/-- `SendRouteRequest`. The node remembers its own request as seen. -/
def sendRouteRequest (n : Node) (me : Ipv4Address) (now : ℕ) (dst : Ipv4Address) (seqNo : UInt32)
    (ttl : UInt8) : Node × List Frame :=
  let rreq : RouteRequest := ⟨me, dst, seqNo, ttl, n.rreqId⟩
  ({ n with
      rreqIdCache := (n.rreqIdCache.isDuplicate now me n.rreqId).2
      rreqId := n.rreqId + 1 },
    [⟨me, none, .routeRequest rreq⟩])

def forwardRouteRequest (me : Ipv4Address) (rreq : RouteRequest) : List Frame :=
  [⟨me, none, .routeRequest rreq⟩]

/-! ### Replies and acknowledgements -/

def sendRouteReply (n : Node) (me : Ipv4Address) (rreq : RouteRequest) : List Frame :=
  n.sendAlong me rreq.source (.routeReply ⟨me, rreq.source, rreq.seqNo⟩)

def forwardRouteReply (n : Node) (me : Ipv4Address) (rrep : RouteReply) : List Frame :=
  n.sendAlong me rrep.dst (.routeReply rrep)

def sendAck (n : Node) (me source : Ipv4Address) (seqNo : UInt32) : List Frame :=
  n.sendAlong me source (.dataAck ⟨me, source, seqNo⟩)

def forwardAck (n : Node) (me : Ipv4Address) (ack : DataAck) : List Frame :=
  n.sendAlong me ack.dst (.dataAck ack)

/-! ### Receiving -/

/-- The two `SetRoute` calls with which every handler begins. -/
def learn (n : Node) (sender source : Ipv4Address) : Node :=
  (n.setRoute sender sender).setRoute sender source

def recvRouteRequest (n : Node) (me : Ipv4Address) (now : ℕ) (rreq : RouteRequest)
    (sender : Ipv4Address) : Node × List Frame :=
  let dup := n.rreqIdCache.isDuplicate now rreq.source rreq.rreqId
  let n := { n with rreqIdCache := dup.2 }
  if dup.1 then (n, [])
  else
    let n := n.learn sender rreq.source
    if rreq.dst = me then
      if (rreq.source, rreq.seqNo) ∈ n.db then (n, []) else (n, n.sendRouteReply me rreq)
    else if 0 < rreq.ttl then
      (n, forwardRouteRequest me { rreq with ttl := rreq.ttl - 1 })
    else (n, [])

def recvRouteReply (n : Node) (me : Ipv4Address) (rrep : RouteReply) (sender : Ipv4Address) :
    Node × List Frame :=
  let n := n.learn sender rrep.source
  if rrep.dst = me then (n, []) else (n, n.forwardRouteReply me rrep)

def recvAck (n : Node) (me : Ipv4Address) (ack : DataAck) (sender : Ipv4Address) :
    Node × List Frame :=
  let n := n.learn sender ack.source
  if ack.dst = me then (n, []) else (n, n.forwardAck me ack)

/-- `RecvProto`. -/
def recvProto (n : Node) (me : Ipv4Address) (now : ℕ) (sender : Ipv4Address) :
    Packet → Node × List Frame
  | .routeRequest rreq => n.recvRouteRequest me now rreq sender
  | .routeReply rrep => n.recvRouteReply me rrep sender
  | .dataAck ack => n.recvAck me ack sender

/-- The packet is not dropped as a duplicate. -/
def takesUp (n : Node) (now : ℕ) : Packet → Bool
  | .routeRequest rreq => !(n.rreqIdCache.isDuplicate now rreq.source rreq.rreqId).1
  | .routeReply _ => true
  | .dataAck _ => true

/-! ### What a handler does to the routes -/

variable {n : Node} {me next dst d sender source : Ipv4Address} {now : ℕ}

theorem setRoute_eq (n : Node) (next dst : Ipv4Address) :
    n.setRoute next dst = { n with routingTable := n.routingTable.assign dst next } := by
  unfold setRoute
  split
  · rename_i h
    rw [StdMap.insert_of_find_none h]
  · rfl

theorem lookupRoute_setRoute :
    (n.setRoute next dst).lookupRoute d = if d = dst then some next else n.lookupRoute d := by
  rw [setRoute_eq]
  by_cases h : d = dst <;> simp [lookupRoute, StdMap.find_assign, h]

theorem lookupRoute_learn : (n.learn sender source).lookupRoute d =
    if d = sender ∨ d = source then some sender else n.lookupRoute d := by
  unfold learn
  rw [lookupRoute_setRoute, lookupRoute_setRoute]
  by_cases h : d = source
  · simp [h]
  · simp [h]

theorem lookupRoute_addData {key : DataKey} : (n.addData key).lookupRoute d = n.lookupRoute d := by
  unfold addData
  split <;> rfl

theorem lookupRoute_recvRouteRequest {rreq : RouteRequest} :
    (n.recvRouteRequest me now rreq sender).1.lookupRoute d =
      if n.takesUp now (.routeRequest rreq) = true ∧ (d = sender ∨ d = rreq.source) then some sender
      else n.lookupRoute d := by
  cases hdup : (n.rreqIdCache.isDuplicate now rreq.source rreq.rreqId).1 with
  | true =>
    simp only [recvRouteRequest, takesUp, hdup]
    rfl
  | false =>
    have htake : n.takesUp now (.routeRequest rreq) = true := by simp only [takesUp, hdup, Bool.not_false]
    have hall : (n.recvRouteRequest me now rreq sender).1 =
        Node.learn { n with rreqIdCache := (n.rreqIdCache.isDuplicate now rreq.source rreq.rreqId).2 }
          sender rreq.source := by
      simp only [recvRouteRequest, hdup, Bool.false_eq_true, if_false]
      split_ifs <;> rfl
    rw [hall, lookupRoute_learn]
    simp only [htake, true_and]
    rfl

/-- A packet that is taken up makes its sender the next hop towards the sender and the source. -/
theorem lookupRoute_recvProto {p : Packet} : (n.recvProto me now sender p).1.lookupRoute d =
    if n.takesUp now p = true ∧ (d = sender ∨ d = p.source) then some sender
    else n.lookupRoute d := by
  cases p with
  | routeRequest rreq => exact lookupRoute_recvRouteRequest
  | routeReply rrep =>
    simp only [recvProto, recvRouteReply, takesUp, Packet.source, true_and]
    split <;> exact lookupRoute_learn
  | dataAck ack =>
    simp only [recvProto, recvAck, takesUp, Packet.source, true_and]
    split <;> exact lookupRoute_learn

end Node

end Ns3.SimpleAodv
