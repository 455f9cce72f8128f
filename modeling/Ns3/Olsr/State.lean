import Mathlib.Data.List.Basic
import Mathlib.Data.UInt

/-!
# The topology set of OLSR

`olsr-repositories.h`, the functions of `olsr-state.cc` on links and topology
tuples, and `ProcessTc` of `olsr-routing-protocol.cc`. The sets are vectors,
searched from the front.
-/

namespace Ns3.Olsr

abbrev Ipv4Address := UInt32

/-- Nanoseconds. -/
abbrev Time := ℤ

structure LinkTuple where
  localIfaceAddr : Ipv4Address
  neighborIfaceAddr : Ipv4Address
  symTime : Time
  asymTime : Time
  time : Time
  deriving DecidableEq

structure TopologyTuple where
  destAddr : Ipv4Address
  lastAddr : Ipv4Address
  sequenceNumber : UInt16
  expirationTime : Time
  deriving DecidableEq

abbrev LinkSet := List LinkTuple

abbrev TopologySet := List TopologyTuple

/-- `FindSymLinkTuple`: the first link to the interface decides. -/
def findSymLinkTuple (links : LinkSet) (ifaceAddr : Ipv4Address) (now : Time) : Option LinkTuple :=
  (links.find? fun l => l.neighborIfaceAddr = ifaceAddr).filter fun l => now < l.symTime

namespace TopologySet

variable (ts : TopologySet)

def findTopologyTuple (destAddr lastAddr : Ipv4Address) : Option TopologyTuple :=
  ts.find? fun t => t.destAddr = destAddr ∧ t.lastAddr = lastAddr

/-- `FindNewerTopologyTuple`. The numbers are compared as they are. -/
def findNewerTopologyTuple (lastAddr : Ipv4Address) (ansn : UInt16) : Option TopologyTuple :=
  ts.find? fun t => t.lastAddr = lastAddr ∧ ansn < t.sequenceNumber

/-- `EraseTopologyTuple`: `operator ==` does not look at the expiration time. -/
def eraseTopologyTuple (tuple : TopologyTuple) : TopologySet :=
  ts.eraseP fun t => t.destAddr = tuple.destAddr ∧ t.lastAddr = tuple.lastAddr ∧
    t.sequenceNumber = tuple.sequenceNumber

def eraseOlderTopologyTuples (lastAddr : Ipv4Address) (ansn : UInt16) : TopologySet :=
  ts.filter fun t => ¬ (t.lastAddr = lastAddr ∧ t.sequenceNumber < ansn)

def insertTopologyTuple (tuple : TopologyTuple) : TopologySet := ts ++ [tuple]

/-- `topologyTuple->expirationTime = time`, for the tuple that `FindTopologyTuple` finds. -/
def setExpirationTime (destAddr lastAddr : Ipv4Address) (time : Time) : TopologySet → TopologySet
  | [] => []
  | t :: ts =>
    if t.destAddr = destAddr ∧ t.lastAddr = lastAddr then { t with expirationTime := time } :: ts
    else t :: setExpirationTime destAddr lastAddr time ts

end TopologySet

/-! ## TC messages -/

/-- `MessageHeader` with a `Tc` message: the fields that `ProcessTc` reads. -/
structure TcMessage where
  originatorAddress : Ipv4Address
  vTime : Time
  ansn : UInt16
  neighborAddresses : List Ipv4Address
  deriving DecidableEq

/-- Part 4 of `ProcessTc`, for one advertised neighbour. -/
def advertise (msg : TcMessage) (now : Time) (ts : TopologySet) (addr : Ipv4Address) :
    TopologySet :=
  match TopologySet.findTopologyTuple ts addr msg.originatorAddress with
  | some _ => TopologySet.setExpirationTime addr msg.originatorAddress (now + msg.vTime) ts
  | none => TopologySet.insertTopologyTuple ts
      ⟨addr, msg.originatorAddress, msg.ansn, now + msg.vTime⟩

/-- `ProcessTc`. -/
def processTc (links : LinkSet) (ts : TopologySet) (msg : TcMessage) (senderIface : Ipv4Address)
    (now : Time) : TopologySet :=
  match findSymLinkTuple links senderIface now with
  | none => ts
  | some _ =>
    match TopologySet.findNewerTopologyTuple ts msg.originatorAddress msg.ansn with
    | some _ => ts
    | none => msg.neighborAddresses.foldl (advertise msg now)
        (TopologySet.eraseOlderTopologyTuples ts msg.originatorAddress msg.ansn)

/-- `TopologyTupleTimerExpire`. A tuple that has not expired is looked at again later. -/
def topologyTupleTimerExpire (ts : TopologySet) (destAddr lastAddr : Ipv4Address) (now : Time) :
    TopologySet :=
  match TopologySet.findTopologyTuple ts destAddr lastAddr with
  | none => ts
  | some tuple =>
    if tuple.expirationTime < now then TopologySet.eraseTopologyTuple ts tuple else ts

end Ns3.Olsr
