import Ns3.Lib.StdMap
import Ns3.Lib.Wire

/-!
# AODV packets

The fields of the headers of `aodv-packet.cc` that the protocol reads, and of
the data packets it routes. The two flag words are their named bits.
-/

namespace Ns3.Aodv

open Ns3.Lib

abbrev Ipv4Address := UInt32

/-! ## Data packets -/

structure Ipv4Header where
  source : Ipv4Address
  destination : Ipv4Address
  ttl : UInt8
  deriving DecidableEq, Repr

/-- A packet is known by its uid; `tag` is the interface of its `DeferredRouteOutputTag`. -/
structure Packet where
  uid : ℕ
  tag : Option ℤ
  deriving DecidableEq, Repr

/-! ## Control messages -/

structure RreqHeader where
  gratuitousRrep : Bool
  destinationOnly : Bool
  unknownSeqno : Bool
  hopCount : UInt8
  id : UInt32
  dst : Ipv4Address
  dstSeqno : UInt32
  origin : Ipv4Address
  originSeqno : UInt32
  deriving DecidableEq, Repr

/-- `lifeTime` is in milliseconds. -/
structure RrepHeader where
  ackRequired : Bool
  hopCount : UInt8
  dst : Ipv4Address
  dstSeqno : UInt32
  origin : Ipv4Address
  lifeTime : UInt32
  deriving DecidableEq, Repr

/-- The unreachable destinations with their sequence numbers. -/
abbrev RerrHeader := StdMap Ipv4Address UInt32

/-- `AddUnDestination`. That there is room is asserted only: the result is true whatever the count. -/
def addUnDestination (h : RerrHeader) (dst : Ipv4Address) (seqNo : UInt32) : RerrHeader :=
  h.insert dst seqNo

/-- `GetDestCount`: the size of the map in one byte. -/
def destCount (h : RerrHeader) : UInt8 := UInt8.ofNat h.size

inductive Message where
  | rreq (h : RreqHeader)
  | rrep (h : RrepHeader)
  | rerr (h : RerrHeader)
  | rrepAck
  deriving DecidableEq

/-- A message on its way from one interface, with the TTL it is sent with; without a receiver it
was broadcast. -/
structure Frame where
  sender : Ipv4Address
  receiver : Option Ipv4Address
  ttl : UInt8
  message : Message
  deriving DecidableEq

/-! ## The bytes of a route error -/

open Wire

def writeDestination (e : Ipv4Address × UInt32) : Writer := concat [htonU32 e.1, htonU32 e.2]

def readDestination : Reader (Ipv4Address × UInt32) := do
  let address ← readNtohU32
  let seqNo ← readNtohU32
  return (address, seqNo)

/-- `RerrHeader::Serialize`; the two flag bytes are 0, as the constructor and `Clear` leave them. -/
def RerrHeader.serialize (h : RerrHeader) : Writer :=
  concat [u8 0, u8 0, u8 (destCount h), concat (h.entries.map writeDestination)]

/-- `RerrHeader::Deserialize`, with the two flag bytes. -/
def RerrHeader.deserialize : Reader (UInt8 × UInt8 × RerrHeader) := do
  let flag ← readU8
  let reserved ← readU8
  let dest ← readU8
  let entries ← readMany readDestination dest.toNat
  return (flag, reserved, StdMap.ofList entries)

theorem roundTrip_destination (e : Ipv4Address × UInt32) :
    RoundTrip (writeDestination e) readDestination e (4 + (4 + 0)) := by
  refine (roundTrip_htonU32 _).cons ?_
  refine (roundTrip_htonU32 _).cons ?_
  exact .nil _

theorem destCount_toNat {h : RerrHeader} (hsize : h.size ≤ 255) : (destCount h).toNat = h.size :=
  UInt8.toNat_ofNat_of_lt' (by
    show h.size < 256
    omega)

/-- A header is read back as long as its count is right. -/
theorem RerrHeader.roundTrip {h : RerrHeader} (hsize : h.size ≤ 255) :
    RoundTrip h.serialize RerrHeader.deserialize (0, 0, h)
      (1 + (1 + (1 + ((4 + (4 + 0)) * h.size + 0)))) := by
  have hread : RoundTrip (concat (h.entries.map writeDestination))
      (readMany readDestination (destCount h).toNat) h.entries ((4 + (4 + 0)) * h.size) := by
    have hitem : ∀ e ∈ h.entries, RoundTrip (writeDestination e) readDestination (id e) _ :=
      fun e _ => roundTrip_destination e
    have hmany := roundTrip_many hitem
    rw [List.map_id] at hmany
    rw [destCount_toNat hsize]
    exact hmany
  have hret : RoundTrip (concat []) (pure ((0 : UInt8), (0 : UInt8), StdMap.ofList h.entries))
      (0, 0, h) 0 := by
    rw [StdMap.ofList_entries]
    exact .nil _
  refine (roundTrip_u8 _).cons ?_
  refine (roundTrip_u8 _).cons ?_
  refine (roundTrip_u8 _).cons ?_
  refine hread.cons ?_
  exact hret

end Ns3.Aodv
