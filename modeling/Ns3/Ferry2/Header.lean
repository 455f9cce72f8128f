import Ns3.Ferry2.NodeId
import Ns3.Lib.Ieee754
import Ns3.Lib.StdMap
import Ns3.Lib.Wire

/-!
# The DTN headers

The headers of `simple-packet.cc`, each with its hand-written size, writer and
reader, and the packet they are stacked on. A size is `uint32_t` arithmetic, so
it is the true size only below `2^32`; `Packet::AddHeader` makes room by the
size and then lets the writer write from the front, and `Packet::RemoveHeader`
drops as many bytes as the reader reports.
-/

namespace Ns3.Ferry2

open Ns3.Lib
open Ns3.Lib.Wire

abbrev Ipv4Address := UInt32

/-- A hop entry: target shelter, required time and generation time. -/
abbrev HopInfo := (String × UInt32) × UInt32

/-! ## Items -/

/-- `WriteU32 (JSON_Data::NodeIDstoi (id))`. -/
def writeId (s : String) : Writer := (nodeIDstoi s).bind u32

/-- `"node/" + std::to_string (ReadU32 ())`. -/
def readId : Reader String := do
  let n ← readU32
  return nodeID n.toNat

def writeItem {β : Type} (w : β → Writer) (e : String × β) : Writer := concat [writeId e.1, w e.2]

def readItem {β : Type} (r : Reader β) : Reader (String × β) := do
  let id ← readId
  let v ← r
  return (id, v)

/-- The entries the loops do not `continue` over. -/
def nonEmpty {β : Type} (es : List (String × β)) : List (String × β) :=
  es.filter fun e => e.1 ≠ ""

/-- An entry count kept in a `uint32_t`. -/
def count {α : Type} (es : List α) : UInt32 := UInt32.ofNat es.length

def writeUnit (_ : Unit) : Writer := concat []
def writeFloat (f : Binary32) : Writer := u32 f.bits
def writePair (p : UInt32 × UInt32) : Writer := concat [u32 p.1, u32 p.2]

def readFloat : Reader Binary32 := do
  let tmp ← readU32
  return ⟨tmp⟩

def readPair : Reader (UInt32 × UInt32) := do
  let a ← readU32
  let b ← readU32
  return (a, b)

/-! ## Headers -/

/-- What `ns3::Header` asks of a header type; `read` fills an object that is already there. -/
structure HeaderCodec (α : Type) where
  getSerializedSize : α → UInt32
  serialize : α → Writer
  read : α → Reader α

namespace HeaderCodec

variable {α : Type} (c : HeaderCodec α)

/-- `Deserialize` at the front of a buffer: the object, and the distance read. -/
def deserialize (h : α) (buf : List UInt8) : Option (α × UInt32) :=
  (c.read h buf).map fun p => (p.1, UInt32.ofNat (buf.length - p.2.length))

/-- `Packet::AddHeader`. -/
def addHeader (h : α) (buf : List UInt8) : Option (List UInt8) := do
  let buf := List.replicate (c.getSerializedSize h).toNat 0 ++ buf
  let bs ← c.serialize h
  if bs.length ≤ buf.length then return bs ++ buf.drop bs.length else none

/-- `Packet::RemoveHeader` into the object `h`. -/
def removeHeader (h : α) (buf : List UInt8) : Option (α × List UInt8) :=
  (c.deserialize h buf).map fun p => (p.1, buf.drop p.2.toNat)

end HeaderCodec

/-- The type byte in front of every packet. -/
inductive MessageType
  | metaData
  | hello
  | userData
  | shelterData
  | request
  deriving DecidableEq, Repr

namespace MessageType

def toByte : MessageType → UInt8
  | metaData => 1
  | hello => 2
  | userData => 3
  | shelterData => 4
  | request => 5

/-- The switch of `TypeHeader::Deserialize`; `none` is its default branch. -/
def ofByte : UInt8 → Option MessageType
  | 1 => some metaData
  | 2 => some hello
  | 3 => some userData
  | 4 => some shelterData
  | 5 => some request
  | _ => none

end MessageType

/-- A type header: its type, and whether the last byte read was a known one. -/
structure TypeHeader where
  type : MessageType
  valid : Bool
  deriving DecidableEq, Repr

def TypeHeader.ofType (t : MessageType) : TypeHeader := ⟨t, true⟩

def typeHeader : HeaderCodec TypeHeader where
  getSerializedSize _ := 1
  serialize h := concat [u8 h.type.toByte]
  read h := do
    let b ← readU8
    match MessageType.ofByte b with
    | some t => return ⟨t, true⟩
    | none => return ⟨h.type, false⟩

structure SummaryVector where
  userId : UInt32
  dst : Ipv4Address
  broadcastId : UInt32
  exitSummary : StdMap String UInt32
  blockSummary : StdMap String Binary32
  deriving DecidableEq

def summaryVector : HeaderCodec SummaryVector where
  getSerializedSize h :=
    4 + 4 + 4 + (4 + (4 + 4) * count (nonEmpty h.exitSummary.entries)) +
      (4 + (4 + 4) * count (nonEmpty h.blockSummary.entries))
  serialize h := concat
    [u32 h.broadcastId,
     u32 h.userId,
     htonU32 h.dst,
     counted (writeItem u32) (nonEmpty h.exitSummary.entries),
     counted (writeItem writeFloat) (nonEmpty h.blockSummary.entries)]
  read _ := do
    let broadcastId ← readU32
    let userId ← readU32
    let dst ← readNtohU32
    let exits ← readCounted (readItem readU32)
    let blocks ← readCounted (readItem readFloat)
    return ⟨userId, dst, broadcastId, .ofList exits, .ofList blocks⟩

structure RequestData where
  requesterId : UInt32
  exitIds : List String
  blockIds : List String
  deriving DecidableEq

def requestData : HeaderCodec RequestData where
  getSerializedSize h :=
    4 + 4 + 4 * count h.exitIds + 4 + 4 * count h.blockIds
  serialize h := concat
    [u32 h.requesterId, counted writeId h.exitIds, counted writeId h.blockIds]
  read _ := do
    let requesterId ← readU32
    let exitIds ← readCounted readId
    let blockIds ← readCounted readId
    return ⟨requesterId, exitIds, blockIds⟩

structure UserData where
  userId : UInt32
  dst : Ipv4Address
  broadcastId : UInt32
  blockedSet : StdSet String
  fullexitSet : StdSet String
  aoiExitinfo : StdMap String (UInt32 × UInt32)
  aoiBlockinfo : StdMap String Binary32
  myPatrolEreaAndStartTime : String × UInt32
  otherUAVPatrolEreaAndId : StdMap String UInt32
  patrolEreaidAndTime : StdMap String UInt32
  deriving DecidableEq

/-- The patrol area is sent as 0 when it is the empty string. -/
def writePatrol (p : String × UInt32) : Writer :=
  concat [if p.1 = "" then u32 0 else writeId p.1, u32 p.2]

def readPatrol : Reader (String × UInt32) := do
  let ereaid ← readU32
  let starttime ← readU32
  return if ereaid = 0 then ("", 0) else (nodeID ereaid.toNat, starttime)

def userData : HeaderCodec UserData where
  getSerializedSize h :=
    4 + 4 + 4 + (4 + 4 * count (nonEmpty h.blockedSet.entries)) +
      (4 + 4 * count (nonEmpty h.fullexitSet.entries)) +
      (4 + (4 + 4 + 4) * count h.aoiExitinfo.entries) +
      (4 + (4 + 4) * count (nonEmpty h.aoiBlockinfo.entries)) +
      (4 + 4) +
      (4 + (4 + 4) * count (nonEmpty h.otherUAVPatrolEreaAndId.entries)) +
      (4 + (4 + 4) * count (nonEmpty h.patrolEreaidAndTime.entries))
  serialize h := concat
    [u32 h.broadcastId,
     u32 h.userId,
     htonU32 h.dst,
     counted (writeItem writeUnit) (nonEmpty h.blockedSet.entries),
     counted (writeItem writeUnit) (nonEmpty h.fullexitSet.entries),
     counted (writeItem writePair) h.aoiExitinfo.entries,
     counted (writeItem writeFloat) (nonEmpty h.aoiBlockinfo.entries),
     writePatrol h.myPatrolEreaAndStartTime,
     counted (writeItem u32) (nonEmpty h.otherUAVPatrolEreaAndId.entries),
     counted (writeItem u32) (nonEmpty h.patrolEreaidAndTime.entries)]
  read _ := do
    let broadcastId ← readU32
    let userId ← readU32
    let dst ← readNtohU32
    let blocked ← readCounted (readItem (pure ()))
    let fullexit ← readCounted (readItem (pure ()))
    let exits ← readCounted (readItem readPair)
    let blocks ← readCounted (readItem readFloat)
    let patrol ← readPatrol
    let other ← readCounted (readItem readU32)
    let times ← readCounted (readItem readU32)
    return ⟨userId, dst, broadcastId, .ofList blocked, .ofList fullexit, .ofList exits,
      .ofList blocks, patrol, .ofList other, .ofList times⟩

structure Hop where
  hop : StdMap UInt32 HopInfo
  deriving DecidableEq

def writeHopItem (e : UInt32 × HopInfo) : Writer :=
  concat [u32 e.1, writeId e.2.1.1, u32 e.2.1.2, u32 e.2.2]

def readHopItem : Reader (UInt32 × HopInfo) := do
  let userid ← readU32
  let nodeid ← readId
  let requiredTime ← readU32
  let generationTime ← readU32
  return (userid, (nodeid, requiredTime), generationTime)

/-- Unlike the other readers, this one does not clear the map it inserts into. -/
def hopHeader : HeaderCodec Hop where
  getSerializedSize h := 4 + 16 * count h.hop.entries
  serialize h := concat [counted writeHopItem h.hop.entries]
  read h := do
    let es ← readCounted readHopItem
    return ⟨es.foldl (fun m e => m.insert e.1 e.2) h.hop⟩

/-- A shelter's broadcast. -/
structure ShelterInfo where
  id : Ipv4Address
  broadcastId : UInt32
  exitNum : UInt32
  shelterID : UInt32
  time : UInt32
  deriving DecidableEq, Repr

/-- The sender's address and the broadcast id are neither written nor read. -/
def shelterInfo : HeaderCodec ShelterInfo where
  getSerializedSize _ := 4 + 4 + 4
  serialize h := concat [u32 h.shelterID, u32 h.exitNum, u32 h.time]
  read h := do
    let shelterID ← readU32
    let exitNum ← readU32
    let time ← readU32
    return { h with shelterID := shelterID, exitNum := exitNum, time := time }

/-- The address of a default-constructed `Ipv4Address`. -/
def uninitializedAddress : Ipv4Address := 0x66666666

/-! ## The stacks a node sends and receives -/

/-- The hop header goes under the others, and only when the option is set. -/
def addHop (sendHopFlag : Bool) (hop : Hop) (buf : List UInt8) : Option (List UInt8) :=
  if sendHopFlag then hopHeader.addHeader hop buf else some buf

/-- The receive side of `addHop`: the map stays empty when the option is off. -/
def removeHop (sendHopFlag : Bool) (buf : List UInt8) : Option (Hop × List UInt8) :=
  if sendHopFlag then hopHeader.removeHeader ⟨.empty⟩ buf else some (⟨.empty⟩, buf)

def addType (t : MessageType) (buf : List UInt8) : Option (List UInt8) :=
  typeHeader.addHeader (.ofType t) buf

/-- The packet of `SendHello`. -/
def helloPacket (sendHopFlag : Bool) (summary : SummaryVector) (hop : Hop) :
    Option (List UInt8) := do
  let p ← addHop sendHopFlag hop []
  let p ← summaryVector.addHeader summary p
  addType .hello p

/-- The packet of `SendRequest`. -/
def requestPacket (request : RequestData) : Option (List UInt8) := do
  let p ← requestData.addHeader request []
  addType .request p

/-- The packet of `SendUserDataAsUnicast`. -/
def userDataPacket (sendHopFlag : Bool) (data : UserData) (hop : Hop) :
    Option (List UInt8) := do
  let p ← addHop sendHopFlag hop []
  let p ← userData.addHeader data p
  addType .userData p

/-- The packet of `SendShelterInfoAsBroadcast`. -/
def shelterPacket (data : ShelterInfo) : Option (List UInt8) := do
  let p ← shelterInfo.addHeader data []
  addType .shelterData p

/-- The type header `RecvProto` removes from a packet; built with `TYPE_USERDATA`. -/
def removeType (p : List UInt8) : Option (TypeHeader × List UInt8) :=
  typeHeader.removeHeader (.ofType .userData) p

/-- The headers `RecvHello` removes, and what they leave of the packet. -/
def removeHello (sendHopFlag : Bool) (into : SummaryVector) (p : List UInt8) :
    Option ((SummaryVector × Hop) × List UInt8) := do
  let (summary, p) ← summaryVector.removeHeader into p
  let (hop, p) ← removeHop sendHopFlag p
  return ((summary, hop), p)

/-- The header `RecvRequest` removes. -/
def removeRequest (into : RequestData) (p : List UInt8) : Option (RequestData × List UInt8) :=
  requestData.removeHeader into p

/-- The headers `RecvUserDataAsUnicast` removes. -/
def removeUserData (sendHopFlag : Bool) (into : UserData) (p : List UInt8) :
    Option ((UserData × Hop) × List UInt8) := do
  let (data, p) ← userData.removeHeader into p
  let (hop, p) ← removeHop sendHopFlag p
  return ((data, hop), p)

end Ns3.Ferry2
