import Mathlib.Data.Int.Init
import Ns3.Lib.Parser
import Ns3.Olsr.State

/-!
# OLSR messages

`olsr-header.cc`, and from `olsr-routing-protocol.cc` what `SendPacket` puts
around the messages and the loop of `RecvOlsr` that takes them out of a packet.
The last `tail` bytes of a packet are the ones behind the zero area of its
buffer: there `ReadNtohU16` and `ReadNtohU32` do not look for the end.
`m_messageSize` is left out: only `Print` shows it to others.
-/

namespace Ns3.Olsr

open Ns3.Lib Parser

/-! ## The words of a buffer -/

def writeHtonU16 (x : UInt16) : List UInt8 := [Wire.byteAt x.toNat 1, Wire.byteAt x.toNat 0]

def bigEndian (bs : List UInt8) : ℕ := bs.foldl (fun v b => 256 * v + b.toNat) 0

def readNtohU16 (tail : ℕ) : Parser UInt16 := do
  let bs ← readBytes tail 2
  return UInt16.ofNat (bigEndian bs)

def readNtohU32 (tail : ℕ) : Parser UInt32 := do
  let bs ← readBytes tail 4
  return UInt32.ofNat (bigEndian bs)

/-! ## Messages -/

structure LinkMessage where
  linkCode : UInt8
  neighborInterfaceAddresses : List Ipv4Address
  deriving DecidableEq

/-- `Hna::Association`. -/
structure HnaAssociation where
  address : Ipv4Address
  mask : UInt32
  deriving DecidableEq

/-- `m_message`. -/
inductive Message
  | mid (interfaceAddresses : List Ipv4Address)
  | hello (hTime willingness : UInt8) (linkMessages : List LinkMessage)
  | tc (ansn : UInt16) (neighborAddresses : List Ipv4Address)
  | hna (associations : List HnaAssociation)
  deriving DecidableEq

structure MessageHeader where
  vTime : UInt8
  originatorAddress : Ipv4Address
  timeToLive : UInt8
  hopCount : UInt8
  messageSequenceNumber : UInt16
  message : Message
  deriving DecidableEq

namespace LinkMessage

variable (lm : LinkMessage)

def getSerializedSize : ℕ := 4 + 4 * lm.neighborInterfaceAddresses.length

def serialize : List UInt8 :=
  [lm.linkCode, 0] ++ writeHtonU16 (UInt16.ofNat lm.getSerializedSize) ++
    lm.neighborInterfaceAddresses.flatMap Wire.writeHtonU32

end LinkMessage

namespace Message

def messageType : Message → UInt8
  | hello _ _ _ => 1
  | tc _ _ => 2
  | mid _ => 3
  | hna _ => 4

/-- In bytes, before the count is cut to 32 bits. -/
def getSerializedSize : Message → ℕ
  | mid interfaceAddresses => interfaceAddresses.length * 4
  | hello _ _ linkMessages => 4 + (linkMessages.map LinkMessage.getSerializedSize).sum
  | tc _ neighborAddresses => 4 + neighborAddresses.length * 4
  | hna associations => 2 * associations.length * 4

def serialize : Message → List UInt8
  | mid interfaceAddresses => interfaceAddresses.flatMap Wire.writeHtonU32
  | hello hTime willingness linkMessages =>
    writeHtonU16 0 ++ [hTime, willingness] ++ linkMessages.flatMap LinkMessage.serialize
  | tc ansn neighborAddresses =>
    writeHtonU16 ansn ++ writeHtonU16 0 ++ neighborAddresses.flatMap Wire.writeHtonU32
  | hna associations => associations.flatMap fun a =>
    Wire.writeHtonU32 a.address ++ Wire.writeHtonU32 a.mask

end Message

namespace MessageHeader

variable (m : MessageHeader)

def getSerializedSize : ℕ := 12 + m.message.getSerializedSize

def serialize : List UInt8 :=
  [m.message.messageType, m.vTime] ++ writeHtonU16 (UInt16.ofNat m.getSerializedSize) ++
    Wire.writeHtonU32 m.originatorAddress ++ [m.timeToLive, m.hopCount] ++
    writeHtonU16 m.messageSequenceNumber ++ m.message.serialize

end MessageHeader

/-- The packet of some messages, with its header. -/
def sendPacket (packetSequenceNumber : UInt16) (messages : List MessageHeader) : List UInt8 :=
  let body := messages.flatMap MessageHeader.serialize
  writeHtonU16 (UInt16.ofNat (4 + body.length)) ++ writeHtonU16 packetSequenceNumber ++ body

/-! ## Deserialize -/

section Deserialize

variable (tail : ℕ)

def deserializeMid (messageSize : ℕ) : Parser (Message × ℕ) := do
  check (messageSize % 4 = 0)
  let interfaceAddresses ← many (readNtohU32 tail) (messageSize / 4)
  return (.mid interfaceAddresses, interfaceAddresses.length * 4)

/-- A count below zero is counted down, and comes to zero only long after the data ends. -/
def readAddresses (count : ℤ) : Parser (List Ipv4Address) := withLength fun length =>
  many (readNtohU32 tail) (if 0 ≤ count then count.toNat else length + 1)

/-- The loop of `Hello::Deserialize`, in at most `fuel` rounds. -/
def linkLoop : ℕ → ℕ → Parser (List LinkMessage)
  | 0, _ => stop .unfinished
  | fuel + 1, helloSizeLeft =>
    if helloSizeLeft = 0 then pure [] else do
      check (4 ≤ helloSizeLeft)
      let linkCode ← readU8
      let _ ← readU8
      let lmSize ← readNtohU16 tail
      check (((lmSize.toNat : ℤ) - 4).tmod 4 = 0)
      let addresses ← readAddresses tail (((lmSize.toNat : ℤ) - 4).tdiv 4)
      let links ← linkLoop fuel ((helloSizeLeft + 2 ^ 16 - lmSize.toNat) % 2 ^ 16)
      return ⟨linkCode, addresses⟩ :: links

def deserializeHello (messageSize : ℕ) : Parser (Message × ℕ) := do
  check (4 ≤ messageSize)
  let _ ← readNtohU16 tail
  let hTime ← readU8
  let willingness ← readU8
  let links ← withLength fun length =>
    linkLoop tail (length + 1) ((messageSize + 2 ^ 16 - 4) % 2 ^ 16)
  return (.hello hTime willingness links, messageSize)

def deserializeTc (messageSize : ℕ) : Parser (Message × ℕ) := do
  check (4 ≤ messageSize)
  let ansn ← readNtohU16 tail
  let _ ← readNtohU16 tail
  check ((messageSize - 4) % 4 = 0)
  let neighborAddresses ← many (readNtohU32 tail) ((messageSize - 4) / 4)
  return (.tc ansn neighborAddresses, messageSize)

def readAssociation : Parser HnaAssociation := do
  let address ← readNtohU32 tail
  let mask ← readNtohU32 tail
  return ⟨address, mask⟩

def deserializeHna (messageSize : ℕ) : Parser (Message × ℕ) := do
  check (messageSize % 8 = 0)
  let associations ← many (readAssociation tail) (messageSize / 4 / 2)
  return (.hna associations, messageSize)

def deserializeMessage (messageType : UInt8) (messageSize : ℕ) : Parser (Message × ℕ) :=
  if messageType = 3 then deserializeMid tail messageSize
  else if messageType = 1 then deserializeHello tail messageSize
  else if messageType = 2 then deserializeTc tail messageSize
  else if messageType = 4 then deserializeHna tail messageSize
  else stop .assertion

/-- The message, and the size that is returned. -/
def deserialize : Parser (MessageHeader × ℕ) := do
  let messageType ← readU8
  check (1 ≤ messageType.toNat ∧ messageType.toNat ≤ 4)
  let vTime ← readU8
  let messageSize ← readNtohU16 tail
  let originatorAddress ← readNtohU32 tail
  let timeToLive ← readU8
  let hopCount ← readU8
  let messageSequenceNumber ← readNtohU16 tail
  let (message, size) ← deserializeMessage tail messageType
    ((messageSize.toNat + 2 ^ 32 - 12) % 2 ^ 32)
  return (⟨vTime, originatorAddress, timeToLive, hopCount, messageSequenceNumber, message⟩,
    (12 + size) % 2 ^ 32)

/-- `RemoveHeader`: the packet loses as many bytes as `Deserialize` returns. -/
def removeHeader : Parser (MessageHeader × ℕ) where
  run bs :=
    match (deserialize tail).run bs with
    | (.ok (m, size), _) => (.ok (m, size), bs.drop size)
    | (o, rest) => (o, rest)
  suffix bs := by
    have h := (deserialize tail).suffix bs
    split
    · exact List.drop_suffix _ bs
    · rename_i heq
      rw [heq] at h
      exact h

/-- The loop of `RecvOlsr` over what is left of the packet, in at most `fuel` rounds. -/
def messageLoop : ℕ → ℕ → Parser (List MessageHeader)
  | 0, _ => stop .unfinished
  | fuel + 1, sizeLeft =>
    if sizeLeft = 0 then pure [] else do
      let (m, size) ← removeHeader tail
      check (size ≠ 0)
      let messages ← messageLoop fuel
        ((sizeLeft + 2 ^ 32 - m.getSerializedSize % 2 ^ 32) % 2 ^ 32)
      return m :: messages

/-- What `RecvOlsr` reads: the packet's sequence number and its messages. -/
def recvOlsr : Parser (UInt16 × List MessageHeader) := do
  let packetLength ← readNtohU16 tail
  let packetSequenceNumber ← readNtohU16 tail
  check (4 ≤ packetLength.toNat)
  let messages ← withLength fun length => messageLoop tail (length + 1) (packetLength.toNat - 4)
  return (packetSequenceNumber, messages)

end Deserialize

end Ns3.Olsr
