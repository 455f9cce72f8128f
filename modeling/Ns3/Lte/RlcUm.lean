import Ns3.Lib.StdMap
import Ns3.Lte.RlcHeader

/-!
# RLC unacknowledged mode

`lte-rlc-um.cc`: the transmission buffer, which `DoNotifyTxOpportunity` cuts and
concatenates into PDUs, and the reception buffer, from which PDUs are put
together again. A packet is its bytes, and its status tag where it has one. The
times at which SDUs came in, the reports of the buffer's status and the times of
the timers are left out; the reordering timer runs or does not. A function has
no result where it would read what is not there. What it delivers upward is the
second part of its result.
-/

namespace Ns3.Lte

open Ns3.Lib

/-- `LteRlcSduStatusTag`. -/
inductive SduStatus
  | fullSdu
  | firstSegment
  | middleSegment
  | lastSegment
  deriving DecidableEq

structure TxPdu where
  pdu : List UInt8
  status : SduStatus
  deriving DecidableEq

/-- A packet that begins with the first byte of an SDU. -/
def TxPdu.isFirst (p : TxPdu) : Bool := p.status = .fullSdu || p.status = .firstSegment

/-- A packet that ends with the last byte of an SDU. -/
def TxPdu.isLast (p : TxPdu) : Bool := p.status = .fullSdu || p.status = .lastSegment

inductive ReassemblingState
  | waitingS0Full
  | waitingSiSf
  deriving DecidableEq

structure LteRlcUm where
  maxTxBufferSize : UInt32
  txBufferSize : UInt32
  txBuffer : List TxPdu
  rxBuffer : StdMap ℕ (List UInt8)
  sdusBuffer : List (List UInt8)
  sequenceNumber : SequenceNumber10
  vrUr : SequenceNumber10
  vrUx : SequenceNumber10
  vrUh : SequenceNumber10
  reorderingTimer : Bool
  reassemblingState : ReassemblingState
  keepS0 : Option (List UInt8)
  expectedSeqNumber : SequenceNumber10

/-- `m_windowSize`. -/
def windowSize : ℕ := 512

namespace LteRlcUm

def new (maxTxBufferSize : UInt32) : LteRlcUm where
  maxTxBufferSize := maxTxBufferSize
  txBufferSize := 0
  txBuffer := []
  rxBuffer := .empty
  sdusBuffer := []
  sequenceNumber := .ofNat 0
  vrUr := .ofNat 0
  vrUx := .ofNat 0
  vrUh := .ofNat 0
  reorderingTimer := false
  reassemblingState := .waitingS0Full
  keepS0 := none
  expectedSeqNumber := .ofNat 0

def sizeOf (p : List UInt8) : UInt32 := UInt32.ofNat p.length

/-! ## Transmission -/

/-- `DoTransmitPdcpPdu` has room. -/
def Accepts (s : LteRlcUm) (p : List UInt8) : Prop := s.txBufferSize + sizeOf p ≤ s.maxTxBufferSize

instance (s : LteRlcUm) (p : List UInt8) : Decidable (s.Accepts p) :=
  inferInstanceAs (Decidable (_ ≤ _))

def transmitPdcpPdu (s : LteRlcUm) (p : List UInt8) : LteRlcUm :=
  if s.Accepts p then
    { s with
      txBuffer := s.txBuffer ++ [⟨p, .fullSdu⟩]
      txBufferSize := s.txBufferSize + sizeOf p }
  else s

/-- The tags of the two parts when an SDU, or what is left of one, is cut. -/
def cutTags : SduStatus → SduStatus × SduStatus
  | .fullSdu => (.firstSegment, .lastSegment)
  | .lastSegment => (.middleSegment, .lastSegment)
  | .firstSegment => (.firstSegment, .firstSegment)
  | .middleSegment => (.middleSegment, .middleSegment)

/-- The tag of the first part when nothing is left for the second. -/
def wholeTag : SduStatus → SduStatus
  | .firstSegment => .fullSdu
  | .middleSegment => .lastSegment
  | .fullSdu => .fullSdu
  | .lastSegment => .lastSegment

/-- What the loop of `DoNotifyTxOpportunity` changes. -/
structure Segments where
  dataField : List TxPdu
  rlcHeader : LteRlcHeader
  txBuffer : List TxPdu
  txBufferSize : UInt32
  deriving DecidableEq

/-- A segment is the last one of the data field: what does not fit is given back. -/
def cutSegment (firstSegment : TxPdu) (nextSegmentSize : ℕ) (t : Segments) : Segments :=
  let currSegmentSize := min firstSegment.pdu.length nextSegmentSize
  let newSegment := firstSegment.pdu.take currSegmentSize
  let rest := firstSegment.pdu.drop currSegmentSize
  let (newTag, oldTag) := cutTags firstSegment.status
  let rlcHeader := t.rlcHeader.pushExtensionBit dataFieldFollows
  if 0 < rest.length then
    ⟨t.dataField ++ [⟨newSegment, newTag⟩], rlcHeader, ⟨rest, oldTag⟩ :: t.txBuffer,
      t.txBufferSize + sizeOf rest⟩
  else ⟨t.dataField ++ [⟨newSegment, wholeTag newTag⟩], rlcHeader, t.txBuffer, t.txBufferSize⟩

/-- The loop of `DoNotifyTxOpportunity`; `nextSegmentSize` never goes below zero. -/
def segmentLoop : List TxPdu → TxPdu → ℕ → ℕ → UInt32 → List TxPdu → LteRlcHeader → Segments
  | txBuffer, firstSegment, nextSegmentSize, nextSegmentId, txBufferSize, dataField, rlcHeader =>
    if 0 < firstSegment.pdu.length ∧ 0 < nextSegmentSize then
      if nextSegmentSize < firstSegment.pdu.length ∨ 2047 < firstSegment.pdu.length then
        cutSegment firstSegment nextSegmentSize ⟨dataField, rlcHeader, txBuffer, txBufferSize⟩
      else if nextSegmentSize - firstSegment.pdu.length ≤ 2 then
        ⟨dataField ++ [firstSegment], rlcHeader.pushExtensionBit dataFieldFollows, txBuffer,
          txBufferSize⟩
      else
        match txBuffer with
        | [] =>
          ⟨dataField ++ [firstSegment], rlcHeader.pushExtensionBit dataFieldFollows, [],
            txBufferSize⟩
        | next :: txBuffer =>
          segmentLoop txBuffer next
            (nextSegmentSize - ((if nextSegmentId % 2 = 1 then 2 else 1) + firstSegment.pdu.length))
            (nextSegmentId + 1) (txBufferSize - sizeOf next.pdu) (dataField ++ [firstSegment])
            ((rlcHeader.pushExtensionBit eLiFieldsFollows).pushLengthIndicator
              (UInt16.ofNat firstSegment.pdu.length))
    else ⟨dataField, rlcHeader, txBuffer, txBufferSize⟩

/-- `FIRST_BYTE` or `NO_FIRST_BYTE`, and `LAST_BYTE` or `NO_LAST_BYTE`. -/
def framingInfo (first last : Bool) : UInt8 :=
  (if first = true then 0x00 else 0x02) ||| if last = true then 0x00 else 0x01

/-- `AddHeader`: the header is written into as many bytes as it says it has. -/
def addHeader (rlcHeader : LteRlcHeader) (packet : List UInt8) : Option (List UInt8) :=
  if rlcHeader.serialize.length = rlcHeader.headerLength.toNat then
    some (rlcHeader.serialize ++ packet)
  else none

/-- `DoNotifyTxOpportunity`, with the PDU for the MAC if there is one. -/
def notifyTxOpportunity (s : LteRlcUm) (bytes : ℕ) : Option (LteRlcUm × Option (List UInt8)) :=
  if bytes ≤ 2 then some (s, none)
  else
    match s.txBuffer with
    | [] => some (s, none)
    | firstSegment :: txBuffer => do
      let t := segmentLoop txBuffer firstSegment (bytes - 2) 1
        (s.txBufferSize - sizeOf firstSegment.pdu) [] .new
      let front ← t.dataField.head?
      let back ← t.dataField.getLast?
      let rlcHeader := (t.rlcHeader.setSequenceNumber s.sequenceNumber).setFramingInfo
        (framingInfo front.isFirst back.isLast)
      let pdu ← addHeader rlcHeader (t.dataField.flatMap TxPdu.pdu)
      return ({ s with
        txBuffer := t.txBuffer
        txBufferSize := t.txBufferSize
        sequenceNumber := s.sequenceNumber.add 1 }, some pdu)

/-! ## Reception -/

/-- `IsInsideReorderingWindow`, which moves the modulus base of VR(UH). -/
def isInsideReorderingWindow (s : LteRlcUm) (seqNumber : SequenceNumber10) : Bool × LteRlcUm :=
  let vrUh := s.vrUh.setModulusBase (s.vrUh.sub windowSize)
  let seqNumber := seqNumber.setModulusBase (vrUh.sub windowSize)
  ((vrUh.sub windowSize).Le seqNumber ∧ seqNumber.Lt vrUh, { s with vrUh := vrUh })

/-- The loop of `ReassembleAndDeliver` that takes the data field apart. -/
def splitDataField : List UInt8 → List UInt16 → List UInt8 → Option (List (List UInt8))
  | [], _, _ => none
  | extensionBit :: bits, lis, packet =>
    if extensionBit = dataFieldFollows then some [packet]
    else
      match lis with
      | [] => none
      | lengthIndicator :: lis =>
        if lengthIndicator.toNat ≤ packet.length then
          if extensionBit = eLiFieldsFollows then do
            let sdus ← splitDataField bits lis (packet.drop lengthIndicator.toNat)
            return packet.take lengthIndicator.toNat :: sdus
          else some [packet.take lengthIndicator.toNat]
        else none

/-- All but the last segment are delivered, and the last one is kept. -/
def keepLast (s : LteRlcUm) : Option (LteRlcUm × List (List UInt8)) := do
  let s0 ← s.sdusBuffer.getLast?
  return ({ s with keepS0 := some s0, sdusBuffer := [] }, s.sdusBuffer.dropLast)

/-- The first segment of the list. -/
def popFront (s : LteRlcUm) : Option (List UInt8 × LteRlcUm) := do
  let front ← s.sdusBuffer.head?
  return (front, { s with sdusBuffer := s.sdusBuffer.tail })

/-- The cases of a switch over the framing information that do not go on with what is kept: they
are the same in `WAITING_S0_FULL`, with and without losses, and in `WAITING_SI_SF` with losses,
where what is kept is discarded before. -/
def reassembleAnew (s : LteRlcUm) (framing : UInt8) : Option (LteRlcUm × List (List UInt8)) :=
  if framing = framingInfo true true then
    some ({ s with reassemblingState := .waitingS0Full, sdusBuffer := [] }, s.sdusBuffer)
  else if framing = framingInfo true false then
    keepLast { s with reassemblingState := .waitingSiSf }
  else if framing = framingInfo false true then do
    let (_, s) ← popFront { s with reassemblingState := .waitingS0Full }
    return ({ s with sdusBuffer := [] }, s.sdusBuffer)
  else if framing = framingInfo false false then do
    let state := if s.sdusBuffer.length = 1 then .waitingS0Full else .waitingSiSf
    let (_, s) ← popFront { s with reassemblingState := state }
    if 0 < s.sdusBuffer.length then keepLast s else return (s, [])
  else some (s, [])

/-- The switch of `WAITING_SI_SF` without losses. -/
def reassembleOn (s : LteRlcUm) (framing : UInt8) : Option (LteRlcUm × List (List UInt8)) :=
  if framing = framingInfo false true then do
    let s0 ← s.keepS0
    let (si, s) ← popFront { s with reassemblingState := .waitingS0Full }
    return ({ s with keepS0 := some (s0 ++ si), sdusBuffer := [] }, (s0 ++ si) :: s.sdusBuffer)
  else if framing = framingInfo false false then do
    let s0 ← s.keepS0
    let single := s.sdusBuffer.length = 1
    let (si, s) ← popFront { s with reassemblingState := .waitingSiSf }
    if single then return ({ s with keepS0 := some (s0 ++ si) }, [])
    else do
      let (s, out) ← keepLast s
      return (s, (s0 ++ si) :: out)
  else some (s, [])

/-- The two switches of `ReassembleAndDeliver`. -/
def reassemble (s : LteRlcUm) (expectedSnLost : Bool) (framing : UInt8) :
    Option (LteRlcUm × List (List UInt8)) :=
  match s.reassemblingState with
  | .waitingS0Full => s.reassembleAnew framing
  | .waitingSiSf =>
    if expectedSnLost = false then s.reassembleOn framing
    else if framing ≤ framingInfo false false then { s with keepS0 := none }.reassembleAnew framing
    else some (s, [])

/-- `PeekHeader`. -/
def peekHeader (packet : List UInt8) : Option LteRlcHeader :=
  match LteRlcHeader.deserialize.run packet with
  | (.ok rlcHeader, _) => some rlcHeader
  | _ => none

def reassembleAndDeliver (s : LteRlcUm) (packet : List UInt8) :
    Option (LteRlcUm × List (List UInt8)) := do
  let rlcHeader ← peekHeader packet
  let packet := packet.drop rlcHeader.headerLength.toNat
  let expectedSnLost : Bool := rlcHeader.sequenceNumber.value ≠ s.expectedSeqNumber.value
  let expectedSeqNumber :=
    if expectedSnLost = true then rlcHeader.sequenceNumber.add 1 else s.expectedSeqNumber.add 1
  let sdus ← splitDataField rlcHeader.extensionBits rlcHeader.lengthIndicators packet
  { s with
    expectedSeqNumber := expectedSeqNumber
    sdusBuffer := s.sdusBuffer ++ sdus }.reassemble expectedSnLost rlcHeader.framingInfo

/-- `ReassembleOutsideWindow`, over what is left of the reception buffer. -/
def reassembleOutsideWindow : List (ℕ × List UInt8) → LteRlcUm →
    Option (LteRlcUm × List (List UInt8))
  | [], s => some (s, [])
  | (sn, packet) :: entries, s =>
    let (inside, s) := s.isInsideReorderingWindow (.ofNat sn)
    if inside = true then some (s, [])
    else do
      let (s, out) ← s.reassembleAndDeliver packet
      let (s, out') ← reassembleOutsideWindow entries { s with rxBuffer := s.rxBuffer.erase sn }
      return (s, out ++ out')

/-- `ReassembleSnInterval`. The numbers come round to the upper one within 1024 rounds. -/
def reassembleSnInterval : ℕ → SequenceNumber10 → SequenceNumber10 → LteRlcUm →
    Option (LteRlcUm × List (List UInt8))
  | 0, _, _, _ => none
  | fuel + 1, reassembleSn, highSeqNumber, s =>
    if reassembleSn.Lt highSeqNumber then
      match s.rxBuffer.find reassembleSn.value.toNat with
      | some packet => do
        let (s, out) ← s.reassembleAndDeliver packet
        let (s, out') ← reassembleSnInterval fuel (reassembleSn.add 1) highSeqNumber
          { s with rxBuffer := s.rxBuffer.erase reassembleSn.value.toNat }
        return (s, out ++ out')
      | none => reassembleSnInterval fuel (reassembleSn.add 1) highSeqNumber s
    else some (s, [])

/-- The rounds of `ReassembleSnInterval`. -/
def snRounds : ℕ := 1025

/-- The first number from `newVrUr` on that is not in the reception buffer. -/
def firstMissing (rxBuffer : StdMap ℕ (List UInt8)) : ℕ → ℕ → ℕ
  | 0, newVrUr => newVrUr
  | fuel + 1, newVrUr =>
    if rxBuffer.contains newVrUr = true then firstMissing rxBuffer fuel (newVrUr + 1) else newVrUr

/-- The end of `DoReceivePdu`, which stops and starts the reordering timer. -/
def updateReorderingTimer (s : LteRlcUm) : LteRlcUm :=
  let base := s.vrUh.sub windowSize
  let s := { s with
    vrUr := s.vrUr.setModulusBase base
    vrUx := s.vrUx.setModulusBase base
    vrUh := s.vrUh.setModulusBase base }
  let s :=
    if s.reorderingTimer = true ∧ (s.vrUx.Le s.vrUr ∨
        (s.isInsideReorderingWindow s.vrUx).1 = false ∧ s.vrUx.value ≠ s.vrUh.value) then
      { s with reorderingTimer := false }
    else s
  if s.reorderingTimer = false ∧ s.vrUh.Gt s.vrUr then
    { s with reorderingTimer := true, vrUx := s.vrUh }
  else s

/-- The part of `DoReceivePdu` for a number outside of the reordering window. -/
def moveWindow (s : LteRlcUm) (seqNumber : SequenceNumber10) :
    Option (LteRlcUm × List (List UInt8)) :=
  let (inside, s) := s.isInsideReorderingWindow seqNumber
  if inside = true then some (s, [])
  else do
    let (s, out) ← reassembleOutsideWindow s.rxBuffer.entries { s with vrUh := seqNumber.add 1 }
    let (inside, s) := s.isInsideReorderingWindow s.vrUr
    return (if inside = true then s else { s with vrUr := s.vrUh.sub windowSize }, out)

/-- The part of `DoReceivePdu` for a reception buffer with the PDU numbered VR(UR). -/
def deliverInOrder (s : LteRlcUm) : Option (LteRlcUm × List (List UInt8)) :=
  if s.rxBuffer.contains s.vrUr.value.toNat = true then
    let newVrUr := firstMissing s.rxBuffer s.rxBuffer.size (s.vrUr.value.toNat + 1)
    let vrUr := { s.vrUr with value := BitVec.ofNat 10 newVrUr }
    reassembleSnInterval snRounds s.vrUr vrUr { s with vrUr := vrUr }
  else some (s, [])

/-- `DoReceivePdu`. -/
def receivePdu (s : LteRlcUm) (p : List UInt8) : Option (LteRlcUm × List (List UInt8)) := do
  let rlcHeader ← peekHeader p
  let base := s.vrUh.sub windowSize
  let s := { s with vrUr := s.vrUr.setModulusBase base, vrUh := s.vrUh.setModulusBase base }
  let seqNumber := rlcHeader.sequenceNumber.setModulusBase (s.vrUh.sub windowSize)
  if s.vrUr.Lt seqNumber ∧ seqNumber.Lt s.vrUh ∧
      s.rxBuffer.contains seqNumber.value.toNat = true ∨
      (s.vrUh.sub windowSize).Le seqNumber ∧ seqNumber.Lt s.vrUr then
    return (s, [])
  else do
    let s := { s with rxBuffer := s.rxBuffer.assign seqNumber.value.toNat p }
    let (s, out) ← s.moveWindow seqNumber
    let (s, out') ← s.deliverInOrder
    return (s.updateReorderingTimer, out ++ out')

/-- The first number from `newVrUr` on, around the end of the numbers, that is not in the reception
buffer. -/
def firstMissingAround (rxBuffer : StdMap ℕ (List UInt8)) : ℕ → SequenceNumber10 →
    Option SequenceNumber10
  | 0, _ => none
  | fuel + 1, newVrUr =>
    if rxBuffer.contains newVrUr.value.toNat = true then
      firstMissingAround rxBuffer fuel (newVrUr.add 1)
    else some newVrUr

/-- `ExpireReorderingTimer`. -/
def expireReorderingTimer (s : LteRlcUm) : Option (LteRlcUm × List (List UInt8)) := do
  let newVrUr ← firstMissingAround s.rxBuffer snRounds s.vrUx
  let (s, out) ← reassembleSnInterval snRounds s.vrUr newVrUr { s with
    reorderingTimer := false
    vrUr := newVrUr }
  return (if s.vrUh.Gt s.vrUr then { s with reorderingTimer := true, vrUx := s.vrUh } else s, out)

end LteRlcUm

end Ns3.Lte
