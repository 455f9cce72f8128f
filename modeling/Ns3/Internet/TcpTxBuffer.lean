import Ns3.Internet.TcpRxBuffer

/-!
# The TCP transmit buffer

`tcp-tx-buffer.cc`: the scoreboard of the sent items, and the items that are not
sent. An item has a number of its own, which stands for its place in a list, as
an iterator does; the end of a list has none. An assertion is not checked, as in
a build without them. The time at which an item was sent is left out.
-/

namespace Ns3.Internet

open Ns3.Network
open SequenceNumber

structure TcpTxItem where
  ref : ℕ
  packet : Packet
  retrans : Bool
  lost : Bool
  sacked : Bool
  deriving DecidableEq

structure TcpTxBuffer where
  appList : List TcpTxItem
  sentList : List TcpTxItem
  size : BitVec 32
  sentSize : BitVec 32
  firstByteSeq : SequenceNumber32
  highestSack : Option ℕ × SequenceNumber32
  lostOut : BitVec 32
  sackedOut : BitVec 32
  retrans : BitVec 32
  dupAckThresh : ℕ
  segmentSize : BitVec 32
  deriving DecidableEq

namespace TcpTxBuffer

def tailSequence (b : TcpTxBuffer) : SequenceNumber32 := b.firstByteSeq + b.size

def sizeFromSequence (b : TcpTxBuffer) (seq : SequenceNumber32) : BitVec 32 :=
  if Ge b.tailSequence seq then b.tailSequence - seq else 0

/-! ## `NextSeg` -/

/-- The loop of `NextSeg`: the sequence number of a lost item, or `seqPerRule3` and whether it is
valid. -/
def nextSegLoop (isRecovery : Bool) : List TcpTxItem → SequenceNumber32 → SequenceNumber32 → Bool →
    SequenceNumber32 ⊕ SequenceNumber32 × Bool
  | [], _, seqPerRule3, isSeqPerRule3Valid => .inr (seqPerRule3, isSeqPerRule3Valid)
  | item :: items, beginOfCurrentPkt, seqPerRule3, isSeqPerRule3Valid =>
    let next := beginOfCurrentPkt + item.packet.getSize
    if item.retrans = false ∧ item.sacked = false then
      if item.lost = true then .inl beginOfCurrentPkt
      else if seqPerRule3 = 0 ∧ isRecovery = true then
        nextSegLoop isRecovery items next beginOfCurrentPkt true
      else nextSegLoop isRecovery items next seqPerRule3 isSeqPerRule3Valid
    else nextSegLoop isRecovery items next seqPerRule3 isSeqPerRule3Valid

/-- `NextSeg`, for the receive window that the callback gives: `seq` and `seqHigh`, if it returns
true. -/
def nextSeg (b : TcpTxBuffer) (rWnd : BitVec 32) (isRecovery : Bool) :
    Option (SequenceNumber32 × SequenceNumber32) :=
  match nextSegLoop isRecovery b.sentList b.firstByteSeq 0 false with
  | .inl seq => some (seq, seq + b.segmentSize)
  | .inr (seqPerRule3, isSeqPerRule3Valid) =>
    if 0 < b.sizeFromSequence (b.firstByteSeq + b.sentSize) then
      if b.sentSize ≤ rWnd then
        let seq := b.firstByteSeq + b.sentSize
        let room := rWnd - b.sentSize
        some (seq, seq + if room < b.segmentSize then room else b.segmentSize)
      else none
    else if isSeqPerRule3Valid = true then some (seqPerRule3, seqPerRule3 + b.segmentSize)
    else none

/-! ## `Update` -/

/-- The loop of `FindHighestSacked`. -/
def findHighestSackedLoop : List TcpTxItem → SequenceNumber32 → Option ℕ × SequenceNumber32 →
    Option ℕ × SequenceNumber32
  | [], _, ret => ret
  | item :: items, beginOfCurrentPacket, ret =>
    findHighestSackedLoop items (beginOfCurrentPacket + item.packet.getSize)
      (if item.sacked = true then (some item.ref, beginOfCurrentPacket) else ret)

def findHighestSacked (b : TcpTxBuffer) : Option ℕ × SequenceNumber32 :=
  findHighestSackedLoop b.sentList b.firstByteSeq (none, 0)

/-- The counts that `Update` changes. -/
structure SackCounts where
  lostOut : BitVec 32
  sackedOut : BitVec 32
  bytesSacked : BitVec 32
  highestSack : Option ℕ × SequenceNumber32
  deriving DecidableEq

/-- An item that begins at `beginOfCurrentPacket` gets sacked. -/
def SackCounts.sack (t : SackCounts) (item : TcpTxItem) (beginOfCurrentPacket : SequenceNumber32) :
    SackCounts where
  lostOut := if item.lost = true then t.lostOut - item.packet.getSize else t.lostOut
  sackedOut := t.sackedOut + item.packet.getSize
  bytesSacked := t.bytesSacked + item.packet.getSize
  highestSack :=
    if t.highestSack.1 = none ∨ Le t.highestSack.2 (beginOfCurrentPacket + item.packet.getSize) then
      (some item.ref, beginOfCurrentPacket)
    else t.highestSack

/-- The loop of `Update` over the sent items, for one block. -/
def sackItems (block : SackBlock) : List TcpTxItem → SequenceNumber32 → SackCounts →
    List TcpTxItem × SackCounts
  | [], _, t => ([], t)
  | item :: items, beginOfCurrentPacket, t =>
    let next := beginOfCurrentPacket + item.packet.getSize
    if Ge beginOfCurrentPacket block.1 ∧ Le next block.2 then
      if item.sacked = true then
        let r := sackItems block items next t
        (item :: r.1, r.2)
      else
        let r := sackItems block items next (t.sack item beginOfCurrentPacket)
        ({ item with lost := false, sacked := true } :: r.1, r.2)
    else if Gt next block.2 then (item :: items, t)
    else
      let r := sackItems block items next t
      (item :: r.1, r.2)

/-- The loop of `UpdateLostCount`, from the highest sacked item down, and the number of sacked items
that it has met. -/
def markLost (dupAckThresh : ℕ) : List TcpTxItem → ℕ → BitVec 32 →
    List TcpTxItem × ℕ × BitVec 32
  | [], sacked, lostOut => ([], sacked, lostOut)
  | item :: items, sacked, lostOut =>
    let sacked := if item.sacked = true then sacked + 1 else sacked
    if dupAckThresh ≤ sacked ∧ item.sacked = false ∧ item.lost = false then
      let r := markLost dupAckThresh items sacked (lostOut + item.packet.getSize)
      ({ item with lost := true } :: r.1, r.2)
    else
      let r := markLost dupAckThresh items sacked lostOut
      (item :: r.1, r.2)

/-- The items up to the one with this number, and those after it. -/
def splitAfter (ref : ℕ) (items : List TcpTxItem) : List TcpTxItem × List TcpTxItem :=
  items.splitAt (items.findIdx (fun item => item.ref = ref) + 1)

/-- `UpdateLostCount`; it is called when there is a highest sacked item. -/
def updateLostCount (b : TcpTxBuffer) : TcpTxBuffer :=
  match b.highestSack.1 with
  | none => b
  | some ref =>
    match splitAfter ref b.sentList with
    | ([], _) => b
    | (head :: items, above) =>
      let (items, sacked, lostOut) := markLost b.dupAckThresh items.reverse 0 b.lostOut
      if b.dupAckThresh ≤ sacked ∧ head.lost = false then
        { b with
          sentList := { head with lost := true } :: items.reverse ++ above
          lostOut := lostOut + head.packet.getSize }
      else { b with sentList := head :: items.reverse ++ above, lostOut := lostOut }

/-- The loop of `Update` over the blocks; it ends with the first one that is outside the sent list,
which the flag says. -/
def sackBlocks (b : TcpTxBuffer) : List SackBlock → List TcpTxItem → SackCounts →
    Bool × List TcpTxItem × SackCounts
  | [], items, t => (true, items, t)
  | block :: list, items, t =>
    if Lt (b.firstByteSeq + b.sentSize) block.1 then (false, items, t)
    else
      let r := sackItems block items b.firstByteSeq t
      sackBlocks b list r.1 r.2

/-- `Update`: the bytes that are newly sacked, and the buffer. -/
def update (list : List SackBlock) (b : TcpTxBuffer) : BitVec 32 × TcpTxBuffer :=
  let (all, items, t) := b.sackBlocks list b.sentList ⟨b.lostOut, b.sackedOut, 0, b.highestSack⟩
  let b := { b with
    sentList := items
    lostOut := t.lostOut
    sackedOut := t.sackedOut
    highestSack := t.highestSack }
  (t.bytesSacked, if all = true ∧ 0 < t.bytesSacked then b.updateLostCount else b)

end TcpTxBuffer

end Ns3.Internet
