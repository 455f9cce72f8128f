import Ns3.Internet.TcpTxItems

/-!
# The bytes of a TCP transmit buffer

The operations of `tcp-tx-buffer.cc` that move bytes or flags of items. One that
stops the program, or uses a null pointer, has no result. The time at which an
item was sent, and the callbacks, are left out.
-/

namespace Ns3.Internet

open Ns3.Network
open SequenceNumber

structure TcpTxStream extends TcpTxBuffer where
  maxBuffer : BitVec 32
  startSeq : ℕ → SequenceNumber32
  nextRef : ℕ

namespace TcpTxStream

open TcpTxBuffer (ItemList)
open TcpTxBuffer.ItemList

/-- The constructor. -/
def new (n : BitVec 32) : TcpTxStream where
  appList := []
  sentList := []
  size := 0
  sentSize := 0
  firstByteSeq := n
  highestSack := (none, 0)
  lostOut := 0
  sackedOut := 0
  retrans := 0
  dupAckThresh := 0
  segmentSize := 0
  maxBuffer := 32768
  startSeq := fun _ => 0
  nextRef := 0

def available (b : TcpTxStream) : BitVec 32 := b.maxBuffer - b.size

def add (b : TcpTxStream) (p : Packet) : Bool × TcpTxStream :=
  if p.getSize ≤ b.available then
    if 0 < p.getSize then
      (true, { b with
        appList := b.appList ++
          [{ ref := b.nextRef, packet := p, retrans := false, lost := false, sacked := false }]
        size := b.size + p.getSize
        startSeq := Function.update b.startSeq b.nextRef 0
        nextRef := b.nextRef + 1 })
    else (true, b)
  else (false, b)

/-! ## Copying -/

/-- One of the two lists. -/
def itemList (b : TcpTxStream) (items : List TcpTxItem) : ItemList :=
  ⟨items, b.retrans, b.startSeq, b.nextRef⟩

def getNewSegment (b : TcpTxStream) (numBytes : BitVec 32) : Option (TcpTxItem × TcpTxStream) :=
  let startOfAppList := b.firstByteSeq + b.sentSize
  match getPacketFromList startOfAppList numBytes startOfAppList (b.appList.length + 1)
    (b.itemList b.appList) with
  | none => none
  | some (item, l) =>
    some (item, { b with
      appList := l.items.eraseP fun i => i.ref = item.ref
      sentList := b.sentList ++ [item]
      sentSize := b.sentSize + item.packet.getSize
      retrans := l.retrans
      startSeq := Function.update l.startSeq item.ref startOfAppList
      nextRef := l.nextRef })

/-- `std::min`. -/
def least (m n : BitVec 32) : BitVec 32 := if n < m then n else m

/-- The loop of `GetTransmittedSegment`: at most the item and the next one, if they have the same
flags. -/
def transmittedSize (startSeq : ℕ → SequenceNumber32) (numBytes : BitVec 32)
    (seq : SequenceNumber32) : List TcpTxItem → BitVec 32
  | [] => numBytes
  | item :: items =>
    if startSeq item.ref = seq then
      match items with
      | [] => least numBytes item.packet.getSize
      | next :: _ =>
        if next.sacked = false ∧ item.lost = next.lost then
          least numBytes (item.packet.getSize + next.packet.getSize)
        else least numBytes item.packet.getSize
    else transmittedSize startSeq numBytes seq items

def getTransmittedSegment (b : TcpTxStream) (numBytes : BitVec 32) (seq : SequenceNumber32) :
    Option (TcpTxItem × TcpTxStream) :=
  match getPacketFromList b.firstByteSeq (transmittedSize b.startSeq numBytes seq b.sentList) seq
    (b.sentList.length + 1) (b.itemList b.sentList) with
  | none => none
  | some (item, l) =>
    let b := { b with
      sentList := l.items
      retrans := l.retrans
      startSeq := l.startSeq
      nextRef := l.nextRef }
    if item.retrans = false then
      some ({ item with retrans := true }, { b with
        sentList := b.sentList.map fun i =>
          if i.ref = item.ref then { i with retrans := true } else i
        retrans := b.retrans + item.packet.getSize })
    else some (item, b)

/-- `CopyFromSequence`, which calls itself at most once. The null pointer is no item. -/
def copyFromSequence (b : TcpTxStream) (seq : SequenceNumber32) : ℕ → BitVec 32 →
    Option (Option TcpTxItem × TcpTxStream)
  | 0, _ => none
  | fuel + 1, numBytes =>
    if Gt b.firstByteSeq seq then none
    else
      let s := least numBytes (b.sizeFromSequence seq)
      let sent := b.firstByteSeq + b.sentSize
      if s = 0 then some (none, b)
      else if Ge sent (seq + s) then
        (b.getTransmittedSegment s seq).map fun r => (some r.1, r.2)
      else if Le sent seq then
        if sent = seq then (b.getNewSegment s).map fun r => (some r.1, r.2) else none
      -- the values are compared here, not the sequence numbers
      else if seq < sent ∧ sent < seq + s then copyFromSequence b seq fuel (sent - seq)
      else none

/-! ## Marks -/

def markHeadAsLost (b : TcpTxStream) : TcpTxStream :=
  match b.sentList with
  | [] => b
  | head :: items =>
    { b with
      sentList := { head with sacked := false, retrans := false, lost := true } :: items
      sackedOut := if head.sacked = true then b.sackedOut - head.packet.getSize else b.sackedOut
      retrans := if head.retrans = true then b.retrans - head.packet.getSize else b.retrans
      lostOut := if head.lost = false then b.lostOut + head.packet.getSize else b.lostOut }

/-- The first item that is not sacked gets so. -/
def sackFirst : List TcpTxItem → Option (List TcpTxItem × TcpTxItem)
  | [] => none
  | item :: items =>
    if item.sacked = true then
      match sackFirst items with
      | none => none
      | some (items, found) => some (item :: items, found)
    else some ({ item with sacked := true } :: items, item)

def addRenoSack (b : TcpTxStream) : TcpTxStream :=
  match b.sentList with
  | [] => b
  | head :: items =>
    match sackFirst items with
    | none => b
    | some (items, item) =>
      { b with
        sentList := head :: items
        sackedOut := b.sackedOut + item.packet.getSize
        highestSack := (some item.ref, b.startSeq item.ref) }

def resetRenoSack (b : TcpTxStream) : TcpTxStream :=
  { b with
    sackedOut := 0
    sentList := b.sentList.map fun item => { item with sacked := false }
    highestSack := (none, 0) }

def setSentListLost (b : TcpTxStream) (resetSack : Bool) : TcpTxStream :=
  if resetSack = true then
    { b with
      retrans := 0
      sackedOut := 0
      lostOut := b.sentSize
      highestSack := (none, 0)
      sentList := b.sentList.map fun item =>
        { item with sacked := false, lost := true, retrans := false } }
  else
    { b with
      retrans := 0
      lostOut := (b.sentList.map fun item =>
        if item.lost = true ∨ item.sacked = false then item.packet.getSize else 0).sum
      sentList := b.sentList.map fun item =>
        { item with
          lost := item.lost || !item.sacked
          retrans := false } }

def deleteRetransmittedFlagFromHead (b : TcpTxStream) : TcpTxStream :=
  if b.sentSize = 0 then b
  else
    match b.sentList with
    | [] => b
    | head :: items =>
      if head.retrans = true then
        { b with
          sentList := { head with retrans := false } :: items
          retrans := b.retrans - head.packet.getSize }
      else b

/-! ## Moving items back -/

def resetSentList (b : TcpTxStream) : TcpTxStream :=
  { b with
    appList := b.sentList.map (fun item =>
      { item with retrans := false, sacked := false, lost := false }) ++ b.appList
    sentList := []
    sentSize := 0
    lostOut := 0
    retrans := 0
    sackedOut := 0
    highestSack := (none, 0) }

def resetLastSegmentSent (b : TcpTxStream) : TcpTxStream :=
  match b.sentList.getLast? with
  | none => b
  | some item =>
    { b with
      sentList := b.sentList.dropLast
      sentSize := b.sentSize - item.packet.getSize
      retrans := if item.retrans = true then b.retrans - item.packet.getSize else b.retrans
      appList := item :: b.appList }

/-! ## Discarding -/

def removeFromCounts (b : TcpTxStream) (item : TcpTxItem) (size : BitVec 32) : TcpTxStream :=
  { b with
    sackedOut := if item.sacked = true then b.sackedOut - size else b.sackedOut
    retrans := if item.retrans = true then b.retrans - size else b.retrans
    lostOut := if item.lost = true then b.lostOut - size else b.lostOut }

/-- Bytes are taken off the head of the sent list, which is then `items`. -/
def removeHead (b : TcpTxStream) (item : TcpTxItem) (size : BitVec 32) (items : List TcpTxItem) :
    TcpTxStream :=
  removeFromCounts { b with
    size := b.size - size
    sentSize := b.sentSize - size
    firstByteSeq := b.firstByteSeq + size
    sentList := items } item size

/-- The first bytes of the head of the sent list are taken off. -/
def cutHead (b : TcpTxStream) (item : TcpTxItem) (offset : BitVec 32) (items : List TcpTxItem) :
    TcpTxStream :=
  let rest :=
    { item with packet := item.packet.createFragment offset (item.packet.getSize - offset) }
  { (b.removeHead item offset (rest :: items)) with
    startSeq := Function.update b.startSeq item.ref (b.startSeq item.ref + offset) }

/-- The head of the sent list is there, or moved there from the other list. -/
def fillSentList (b : TcpTxStream) (offset : BitVec 32) : Option TcpTxStream :=
  match b.sentList with
  | [] =>
    match b.copyFromSequence b.firstByteSeq 2 offset with
    | some (some _, b) => some b
    | _ => none
  | _ :: _ => some b

/-- The loop of `DiscardUpTo`. -/
def discardLoop : ℕ → BitVec 32 → TcpTxStream → Option TcpTxStream
  | 0, _, _ => none
  | fuel + 1, offset, b =>
    if 0 < b.size ∧ 0 < offset then
      match b.fillSentList offset with
      | none => none
      | some b =>
        match b.sentList with
        | [] => none
        | item :: items =>
          let pktSize := item.packet.getSize
          if pktSize ≤ offset then
            discardLoop fuel (offset - pktSize) (b.removeHead item pktSize items)
          else
            some (b.cutHead item offset items)
    else some b

/-- The SACK flag of the head is moved to another item. -/
def moveHeadSack (b : TcpTxStream) : TcpTxStream :=
  match b.sentList with
  | [] => b
  | head :: items =>
    if head.sacked = true then
      (addRenoSack { b with
        sentList := { head with sacked := false } :: items
        sackedOut := b.sackedOut - head.packet.getSize }).markHeadAsLost
    else b

def discardUpTo (b : TcpTxStream) (seq : SequenceNumber32) : Option TcpTxStream :=
  if Ge b.firstByteSeq seq then some b
  else
    match discardLoop (b.sentList.length + 2) (seq - b.firstByteSeq) b with
    | none => none
    | some b =>
      let b := if b.size = 0 then { b with firstByteSeq := seq } else b
      let b := b.moveHeadSack
      some (if Le b.highestSack.2 b.firstByteSeq then { b with highestSack := (none, 0) } else b)

end TcpTxStream

end Ns3.Internet
