import Ns3.Network.SequenceNumber
import Ns3.Network.Packet

/-!
# The TCP receive buffer

`tcp-rx-buffer.cc`. `m_data` is the list of its keys and packets in the order
of `operator <`. An assertion is not checked, as in a build without them: the
program goes on.
-/

namespace Ns3.Internet

open Ns3.Network
open SequenceNumber

/-- `TcpOptionSack::SackBlock`. -/
abbrev SackBlock := SequenceNumber32 × SequenceNumber32

structure TcpRxBuffer where
  nextRxSeq : SequenceNumber32
  finSeq : SequenceNumber32
  gotFin : Bool
  size : BitVec 32
  maxBuffer : BitVec 32
  availBytes : BitVec 32
  data : List (SequenceNumber32 × Packet)
  sackList : List SackBlock
  deriving DecidableEq

namespace TcpRxBuffer

/-- The constructor. -/
def new (n : BitVec 32) : TcpRxBuffer where
  nextRxSeq := n
  finSeq := 0
  gotFin := false
  size := 0
  maxBuffer := 32768
  availBytes := 0
  data := []
  sackList := []

def setMaxBufferSize (b : TcpRxBuffer) (s : BitVec 32) : TcpRxBuffer := { b with maxBuffer := s }

/-- `SetFinSequence`. -/
def setFinSequence (b : TcpRxBuffer) (s : SequenceNumber32) : TcpRxBuffer :=
  let b := { b with gotFin := true, finSeq := s }
  if b.nextRxSeq = b.finSeq then { b with nextRxSeq := b.nextRxSeq + 1 } else b

/-! ## The SACK list -/

/-- The loop of `UpdateSackList`: `begin` is the first block, and the blocks in `passed` touch
it on neither side. -/
def mergeSackBlocks (begin : SackBlock) (passed : List SackBlock) : List SackBlock → List SackBlock
  | [] => begin :: passed
  | current :: rest =>
    if begin.1 = current.2 then mergeSackBlocks (current.1, begin.2) [] (passed ++ rest)
    else if begin.2 = current.1 then mergeSackBlocks (begin.1, current.2) [] (passed ++ rest)
    else mergeSackBlocks begin (passed ++ [current]) rest
  termination_by rest => (passed.length + rest.length, rest.length)
  decreasing_by all_goals simp [Prod.lex_def] <;> omega

/-- `UpdateSackList`: at most four blocks are kept. -/
def updateSackList (b : TcpRxBuffer) (head tail : SequenceNumber32) : TcpRxBuffer :=
  let merged := mergeSackBlocks (head, tail) [] b.sackList
  { b with sackList := if 4 < merged.length then merged.dropLast else merged }

def clearSackList (b : TcpRxBuffer) (seq : SequenceNumber32) : TcpRxBuffer :=
  { b with sackList := b.sackList.filter fun block => ¬ Le block.2 seq }

/-! ## Adding a segment -/

/-- `m_data [k] = p`. -/
def assign (k : SequenceNumber32) (p : Packet) :
    List (SequenceNumber32 × Packet) → List (SequenceNumber32 × Packet)
  | [] => [(k, p)]
  | (f, q) :: rest =>
    if Lt k f then (k, p) :: (f, q) :: rest
    else if k = f then (k, p) :: rest
    else (f, q) :: assign k p rest

/-- What is left of a segment and of the buffered packets. -/
structure Trimmed where
  head : SequenceNumber32
  tail : SequenceNumber32
  data : List (SequenceNumber32 × Packet)
  size : BitVec 32
  deriving DecidableEq

/-- The loop that removes overlapped bytes from a segment, and packets that it covers. -/
def removeOverlaps (head tail : SequenceNumber32) (size : BitVec 32) :
    List (SequenceNumber32 × Packet) → Trimmed
  | [] => ⟨head, tail, [], size⟩
  | (first, p) :: rest =>
    let lastByteSeq := first + p.getSize
    if ¬ Le first tail then ⟨head, tail, (first, p) :: rest, size⟩
    else if ¬ Gt lastByteSeq head then
      let t := removeOverlaps head tail size rest
      { t with data := (first, p) :: t.data }
    else if Gt first head ∧ Lt lastByteSeq tail then
      removeOverlaps head tail (size - p.getSize) rest
    else
      let t := removeOverlaps (if Le first head then lastByteSeq else head)
        (if Ge lastByteSeq tail then first else tail) size rest
      { t with data := (first, p) :: t.data }

/-- The segment's range within the window. -/
def window (b : TcpRxBuffer) (head tail : SequenceNumber32) : SequenceNumber32 × SequenceNumber32 :=
  let head := if Lt head b.nextRxSeq then b.nextRxSeq else head
  match b.data with
  | [] => (head, tail)
  | (first, _) :: _ =>
    let maxSeq := first + b.maxBuffer
    let tail := if Lt maxSeq tail then maxSeq else tail
    (if Lt tail head then tail else head, tail)

/-- The loop that moves `m_nextRxSeq` over the packets that are in order. -/
def advance : List (SequenceNumber32 × Packet) → TcpRxBuffer → TcpRxBuffer
  | [], b => b
  | (first, p) :: rest, b =>
    if Lt first b.nextRxSeq then advance rest b
    else if Gt first b.nextRxSeq then b
    else
      let b := { b with
        nextRxSeq := first + p.getSize
        availBytes := b.availBytes + p.getSize }
      advance rest (b.clearSackList b.nextRxSeq)

/-- The FIN is accounted for. -/
def passFin (b : TcpRxBuffer) : TcpRxBuffer :=
  if b.gotFin ∧ b.nextRxSeq = b.finSeq then { b with nextRxSeq := b.nextRxSeq + 1 } else b

/-- The part of `Add` that stores a packet. -/
def store (b : TcpRxBuffer) (head tail : SequenceNumber32) (p : Packet) : TcpRxBuffer :=
  let b := { b with data := assign head p b.data }
  let b := if Gt head b.nextRxSeq then b.updateSackList head tail else b
  let b := { b with size := b.size + p.getSize }
  (advance b.data b).passFin

def add (b : TcpRxBuffer) (seq : SequenceNumber32) (p : Packet) : Bool × TcpRxBuffer :=
  let range := b.window seq (seq + p.getSize)
  let t := removeOverlaps range.1 range.2 b.size b.data
  let b := { b with data := t.data, size := t.size }
  if Ge t.head t.tail then (false, b)
  else (true, b.store t.head t.tail (p.createFragment (t.head - seq) (t.tail - t.head)))

/-! ## Extracting -/

/-- The loop of `Extract`. -/
def extractLoop (extractSize : BitVec 32) (b : TcpRxBuffer) (out : Packet) :
    List (SequenceNumber32 × Packet) → Packet × TcpRxBuffer
  | [] => (out, { b with data := [] })
  | (first, p) :: rest =>
    if extractSize = 0 then (out, { b with data := (first, p) :: rest })
    else if p.getSize ≤ extractSize then
      extractLoop (extractSize - p.getSize)
        { b with size := b.size - p.getSize, availBytes := b.availBytes - p.getSize } (out ++ p) rest
    else
      -- the new key comes right after that of the packet, which is then erased
      (out ++ p.createFragment 0 extractSize,
        { b with
          data := (assign (first + extractSize)
            (p.createFragment extractSize (p.getSize - extractSize)) ((first, p) :: rest)).eraseP
              fun c => c.1 = first
          size := b.size - extractSize
          availBytes := b.availBytes - extractSize })

/-- `Extract`; the null pointer is an empty packet. -/
def extract (b : TcpRxBuffer) (maxSize : BitVec 32) : Packet × TcpRxBuffer :=
  let extractSize := if b.availBytes < maxSize then b.availBytes else maxSize
  if extractSize = 0 then ([], b) else extractLoop extractSize b [] b.data

end TcpRxBuffer

end Ns3.Internet
