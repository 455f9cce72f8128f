import Ns3.Lib.Marks
import Ns3.Network.Packet

/-!
# Byte tags

`byte-tag-list.cc` and the operations of `packet.cc` that use it. A tag, with its
type and its content, is a value of `T`; the marks in `data` have the offsets as
they are stored, which `adjustment` moves all at once. When bytes are removed
the marks stay as they are; they are cut when bytes are added at that end. The
memory that copies of a list share until one is written to is left out.
-/

namespace Ns3.Network

open Ns3.Lib

/-- The value that is left in an `int32_t`. -/
def int32 (x : ℤ) : ℤ := x.bmod (2 ^ 32)

/-- `OFFSET_MAX`. -/
def offsetMax : ℤ := 2 ^ 31 - 1

structure ByteTagList (T : Type) where
  minStart : ℤ
  maxEnd : ℤ
  adjustment : ℤ
  data : List (Mark T)
  deriving DecidableEq

namespace ByteTagList

variable {T : Type}

def new : ByteTagList T := ⟨2 ^ 31 - 1, -2 ^ 31, 0, []⟩

def add (l : ByteTagList T) (tag : T) (start stop : ℤ) : ByteTagList T :=
  let start := int32 (start - l.adjustment)
  let stop := int32 (stop - l.adjustment)
  { l with
    minStart := if start < l.minStart then start else l.minStart
    maxEnd := if l.maxEnd < stop then stop else l.maxEnd
    data := l.data ++ [⟨tag, start, stop⟩] }

/-- What the iterator of `Begin` returns. -/
def items (l : ByteTagList T) (offsetStart offsetEnd : ℤ) : List (Mark T) :=
  l.data.filterMap fun m =>
    let nextStart := int32 (m.start + l.adjustment)
    let nextEnd := int32 (m.stop + l.adjustment)
    if offsetEnd ≤ nextStart ∨ nextEnd ≤ offsetStart then none
    else some ⟨m.tag, max nextStart offsetStart, min nextEnd offsetEnd⟩

/-- `BeginAll`. -/
def itemsAll (l : ByteTagList T) : List (Mark T) := l.items 0 offsetMax

/-- `Add` of another list. -/
def addAll (l o : ByteTagList T) : ByteTagList T :=
  o.itemsAll.foldl (fun l item => l.add item.tag item.start item.stop) l

def adjust (l : ByteTagList T) (adjustment : ℤ) : ByteTagList T :=
  { l with adjustment := int32 (l.adjustment + adjustment) }

def addAtEnd (l : ByteTagList T) (appendOffset : ℤ) : ByteTagList T :=
  if l.maxEnd ≤ int32 (appendOffset - l.adjustment) then l
  else l.itemsAll.foldl (fun list item =>
    if appendOffset ≤ item.start then list
    else list.add item.tag item.start
      (if appendOffset < item.stop then appendOffset else item.stop))
    new

def addAtStart (l : ByteTagList T) (prependOffset : ℤ) : ByteTagList T :=
  if int32 (prependOffset - l.adjustment) ≤ l.minStart then l
  else l.itemsAll.foldl (fun list item =>
    if item.stop ≤ prependOffset then list
    else list.add item.tag (if item.start < prependOffset then prependOffset else item.start)
      item.stop)
    new

end ByteTagList

/-! ## Packets -/

structure TaggedPacket (T : Type) where
  buffer : Packet
  byteTagList : ByteTagList T
  deriving DecidableEq

namespace TaggedPacket

variable {T : Type}

def new (buffer : Packet) : TaggedPacket T := ⟨buffer, .new⟩

/-- `GetSize`, as an `int32_t`. -/
def size (p : TaggedPacket T) : ℤ := int32 p.buffer.length

/-- The header is given by its bytes. -/
def addHeader (p : TaggedPacket T) (header : Packet) : TaggedPacket T where
  buffer := header ++ p.buffer
  byteTagList := (p.byteTagList.adjust (int32 header.length)).addAtStart (int32 header.length)

/-- `RemoveHeader`, of as many bytes as the header reads. -/
def removeHeader (p : TaggedPacket T) (deserialized : ℕ) : TaggedPacket T where
  buffer := p.buffer.drop deserialized
  byteTagList := p.byteTagList.adjust (int32 (-deserialized))

def addTrailer (p : TaggedPacket T) (trailer : Packet) : TaggedPacket T where
  buffer := p.buffer ++ trailer
  byteTagList := p.byteTagList.addAtEnd p.size

/-- `RemoveTrailer`, of as many bytes as the trailer reads. -/
def removeTrailer (p : TaggedPacket T) (deserialized : ℕ) : TaggedPacket T :=
  { p with buffer := p.buffer.take (p.buffer.length - deserialized) }

def addAtEnd (p packet : TaggedPacket T) : TaggedPacket T where
  buffer := p.buffer ++ packet.buffer
  byteTagList := (p.byteTagList.addAtEnd p.size).addAll
    ((packet.byteTagList.addAtStart 0).adjust p.size)

/-- `AddPaddingAtEnd`, with whatever bytes are there. -/
def addPaddingAtEnd (p : TaggedPacket T) (padding : Packet) : TaggedPacket T where
  buffer := p.buffer ++ padding
  byteTagList := p.byteTagList.addAtEnd p.size

def removeAtEnd (p : TaggedPacket T) (size : ℕ) : TaggedPacket T :=
  { p with buffer := p.buffer.take (p.buffer.length - size) }

def removeAtStart (p : TaggedPacket T) (size : ℕ) : TaggedPacket T where
  buffer := p.buffer.drop size
  byteTagList := p.byteTagList.adjust (int32 (-size))

/-- `CreateFragment`, which asserts that the fragment is inside of the packet. -/
def createFragment (p : TaggedPacket T) (start length : ℕ) : Option (TaggedPacket T) :=
  if start + length ≤ p.buffer.length then
    some ⟨(p.buffer.drop start).take length, p.byteTagList.adjust (int32 (-start))⟩
  else none

def addByteTag (p : TaggedPacket T) (tag : T) : TaggedPacket T :=
  { p with byteTagList := p.byteTagList.add tag 0 p.size }

/-- `AddByteTag` on a range, which aborts where the range ends before it starts. -/
def addByteTagOn (p : TaggedPacket T) (tag : T) (start stop : ℕ) : Option (TaggedPacket T) :=
  if stop < start then none
  else some { p with byteTagList := p.byteTagList.add tag (int32 start) (int32 stop) }

def removeAllByteTags (p : TaggedPacket T) : TaggedPacket T := { p with byteTagList := .new }

/-- `GetByteTagIterator`. -/
def byteTags (p : TaggedPacket T) : List (Mark T) := p.byteTagList.items 0 p.size

/-- `FindFirstMatchingByteTag`, for the tags of one type. -/
def findFirstMatchingByteTag (p : TaggedPacket T) (ofType : T → Bool) : Option T :=
  (p.byteTags.find? fun item => ofType item.tag).map Mark.tag

end TaggedPacket

end Ns3.Network
