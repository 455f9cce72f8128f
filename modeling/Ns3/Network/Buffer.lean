import Ns3.Lib.Slice
import Ns3.Lib.Words
import Mathlib.Logic.Function.Basic
import Mathlib.Algebra.Group.Nat.Defs

/-!
# `Buffer`

`buffer.cc` and `buffer.h`, with `BUFFER_FREE_LIST` and without the assertions.
The blocks that buffers share lie in a heap; the functions take a buffer and
the heap, and give back both, or `none` where memory outside of a block is read
or written. Offsets are 32 bits wide.
-/

namespace Ns3.Network

open Ns3.Lib

def add32 (a b : ℕ) : ℕ := (a + b) % 2 ^ 32

def sub32 (a b : ℕ) : ℕ := (a + 2 ^ 32 - b) % 2 ^ 32

theorem sub32_of_le {a b : ℕ} (hle : b ≤ a) (ha : a < 2 ^ 32) : sub32 a b = a - b :=
  sub_mod_of_le hle ha

/-- `Buffer::Data`: `m_size` is the length of `bytes`. -/
structure BufferData where
  count : ℕ
  dirtyStart : ℕ
  dirtyEnd : ℕ
  bytes : List UInt8
  deriving DecidableEq

/-- `stop` is `m_end`. -/
structure Buffer where
  /-- The address of the block. -/
  data : ℕ
  maxZeroAreaStart : ℕ
  zeroAreaStart : ℕ
  zeroAreaEnd : ℕ
  start : ℕ
  stop : ℕ
  deriving DecidableEq

/-! ## The blocks -/

/-- The blocks in use and the static variables of `Buffer`. The back of `g_freeList` comes first.
`fresh` is what new memory holds. -/
structure Heap where
  datas : ℕ → Option BufferData
  brk : ℕ
  freeList : List BufferData
  maxSize : ℕ
  recommendedStart : ℕ
  fresh : ℕ → ℕ → UInt8

namespace Heap

def new (fresh : ℕ → ℕ → UInt8) : Heap where
  datas _ := none
  brk := 0
  freeList := []
  maxSize := 0
  recommendedStart := 0
  fresh := fresh

def setData (h : Heap) (a : ℕ) (d : BufferData) : Heap :=
  { h with datas := Function.update h.datas a (some d) }

def place (h : Heap) (d : BufferData) : ℕ × Heap :=
  (h.brk, { h.setData h.brk d with brk := h.brk + 1 })

def allocate (h : Heap) (reqSize : ℕ) : ℕ × Heap :=
  let reqSize := if reqSize = 0 then 1 else reqSize
  h.place ⟨1, 0, 0, (List.range reqSize).map (h.fresh h.brk)⟩

/-- The loop of `Create` over the free list. -/
def takeFit (dataSize : ℕ) : List BufferData → Option BufferData × List BufferData
  | [] => (none, [])
  | data :: rest =>
    if dataSize ≤ data.bytes.length then (some data, rest) else takeFit dataSize rest

def create (h : Heap) (dataSize : ℕ) : ℕ × Heap :=
  match takeFit dataSize h.freeList with
  | (some data, rest) => { h with freeList := rest }.place { data with count := 1 }
  | (none, rest) => { h with freeList := rest }.allocate dataSize

def recycle (h : Heap) (a : ℕ) (d : BufferData) : Heap :=
  let maxSize := max h.maxSize d.bytes.length
  { h with
    datas := Function.update h.datas a none
    maxSize := maxSize
    freeList :=
      if d.bytes.length < maxSize ∨ 1000 < h.freeList.length then h.freeList else d :: h.freeList }

/-- One reference to a block less. -/
def release (h : Heap) (a : ℕ) : Option Heap := do
  let d ← h.datas a
  let d := { d with count := d.count - 1 }
  if d.count = 0 then some (h.recycle a d) else some (h.setData a d)

/-- One reference to a block more. -/
def acquire (h : Heap) (a : ℕ) : Option Heap := do
  let d ← h.datas a
  some (h.setData a { d with count := d.count + 1 })

def load (h : Heap) (a o n : ℕ) : Option (List UInt8) := do
  let d ← h.datas a
  peek d.bytes o n

def store (h : Heap) (a o : ℕ) (bytes : List UInt8) : Option Heap := do
  let d ← h.datas a
  let bytes ← poke d.bytes o bytes
  some (h.setData a { d with bytes := bytes })

end Heap

/-! ## Iterators -/

/-- `Buffer::Iterator`, with the address of the block for the pointer into it. -/
structure Iterator where
  zeroStart : ℕ
  zeroEnd : ℕ
  dataStart : ℕ
  dataEnd : ℕ
  current : ℕ
  data : ℕ

namespace Iterator

def next (it : Iterator) (delta : ℕ) : Iterator := { it with current := add32 it.current delta }

def prev (it : Iterator) (delta : ℕ) : Iterator := { it with current := sub32 it.current delta }

/-- `Write (uint8_t const *buffer, uint32_t size)`. -/
def write (it : Iterator) (h : Heap) (buffer : List UInt8) : Option Heap :=
  if it.current ≤ it.zeroStart then h.store it.data it.current buffer
  else h.store it.data (sub32 it.current (sub32 it.zeroEnd it.zeroStart)) buffer

/-- `WriteU8 (uint8_t data, uint32_t len)`. -/
def writeU8 (it : Iterator) (h : Heap) (data : UInt8) (len : ℕ) : Option Heap :=
  it.write h (List.replicate len data)

/-- The variables of `Write (Iterator start, Iterator end)`. -/
structure Copying where
  heap : Heap
  dst : Iterator
  start : Iterator
  size : ℕ

/-- `toCopy` bytes are written, and the two iterators are behind them. -/
def Copying.put (c : Copying) (bytes : List UInt8) : Option Copying := do
  let heap ← c.heap.store c.dst.data c.dst.current bytes
  some ⟨heap, c.dst.next bytes.length, c.start.next bytes.length, c.size - bytes.length⟩

def Copying.front (c : Copying) : Option Copying :=
  if c.start.current ≤ c.start.zeroStart then do
    let toCopy := min c.size (c.start.zeroStart - c.start.current)
    let bytes ← c.heap.load c.start.data c.start.current toCopy
    c.put bytes
  else some c

def Copying.zeroes (c : Copying) : Option Copying :=
  if c.start.current ≤ c.start.zeroEnd then
    c.put (List.replicate (min c.size (c.start.zeroEnd - c.start.current)) 0)
  else some c

def Copying.back (c : Copying) : Option Copying := do
  let toCopy := min c.size (sub32 c.start.dataEnd c.start.current)
  let bytes ← c.heap.load c.start.data
    (sub32 c.start.current (sub32 c.start.zeroEnd c.start.zeroStart)) toCopy
  c.put bytes

/-- `Write (Iterator start, Iterator end)`. -/
def writeRange (it : Iterator) (h : Heap) (start stop : Iterator) : Option Heap := do
  let c ← Copying.front ⟨h, it, start, sub32 stop.current start.current⟩
  let c ← c.zeroes
  let c ← c.back
  some c.heap

end Iterator

/-! ## Buffers -/

namespace Buffer

/-- `Begin`. -/
def beginIter (b : Buffer) : Iterator :=
  ⟨b.zeroAreaStart, b.zeroAreaEnd, b.start, b.stop, b.start, b.data⟩

/-- `End`. -/
def endIter (b : Buffer) : Iterator :=
  ⟨b.zeroAreaStart, b.zeroAreaEnd, b.start, b.stop, b.stop, b.data⟩

def getSize (b : Buffer) : ℕ := sub32 b.stop b.start

def getInternalSize (b : Buffer) : ℕ :=
  sub32 (add32 (sub32 b.zeroAreaStart b.start) b.stop) b.zeroAreaEnd

def getInternalEnd (b : Buffer) : ℕ := sub32 b.stop (sub32 b.zeroAreaEnd b.zeroAreaStart)

/-- The update of the heuristic that ends most functions. -/
def raiseMax (b : Buffer) : Buffer :=
  { b with maxZeroAreaStart := max b.maxZeroAreaStart b.zeroAreaStart }

/-- `CopyData (uint8_t *buffer, uint32_t size)`. -/
def copyData (h : Heap) (b : Buffer) (size : ℕ) : Option (List UInt8) := do
  let n := min (b.zeroAreaStart - b.start) size
  let front ← h.load b.data b.start n
  let size := size - n
  let z := min (b.zeroAreaEnd - b.zeroAreaStart) size
  let size := size - z
  let back ← h.load b.data b.zeroAreaStart (min (b.stop - b.zeroAreaEnd) size)
  some (front ++ List.replicate z 0 ++ back)

/-- `Initialize`. -/
def init (h : Heap) (zeroSize : ℕ) : Option (Heap × Buffer) := do
  let (a, h) := h.create 0
  let d ← h.datas a
  let start := min d.bytes.length h.recommendedStart
  let zeroAreaEnd := add32 start zeroSize
  some (h.setData a { d with dirtyStart := start, dirtyEnd := zeroAreaEnd },
    ⟨a, start, start, zeroAreaEnd, start, zeroAreaEnd⟩)

/-- The copy constructor. -/
def copy (h : Heap) (o : Buffer) : Option (Heap × Buffer) := do
  let h ← h.acquire o.data
  some (h, { o with maxZeroAreaStart := o.zeroAreaStart })

/-- The destructor. -/
def destroy (h : Heap) (b : Buffer) : Option Heap :=
  { h with recommendedStart := max h.recommendedStart b.maxZeroAreaStart }.release b.data

/-- `operator =`: what becomes of `b`. -/
def assign (h : Heap) (b o : Buffer) : Option (Heap × Buffer) := do
  let h ← if b.data = o.data then some h else do
    let h ← h.release b.data
    h.acquire o.data
  some ({ h with recommendedStart := max h.recommendedStart b.maxZeroAreaStart }, o)

/-- A new block with the bytes of the buffer from an offset on, and the release of the old one. -/
def reallocate (h : Heap) (b : Buffer) (newSize offset : ℕ) : Option (ℕ × Heap) := do
  let (a, h) := h.create newSize
  let bytes ← h.load b.data b.start b.getInternalSize
  let h ← h.store a offset bytes
  let h ← h.release b.data
  some (a, h)

/-- `m_dirtyStart` and `m_dirtyEnd` of the buffer's block are set to its bounds. -/
def setDirty (h : Heap) (b : Buffer) : Option Heap := do
  let d ← h.datas b.data
  some (h.setData b.data { d with dirtyStart := b.start, dirtyEnd := b.stop })

def addAtStart (h : Heap) (b : Buffer) (start : ℕ) : Option (Heap × Buffer) := do
  let d ← h.datas b.data
  let isDirty := 1 < d.count ∧ d.dirtyStart < b.start
  if start ≤ b.start ∧ ¬ isDirty then
    let b := { b with start := b.start - start }
    some (h.setData b.data { d with dirtyStart := b.start }, b.raiseMax)
  else
    let newSize := add32 b.getInternalSize start
    let (a, h) ← b.reallocate h newSize start
    let delta := sub32 start b.start
    let b : Buffer := { b with
      data := a
      start := sub32 (add32 b.start delta) start
      zeroAreaStart := add32 b.zeroAreaStart delta
      zeroAreaEnd := add32 b.zeroAreaEnd delta
      stop := add32 b.stop delta }
    let h ← b.setDirty h
    some (h, b.raiseMax)

/-- There is room in the block, behind what every other buffer uses of it. -/
def RoomAtEnd (d : BufferData) (b : Buffer) (stop : ℕ) : Prop :=
  add32 b.getInternalEnd stop ≤ d.bytes.length ∧ ¬ (1 < d.count ∧ b.stop < d.dirtyEnd)

instance (d : BufferData) (b : Buffer) (stop : ℕ) : Decidable (RoomAtEnd d b stop) :=
  inferInstanceAs (Decidable (_ ∧ _))

def addAtEnd (h : Heap) (b : Buffer) (stop : ℕ) : Option (Heap × Buffer) := do
  let d ← h.datas b.data
  if RoomAtEnd d b stop then
    let b := { b with stop := add32 b.stop stop }
    some (h.setData b.data { d with dirtyEnd := b.stop }, b.raiseMax)
  else
    let newSize := add32 b.getInternalSize stop
    let (a, h) ← b.reallocate h newSize 0
    let delta := sub32 0 b.start
    let b : Buffer := { b with
      data := a
      zeroAreaStart := add32 b.zeroAreaStart delta
      zeroAreaEnd := add32 b.zeroAreaEnd delta
      start := add32 b.start delta
      stop := add32 (add32 b.stop delta) stop }
    let h ← b.setDirty h
    some (h, b.raiseMax)

def removeAtStart (b : Buffer) (start : ℕ) : Buffer :=
  let newStart := add32 b.start start
  let b :=
    if newStart ≤ b.zeroAreaStart then { b with start := newStart }
    else if newStart ≤ b.zeroAreaEnd then
      let delta := newStart - b.zeroAreaStart
      { b with
        start := b.zeroAreaStart
        zeroAreaEnd := b.zeroAreaEnd - delta
        stop := b.stop - delta }
    else if newStart ≤ b.stop then
      let zeroSize := b.zeroAreaEnd - b.zeroAreaStart
      { b with
        start := newStart - zeroSize
        stop := b.stop - zeroSize
        zeroAreaStart := newStart - zeroSize
        zeroAreaEnd := newStart - zeroSize }
    else
      let stop := b.stop - (b.zeroAreaEnd - b.zeroAreaStart)
      { b with
        stop := stop
        start := stop
        zeroAreaEnd := stop
        zeroAreaStart := stop }
  b.raiseMax

def removeAtEnd (b : Buffer) (stop : ℕ) : Buffer :=
  let newEnd := b.stop - min stop (b.stop - b.start)
  let b :=
    if b.zeroAreaEnd < newEnd then { b with stop := newEnd }
    else if b.zeroAreaStart < newEnd then { b with stop := newEnd, zeroAreaEnd := newEnd }
    else if b.start < newEnd then
      { b with stop := newEnd, zeroAreaEnd := newEnd, zeroAreaStart := newEnd }
    else { b with stop := b.start, zeroAreaEnd := b.start, zeroAreaStart := b.start }
  b.raiseMax

def createFragment (h : Heap) (b : Buffer) (start length : ℕ) : Option (Heap × Buffer) := do
  let (h, tmp) ← b.copy h
  let tmp := tmp.removeAtStart start
  some (h, tmp.removeAtEnd (sub32 b.getSize (add32 start length)))

/-- `CreateFullCopy`. -/
def createFullCopy (h : Heap) (b : Buffer) : Option (Heap × Buffer) :=
  if b.zeroAreaEnd - b.zeroAreaStart ≠ 0 then do
    let (h, tmp) ← Buffer.init h 0
    let (h, tmp) ← tmp.addAtStart h (b.zeroAreaEnd - b.zeroAreaStart)
    let h ← tmp.beginIter.writeU8 h 0 (b.zeroAreaEnd - b.zeroAreaStart)
    let dataStart := b.zeroAreaStart - b.start
    let (h, tmp) ← tmp.addAtStart h dataStart
    let bytes ← h.load b.data b.start dataStart
    let h ← tmp.beginIter.write h bytes
    let dataEnd := b.stop - b.zeroAreaEnd
    let (h, tmp) ← tmp.addAtEnd h dataEnd
    let bytes ← h.load b.data b.zeroAreaStart dataEnd
    let h ← (tmp.endIter.prev dataEnd).write h bytes
    some (h, tmp)
  else b.copy h

/-- Where `AddAtEnd (const Buffer &o)` joins the zero areas of the two buffers. -/
def JoinsZeroes (d : BufferData) (b o : Buffer) : Prop :=
  d.count = 1 ∧ (b.stop = b.zeroAreaEnd ∨ b.zeroAreaStart = b.zeroAreaEnd) ∧
    b.stop = d.dirtyEnd ∧ o.start = o.zeroAreaStart ∧ 0 < o.zeroAreaEnd - o.zeroAreaStart

instance (d : BufferData) (b o : Buffer) : Decidable (JoinsZeroes d b o) :=
  inferInstanceAs (Decidable (_ ∧ _))

/-- `AddAtEnd (const Buffer &o)`. -/
def addBufferAtEnd (h : Heap) (b o : Buffer) : Option (Heap × Buffer) := do
  let d ← h.datas b.data
  if JoinsZeroes d b o then
    let zeroSize := o.zeroAreaEnd - o.zeroAreaStart
    let zeroAreaEnd := add32 b.stop zeroSize
    let b : Buffer := { b with
      zeroAreaStart := if b.zeroAreaStart = b.zeroAreaEnd then b.stop else b.zeroAreaStart
      zeroAreaEnd := zeroAreaEnd
      stop := zeroAreaEnd }
    let h := h.setData b.data { d with dirtyEnd := zeroAreaEnd }
    let endData := o.stop - o.zeroAreaEnd
    let (h, b) ← b.addAtEnd h endData
    let h ← (b.endIter.prev endData).writeRange h (o.endIter.prev endData) o.endIter
    some (h, b)
  else
    let (h, tmp) ← b.createFullCopy h
    let (h, b) ← b.assign h tmp
    let h ← tmp.destroy h
    let (h, b) ← b.addAtEnd h o.getSize
    let h ← (b.endIter.prev o.getSize).writeRange h o.beginIter o.endIter
    some (h, b)

end Buffer

end Ns3.Network
