import Ns3.Core.Scheduler

/-!
# `CalendarScheduler`

`calendar-scheduler.cc`: the events are in buckets, by their time; a bucket
stands for the times of one width in every year, which has as many widths as
there are buckets. The next event is searched from the bucket of the last one,
within one year; if there is none, it is the least of all. `bucketTop` is a
64-bit and `qSize` a 32-bit number. `none` is a removal from an empty calendar.
-/

namespace Ns3.Core

namespace CalendarScheduler

abbrev Bucket := List Event

/-! ## Storage order -/

/-- `Order`. -/
def Order (reverse : Bool) (newEvent it : EventKey) : Prop :=
  if reverse then it.Lt newEvent else newEvent.Lt it

instance (reverse : Bool) (a b : EventKey) : Decidable (Order reverse a b) :=
  inferInstanceAs (Decidable (if reverse = true then b.Lt a else a.Lt b))

/-- `NextEvent`, if the bucket is not empty. -/
def nextEvent (reverse : Bool) (bucket : Bucket) : Option Event :=
  if reverse then bucket.getLast? else bucket.head?

/-- `Pop`. -/
def pop (reverse : Bool) (bucket : Bucket) : Bucket :=
  if reverse then bucket.dropLast else bucket.tail

/-- The loop of `DoInsert` over a bucket. -/
def insertInto (reverse : Bool) (ev : Event) : Bucket → Bucket
  | [] => [ev]
  | i :: bucket =>
    if Order reverse ev.key i.key then ev :: i :: bucket else i :: insertInto reverse ev bucket

end CalendarScheduler

open CalendarScheduler

structure Calendar where
  reverse : Bool
  buckets : List Bucket
  width : ℕ
  lastBucket : ℕ
  bucketTop : ℕ
  lastPrio : ℕ
  qSize : ℕ
  deriving DecidableEq

namespace Calendar

def nBuckets (c : Calendar) : ℕ := c.buckets.length

def bucket (c : Calendar) (i : ℕ) : Bucket := (c.buckets[i]?).getD []

def setBucket (c : Calendar) (i : ℕ) (b : Bucket) : Calendar :=
  { c with buckets := c.buckets.set i b }

def hash (c : Calendar) (ts : ℕ) : ℕ := ts / c.width % c.nBuckets

/-- `Init`. -/
def init (nBuckets width startPrio : ℕ) (c : Calendar) : Calendar :=
  { c with
    buckets := List.replicate nBuckets []
    width := width
    lastPrio := startPrio
    lastBucket := startPrio / width % nBuckets
    bucketTop := (startPrio / width + 1) * width % 2 ^ 64 }

/-- A new scheduler. -/
def start (reverse : Bool) : Calendar := init 2 1 0 ⟨reverse, [], 0, 0, 0, 0, 0⟩

def doInsert (c : Calendar) (ev : Event) : Calendar :=
  c.setBucket (c.hash ev.key.ts) (insertInto c.reverse ev (c.bucket (c.hash ev.key.ts)))

/-! ## Search -/

/-- The least key so far, and the bucket and the event that have it. -/
structure Minimum where
  minKey : EventKey
  minEvent : Option (ℕ × Event)
  deriving DecidableEq

def Minimum.consider (m : Minimum) (i : ℕ) (next : Event) : Minimum :=
  if next.key.Lt m.minKey then ⟨next.key, some (i, next)⟩ else m

/-- How a search of `PeekNext` or `DoRemoveNext` ends: an event below the top of its bucket is
found, or the least one of all. -/
inductive Found where
  | early (i bucketTop : ℕ) (next : Event)
  | least (min : Minimum)
  deriving DecidableEq

/-- The loop of `PeekNext` and of `DoRemoveNext` over the buckets. -/
def search (c : Calendar) : ℕ → ℕ → ℕ → Minimum → Option Found
  | 0, _, _, _ => none
  | fuel + 1, i, bucketTop, min =>
    match nextEvent c.reverse (c.bucket i) with
    | some next =>
      if next.key.ts < bucketTop then some (.early i bucketTop next)
      else if (i + 1) % c.nBuckets = c.lastBucket then some (.least (min.consider i next))
      else
        search c fuel ((i + 1) % c.nBuckets) ((bucketTop + c.width) % 2 ^ 64) (min.consider i next)
    | none =>
      if (i + 1) % c.nBuckets = c.lastBucket then some (.least min)
      else search c fuel ((i + 1) % c.nBuckets) ((bucketTop + c.width) % 2 ^ 64) min

/-- The search starts with a key that no event has, of this uid. -/
def searchFrom (c : Calendar) (uid : BitVec 32) : Option Found :=
  c.search c.nBuckets c.lastBucket c.bucketTop ⟨⟨2 ^ 64 - 1, uid, 0⟩, none⟩

def peekNext (c : Calendar) : Option Event := do
  match ← c.searchFrom (BitVec.allOnes 32) with
  | .early _ _ next => some next
  | .least min => min.minEvent.map Prod.snd

def doRemoveNext (c : Calendar) : Option (Event × Calendar) := do
  match ← c.searchFrom 0 with
  | .early i bucketTop next =>
    return (next, { c.setBucket i (pop c.reverse (c.bucket i)) with
      lastBucket := i, lastPrio := next.key.ts, bucketTop := bucketTop })
  | .least min =>
    let (minBucket, _) ← min.minEvent
    let next ← nextEvent c.reverse (c.bucket minBucket)
    return (next, { c.setBucket minBucket (pop c.reverse (c.bucket minBucket)) with
      lastPrio := min.minKey.ts
      lastBucket := c.hash min.minKey.ts
      bucketTop := (min.minKey.ts / c.width + 1) * c.width % 2 ^ 64 })

/-! ## Resizing -/

def nSamples (c : Calendar) : ℕ := min 25 (if c.qSize ≤ 5 then c.qSize else 5 + c.qSize / 10)

/-- The loop that gathers the samples. -/
def gather : ℕ → Calendar → Option (List Event × Calendar)
  | 0, c => some ([], c)
  | n + 1, c => do
    let (ev, c) ← c.doRemoveNext
    let (samples, c) ← gather n c
    return (ev :: samples, c)

/-- The times between a sample and the next. -/
def separations (samples : List Event) : List ℕ :=
  List.zipWith (fun cur next => (next.key.ts + 2 ^ 64 - cur.key.ts) % 2 ^ 64) samples samples.tail

/-- The width for the samples. -/
def widthOf (samples : List Event) : ℕ :=
  let totalSeparation := (separations samples).sum % 2 ^ 64
  let twiceAvg := totalSeparation / (samples.length - 1) * 2 % 2 ^ 64
  let totalSeparation := ((separations samples).filter (· ≤ twiceAvg)).sum % 2 ^ 64
  max (totalSeparation * 3 % 2 ^ 64) 1

def calculateNewWidth (c : Calendar) : Option (ℕ × Calendar) :=
  if c.qSize < 2 then some (1, c)
  else do
    let (samples, gathered) ← gather c.nSamples c
    let putBack := samples.foldl doInsert gathered
    return (widthOf samples, { putBack with
      lastBucket := c.lastBucket, bucketTop := c.bucketTop, lastPrio := c.lastPrio })

def doResize (newSize newWidth : ℕ) (c : Calendar) : Calendar :=
  c.buckets.flatten.foldl doInsert (c.init newSize newWidth c.lastPrio)

def resize (newSize : ℕ) (c : Calendar) : Option Calendar := do
  let (newWidth, c) ← c.calculateNewWidth
  return c.doResize newSize newWidth

def resizeUp (c : Calendar) : Option Calendar :=
  if c.nBuckets * 2 < c.qSize ∧ c.nBuckets < 32768 then c.resize (c.nBuckets * 2) else some c

def resizeDown (c : Calendar) : Option Calendar :=
  if c.qSize < c.nBuckets / 2 then c.resize (c.nBuckets / 2) else some c

/-! ## Operations -/

/-- `Insert` before `ResizeUp`. -/
def inserted (ev : Event) (c : Calendar) : Calendar :=
  { c.doInsert ev with qSize := (c.qSize + 1) % 2 ^ 32 }

def insert (ev : Event) (c : Calendar) : Option Calendar := (c.inserted ev).resizeUp

/-- `RemoveNext` before `ResizeDown`. -/
def nextRemoved (c : Calendar) : Option (Event × Calendar) := do
  let (ev, c) ← c.doRemoveNext
  return (ev, { c with qSize := (c.qSize + 2 ^ 32 - 1) % 2 ^ 32 })

def removeNext (c : Calendar) : Option (Event × Calendar) := do
  let (ev, c) ← c.nextRemoved
  let c ← c.resizeDown
  return (ev, c)

/-- `Remove` before `ResizeDown`, for an event that is there. -/
def removed (ev : Event) (c : Calendar) : Option Calendar :=
  let i := c.hash ev.key.ts
  if (c.bucket i).any fun e => e.key.uid = ev.key.uid then
    some { c.setBucket i ((c.bucket i).eraseP fun e => e.key.uid = ev.key.uid) with
      qSize := (c.qSize + 2 ^ 32 - 1) % 2 ^ 32 }
  else none

def remove (ev : Event) (c : Calendar) : Option Calendar := do
  let c ← c.removed ev
  c.resizeDown

end Calendar

end Ns3.Core
