import Mathlib.Data.Prod.Lex
import Ns3.Core.Scheduler
import Ns3.Lib.BinaryHeap
import Ns3.Lib.Run

/-!
# `HeapScheduler`

`heap-scheduler.cc`: a binary heap in an array whose first element is not used.
`remove` puts the last event in the place of the one that is removed and sifts
it down only, so that an event less than its new parent stays below it.
-/

namespace Ns3.Core

open Ns3.Lib
open BinaryHeap

/-- The position of a key in the order: its time, then its uid. -/
def EventKey.order (k : EventKey) : ℕ ×ₗ ℕ := toLex (k.ts, k.uid.toNat)

theorem EventKey.lt_iff_order {a b : EventKey} : a.Lt b ↔ a.order < b.order := by
  unfold EventKey.Lt EventKey.order
  rw [Prod.Lex.toLex_lt_toLex, BitVec.lt_def]

namespace HeapScheduler

/-- `m_heap`. -/
abbrev Heap := Array Event

/-- The unused element. -/
def empty : Event := ⟨0, 0, 0, 0⟩

/-- `m_heap[i]`. -/
def Heap.at (h : Heap) (i : ℕ) : Event := h.getD i empty

/-! ## Positions -/

def parent (id : ℕ) : ℕ := id / 2

def leftChild (id : ℕ) : ℕ := id * 2

def rightChild (id : ℕ) : ℕ := id * 2 + 1

def root : ℕ := 1

def last (h : Heap) : ℕ := h.size - 1

def IsBottom (h : Heap) (id : ℕ) : Prop := h.size ≤ id

instance (h : Heap) (id : ℕ) : Decidable (IsBottom h id) := inferInstanceAs (Decidable (_ ≤ _))

def exch (h : Heap) (a b : ℕ) : Heap := (h.setIfInBounds a (h.at b)).setIfInBounds b (h.at a)

def IsLessStrictly (h : Heap) (a b : ℕ) : Prop := (h.at a).key.Lt (h.at b).key

instance (h : Heap) (a b : ℕ) : Decidable (IsLessStrictly h a b) :=
  inferInstanceAs (Decidable (EventKey.Lt _ _))

def smallest (h : Heap) (a b : ℕ) : ℕ := if IsLessStrictly h a b then a else b

/-! ## Loops -/

/-- The loop of `BottomUp`; the index goes down to the root. -/
def bottomUpLoop : ℕ → ℕ → Heap → Heap
  | 0, _, h => h
  | fuel + 1, index, h =>
    if index ≠ root ∧ IsLessStrictly h index (parent index) then
      bottomUpLoop fuel (parent index) (exch h index (parent index))
    else h

def bottomUp (h : Heap) : Heap := bottomUpLoop (last h) (last h) h

/-- The loop of `TopDown`, and what follows it when there is no right child. -/
def topDownLoop : ℕ → ℕ → Heap → Heap
  | 0, _, h => h
  | fuel + 1, index, h =>
    if IsBottom h (rightChild index) then
      if IsBottom h index then h
      else if IsBottom h (leftChild index) then h
      else if IsLessStrictly h index (leftChild index) then h
      else exch h index (leftChild index)
    else
      let tmp := smallest h (leftChild index) (rightChild index)
      if IsLessStrictly h index tmp then h else topDownLoop fuel tmp (exch h index tmp)

def topDown (h : Heap) (start : ℕ) : Heap := topDownLoop h.size start h

/-! ## Operations -/

def start : Heap := #[empty]

def insert (ev : Event) (h : Heap) : Heap := bottomUp (h.push ev)

/-- There is no next event in a heap with the unused element alone. -/
def removeNext (h : Heap) : Option (Event × Heap) :=
  if h.size ≤ 1 then none
  else some (h.at root, topDown (exch h root (last h)).pop root)

/-- The position at which `Remove` finds the uid. -/
def indexOf (ev : Event) (h : Heap) : Option ℕ :=
  (List.range' 1 (h.size - 1)).find? fun i => ev.key.uid = (h.at i).key.uid

/-- `Remove`, for an event that is there. -/
def remove (ev : Event) (h : Heap) : Option Heap :=
  (indexOf ev h).map fun i => topDown (exch h i (last h)).pop i

end HeapScheduler

end Ns3.Core
