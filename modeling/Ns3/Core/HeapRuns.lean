import Ns3.Core.HeapSpec

/-!
# Runs of `HeapScheduler`

A run inserts events, takes the next one, and removes events that are still
there; beside the heap it keeps the events that have been inserted and not yet
removed. `leastFirst_of_reachable` is the order in which they are returned in
the runs that misplace no element, and `not_inOrder_of_misplaces` says that a
step that misplaces one leaves the array out of order.
-/

namespace Ns3.Core

open Ns3.Lib
open BinaryHeap

namespace HeapScheduler

structure State where
  heap : Heap
  pending : List Event
  deriving DecidableEq

inductive Op where
  | insert (ev : Event)
  | removeNext
  | remove (ev : Event)

/-- An inserted event has a new uid, and a removed one is there. -/
def State.step (s : State) : Op → Option State
  | .insert ev =>
    if ∀ e ∈ s.pending, e.key.uid ≠ ev.key.uid then
      some ⟨insert ev s.heap, ev :: s.pending⟩
    else none
  | .removeNext => (removeNext s.heap).map fun r => ⟨r.2, s.pending.erase r.1⟩
  | .remove ev =>
    if ev ∈ s.pending then (remove ev s.heap).map fun h => ⟨h, s.pending.erase ev⟩ else none

/-- The operation puts the last element below a greater one. -/
def State.Misplaces (s : State) : Op → Prop
  | .remove ev => ∃ i ∈ indexOf ev s.heap, Misplaced s.heap i
  | _ => False

instance (s : State) (op : Op) : Decidable (s.Misplaces op) := by
  cases op with
  | insert => exact inferInstanceAs (Decidable False)
  | removeNext => exact inferInstanceAs (Decidable False)
  | remove ev => exact inferInstanceAs (Decidable (∃ i ∈ indexOf ev s.heap, _))

def system : System State Op where
  init s := s = ⟨start, []⟩
  step s op s' := s.step op = some s'

/-- The array is in order, and the next event is the least of those that have been inserted and not
removed. -/
structure LeastFirst (s : State) : Prop where
  inOrder : InOrder s.heap
  next : s.pending ≠ [] → ∃ next h, removeNext s.heap = some (next, h)
  least : ∀ next h, removeNext s.heap = some (next, h) →
    next ∈ s.pending ∧ ∀ e ∈ s.pending, ¬ e.key.Lt next.key

structure Inv (s : State) : Prop where
  size : 1 ≤ s.heap.size
  inOrder : InOrder s.heap
  uids : DifferentUids s.heap
  contains : ∀ e, Contains s.heap e ↔ e ∈ s.pending
  nodup : s.pending.Nodup

variable {s s' : State} {h : Heap} {ev e : Event} {i : ℕ} {op : Op}

theorem Inv.leastFirst (hs : Inv s) : LeastFirst s := by
  refine ⟨hs.inOrder, fun hne => ?_, fun next h hnext => ?_⟩
  · obtain ⟨e, he⟩ := List.exists_mem_of_ne_nil _ hne
    obtain ⟨i, hi, his, -⟩ := (hs.contains e).mpr he
    exact ⟨_, _, if_neg (by omega)⟩
  · unfold removeNext at hnext
    split_ifs at hnext with hsize
    cases hnext
    refine ⟨(hs.contains _).mp ⟨root, le_rfl, by unfold root; omega, rfl⟩, fun e he hlt => ?_⟩
    obtain ⟨i, hi, his, rfl⟩ := (hs.contains e).mpr he
    exact absurd (EventKey.lt_iff_order.mp hlt) (hs.inOrder.root_le hi his).not_gt

/-! ## Steps -/

theorem Inv.insert (hs : Inv s) (hnew : ∀ e ∈ s.pending, e.key.uid ≠ ev.key.uid) :
    Inv ⟨HeapScheduler.insert ev s.heap, ev :: s.pending⟩ := by
  obtain ⟨hsift, hord⟩ := insert_spec ev hs.size hs.inOrder
  refine ⟨?_, hord, ?_, fun e => ?_, ?_⟩
  · rw [hsift.size, Array.size_push]
    omega
  · exact hsift.differentUids
      (differentUids_push hs.uids fun e he => hnew e ((hs.contains e).mp he))
  · rw [hsift.contains_iff, contains_push hs.size, hs.contains e, List.mem_cons]
  · exact List.nodup_cons.mpr ⟨fun hmem => hnew ev hmem rfl, hs.nodup⟩

/-- Both removals. -/
theorem Inv.removeAt (hs : Inv s) (hi : 1 ≤ i) (his : i < s.heap.size)
    (hm : ¬ Misplaced s.heap i) :
    Inv ⟨topDown (fill s.heap i) i, s.pending.erase (s.heap.at i)⟩ := by
  obtain ⟨hsift, hord⟩ := topDown_fill hs.inOrder hi his hm
  refine ⟨?_, hord, hsift.differentUids (differentUids_fill hs.uids hi his), fun e => ?_,
    hs.nodup.erase _⟩
  · rw [hsift.size, size_fill]
    omega
  · rw [hsift.contains_iff, contains_fill hs.uids hi his, hs.contains e, hs.nodup.mem_erase_iff,
      and_comm]

theorem Inv.step (hs : Inv s) (hstep : s.step op = some s') (hm : ¬ s.Misplaces op) : Inv s' := by
  cases op with
  | insert ev =>
    unfold State.step at hstep
    dsimp only at hstep
    split_ifs at hstep with hnew
    cases hstep
    exact hs.insert hnew
  | removeNext =>
    obtain ⟨r, hr, rfl⟩ := Option.map_eq_some_iff.mp hstep
    unfold HeapScheduler.removeNext at hr
    split_ifs at hr with hsize
    cases hr
    exact hs.removeAt le_rfl (by unfold root; omega) fun hmis => Nat.lt_irrefl _ hmis.1
  | remove ev =>
    unfold State.step at hstep
    dsimp only at hstep
    split_ifs at hstep with hev
    obtain ⟨h, hh, rfl⟩ := Option.map_eq_some_iff.mp hstep
    obtain ⟨i, hi, rfl⟩ := Option.map_eq_some_iff.mp hh
    obtain ⟨h1, his, -⟩ := indexOf_eq_some hi
    have hat := at_indexOf hs.uids ((hs.contains ev).mpr hev) hi
    rw [← hat]
    exact hs.removeAt h1 his fun hmis => hm ⟨i, hi, hmis⟩

/-- The array is out of order after a step that misplaces an element. -/
theorem not_inOrder_of_misplaces (hs : Inv s) (hstep : s.step op = some s')
    (hm : s.Misplaces op) : ¬ InOrder s'.heap := by
  cases op with
  | insert => exact hm.elim
  | removeNext => exact hm.elim
  | remove ev =>
    unfold State.step at hstep
    dsimp only at hstep
    split_ifs at hstep with hev
    obtain ⟨h, hh, rfl⟩ := Option.map_eq_some_iff.mp hstep
    obtain ⟨i, hi, rfl⟩ := Option.map_eq_some_iff.mp hh
    obtain ⟨j, hj, hmis⟩ := hm
    obtain rfl : i = j := Option.some.inj (hi.symm.trans hj)
    exact not_inOrder_of_misplaced hs.inOrder hmis

theorem inv_start : Inv ⟨start, []⟩ := by
  have hsize : start.size = 1 := rfl
  refine ⟨le_rfl, fun i h2 hi => ?_, fun i j h1 hi => ?_, fun e => ?_, List.nodup_nil⟩
  · rw [hsize] at hi
    omega
  · rw [hsize] at hi
    omega
  · constructor
    · rintro ⟨i, h1, hi, -⟩
      dsimp only at hi
      rw [hsize] at hi
      omega
    · intro he
      cases he

theorem inv_of_reachable (h : (system.restrict fun s op => ¬ s.Misplaces op).Reachable s) :
    Inv s := by
  refine h.invariant ?_ ?_
  · rintro s rfl
    exact inv_start
  · rintro s op s' hs ⟨hm, hstep⟩
    exact hs.step hstep hm

theorem leastFirst_of_reachable (h : (system.restrict fun s op => ¬ s.Misplaces op).Reachable s) :
    LeastFirst s :=
  (inv_of_reachable h).leastFirst

/-! ## Examples -/

def sampleEvent (ts : ℕ) : Event := ⟨ts, ts, BitVec.ofNat 32 ts, 0⟩

/-- Six events, the second of which in the array is removed. -/
def spared : List Op := [2, 3, 1, 5, 4, 6].map (fun ts => .insert (sampleEvent ts)) ++
  [.remove (sampleEvent 3)]

theorem leastFirst_of_spared :
    ∃ s, s.pending = [6, 4, 5, 1, 2].map sampleEvent ∧ LeastFirst s := by
  have hrun : (System.exec State.step (fun s op => ¬ s.Misplaces op) ⟨start, []⟩ spared).map
      State.pending = some ([6, 4, 5, 1, 2].map sampleEvent) := by decide
  obtain ⟨s, hs, hview⟩ := System.reachable_of_exec (S := system) (fun _ _ _ => id) rfl hrun
  exact ⟨s, hview, leastFirst_of_reachable hs⟩

/-- The removal of the seventh puts 2 below 3. -/
def misplaced : List Op := [7, 5, 4, 3, 6, 1, 2].map (fun ts => .insert (sampleEvent ts)) ++
  [.remove (sampleEvent 7), .removeNext, .removeNext]

theorem not_leastFirst_of_reachable : ¬ ∀ s, system.Reachable s → LeastFirst s := by
  intro hall
  have hrun : (System.exec State.step (fun _ _ => True) ⟨start, []⟩ misplaced).map
      (fun s => ((removeNext s.heap).map Prod.fst, s.pending)) =
      some (some (sampleEvent 4), [6, 3, 4, 5].map sampleEvent) := by decide
  obtain ⟨s, hs, hview⟩ := System.reachable_of_exec (S := system) (fun _ _ _ => id) rfl hrun
  obtain ⟨hnext, hpending⟩ := Prod.mk.inj hview
  obtain ⟨⟨next, h⟩, hr, rfl⟩ := Option.map_eq_some_iff.mp hnext
  refine ((hall s hs.of_restrict).least _ h hr).2 (sampleEvent 3) ?_ (by decide)
  rw [hpending]
  decide

end HeapScheduler

end Ns3.Core
