import Mathlib.Data.BitVec
import Mathlib.Data.List.Basic
import Ns3.Lib.PriorityQueue

/-!
# Schedulers

`scheduler.h`: events are ordered by their time, and then by their uid; two
events are equal when their uids are. `ListScheduler` is a sorted list.
-/

namespace Ns3.Core

open Ns3.Lib

/-- The time is in time steps. -/
structure EventKey where
  ts : ℕ
  uid : BitVec 32
  context : BitVec 32
  deriving DecidableEq

/-- `operator <`. -/
def EventKey.Lt (a b : EventKey) : Prop := a.ts < b.ts ∨ (a.ts = b.ts ∧ a.uid < b.uid)

instance (a b : EventKey) : Decidable (a.Lt b) := inferInstanceAs (Decidable (_ ∨ _))

/-- `impl` names the event implementation that the event points to. -/
structure Event where
  impl : ℕ
  key : EventKey
  deriving DecidableEq

namespace EventKey

variable {a b c : EventKey}

theorem Lt.irrefl : ¬ a.Lt a := by
  rintro (h | ⟨-, h⟩)
  · exact Nat.lt_irrefl _ h
  · exact BitVec.lt_irrefl _ h

theorem Lt.trans (h : a.Lt b) (h' : b.Lt c) : a.Lt c := by
  unfold Lt at *
  simp only [BitVec.lt_def] at *
  omega

theorem Lt.of_not_lt (h : ¬ b.Lt a) (h' : b.Lt c) : a.Lt c := by
  unfold Lt at *
  simp only [BitVec.lt_def] at *
  omega

/-- Keys with different uids are comparable. -/
theorem Lt.of_not (h : ¬ a.Lt b) (hne : a.uid ≠ b.uid) : b.Lt a := by
  unfold Lt at *
  rw [Ne, ← BitVec.toNat_inj] at hne
  simp only [BitVec.lt_def] at *
  omega

end EventKey

/-! ## `ListScheduler` -/

namespace ListScheduler

def insert (ev : Event) : List Event → List Event
  | [] => [ev]
  | i :: events => if ev.key.Lt i.key then ev :: i :: events else i :: insert ev events

def removeNext : List Event → Option (Event × List Event)
  | [] => none
  | next :: events => some (next, events)

def remove (ev : Event) (events : List Event) : List Event :=
  events.eraseP fun i => i.key.uid = ev.key.uid

def queue : PriorityQueue Event (List Event) where
  empty := []
  insert := insert
  isEmpty events := events.isEmpty
  removeNext := removeNext
  remove := remove

/-- Sorted, and with different uids. -/
def Valid (events : List Event) : Prop :=
  events.Pairwise fun a b => a.key.Lt b.key ∧ a.key.uid ≠ b.key.uid

variable {ev : Event} {events : List Event}

theorem mem_insert {e : Event} : e ∈ insert ev events ↔ e = ev ∨ e ∈ events := by
  induction events with
  | nil => simp [insert]
  | cons i events ih =>
    unfold insert
    split
    · exact List.mem_cons
    · rw [List.mem_cons, ih, List.mem_cons]
      exact or_left_comm

theorem valid_insert (h : Valid events) (hnew : ∀ e ∈ events, e.key.uid ≠ ev.key.uid) :
    Valid (insert ev events) := by
  induction events with
  | nil => exact List.pairwise_singleton _ _
  | cons i events ih =>
    obtain ⟨hi, hevents⟩ := List.pairwise_cons.mp h
    have hnewi := hnew i List.mem_cons_self
    unfold insert
    split
    · rename_i hlt
      refine List.pairwise_cons.mpr ⟨fun e he => ⟨?_, Ne.symm (hnew e he)⟩, h⟩
      rcases List.mem_cons.mp he with rfl | he
      · exact hlt
      · exact hlt.trans (hi e he).1
    · rename_i hnot
      refine List.pairwise_cons.mpr ⟨fun e he => ?_,
        ih hevents fun e he => hnew e (List.mem_cons_of_mem _ he)⟩
      rcases mem_insert.mp he with rfl | he
      · exact ⟨EventKey.Lt.of_not hnot (Ne.symm hnewi), hnewi⟩
      · exact hi e he

theorem mem_remove (h : Valid events) (hev : ev ∈ events) {e : Event} :
    e ∈ remove ev events ↔ e ∈ events ∧ e ≠ ev := by
  unfold remove
  induction events with
  | nil => cases hev
  | cons i events ih =>
    obtain ⟨hi, hevents⟩ := List.pairwise_cons.mp h
    by_cases huid : i.key.uid = ev.key.uid
    · obtain rfl : ev = i := by
        rcases List.mem_cons.mp hev with heq | hmem
        · exact heq
        · exact absurd huid (hi ev hmem).2
      rw [List.eraseP_cons_of_pos (by simp), List.mem_cons]
      constructor
      · intro he
        exact ⟨.inr he, fun heq => (hi e he).2 (by rw [heq])⟩
      · rintro ⟨he, hne⟩
        exact he.resolve_left hne
    · have hmem : ev ∈ events := (List.mem_cons.mp hev).resolve_left fun heq => huid (by rw [heq])
      rw [List.eraseP_cons_of_neg (by simpa using huid), List.mem_cons, ih hevents hmem,
        List.mem_cons]
      constructor
      · rintro (rfl | ⟨he, hne⟩)
        · exact ⟨.inl rfl, fun heq => huid (by rw [heq])⟩
        · exact ⟨.inr he, hne⟩
      · rintro ⟨he | he, hne⟩
        · exact .inl he
        · exact .inr ⟨he, hne⟩

theorem lawful : queue.Lawful (fun a b => a.key.Lt b.key) (fun e => e.key.uid) Valid
    fun events e => e ∈ events where
  valid_empty := .nil
  holds_empty a h := by cases h
  valid_insert h hnew := valid_insert h hnew
  holds_insert _ _ _ := mem_insert
  isEmpty_iff {s} _ := by
    show s.isEmpty = true ↔ _
    rw [List.isEmpty_iff, List.eq_nil_iff_forall_not_mem]
  removeNext_isSome {s a} _ ha := by
    cases s with
    | nil => cases ha
    | cons i events => rfl
  valid_removeNext {s a s'} h hnext := by
    cases s with
    | nil => cases hnext
    | cons i events =>
      cases hnext
      exact (List.pairwise_cons.mp h).2
  holds_next {s a s'} _ hnext := by
    cases s with
    | nil => cases hnext
    | cons i events =>
      cases hnext
      exact List.mem_cons_self
  next_least {s a s'} h hnext b hb := by
    cases s with
    | nil => cases hnext
    | cons i events =>
      cases hnext
      rcases List.mem_cons.mp hb with rfl | hb
      · exact EventKey.Lt.irrefl
      · exact fun hlt => EventKey.Lt.irrefl (hlt.trans ((List.pairwise_cons.mp h).1 b hb).1)
  holds_removeNext {s a s'} h hnext b := by
    cases s with
    | nil => cases hnext
    | cons i events =>
      cases hnext
      have hi := (List.pairwise_cons.mp h).1
      rw [List.mem_cons]
      constructor
      · intro hb
        exact ⟨.inr hb, fun heq => (hi b hb).2 (by rw [heq])⟩
      · rintro ⟨hb, hne⟩
        exact hb.resolve_left hne
  valid_remove h _ := h.sublist List.eraseP_sublist
  holds_remove h ha _ := mem_remove h ha

end ListScheduler

end Ns3.Core
