import Mathlib.Data.List.Basic
import Ns3.Aodv.Packet

/-!
# The request queue

`aodv-rqueue.cc`: the packets that wait for a route, and `SendPacketFromQueue`
of the routing protocol, which serves them. The two callbacks of an entry are
one handle of a type `κ`. An operation returns the entries whose error callback
it has called, in the order of the calls. Times are nanoseconds.
-/

namespace Ns3.Aodv

open Ns3.Lib

structure QueueEntry (κ : Type) where
  packet : Packet
  header : Ipv4Header
  callbacks : κ
  expire : ℤ
  deriving DecidableEq

structure RequestQueue (κ : Type) where
  entries : List (QueueEntry κ)
  maxLen : UInt32
  queueTimeout : ℤ
  deriving DecidableEq

/-- What a route gives a packet: its source address and the interface it goes out on. -/
structure Route where
  source : Ipv4Address
  interface : ℤ
  deriving DecidableEq, Repr

variable {κ : Type}

namespace QueueEntry

/-- `IsExpired`. -/
def Expired (now : ℤ) (e : QueueEntry κ) : Prop := e.expire - now < 0

instance (now : ℤ) (e : QueueEntry κ) : Decidable (e.Expired now) :=
  inferInstanceAs (Decidable (_ < _))

def To (dst : Ipv4Address) (e : QueueEntry κ) : Prop := e.header.destination = dst

instance (dst : Ipv4Address) (e : QueueEntry κ) : Decidable (e.To dst) :=
  inferInstanceAs (Decidable (_ = _))

/-- The same packet for the same destination. -/
def Same (e e' : QueueEntry κ) : Prop :=
  e.packet.uid = e'.packet.uid ∧ e.header.destination = e'.header.destination

instance (e e' : QueueEntry κ) : Decidable (e.Same e') := inferInstanceAs (Decidable (_ ∧ _))

/-- The packet was bound to another interface than the route's. -/
def Mismatch (route : Route) (e : QueueEntry κ) : Prop :=
  ∃ i ∈ e.packet.tag, i ≠ -1 ∧ i ≠ route.interface

instance (route : Route) (e : QueueEntry κ) : Decidable (e.Mismatch route) :=
  inferInstanceAs (Decidable (∃ i ∈ e.packet.tag, _))

/-- The packet and header as the unicast forward callback gets them; the TTL makes up for the
loopback hop. -/
def handOver (route : Route) (e : QueueEntry κ) : QueueEntry κ :=
  { e with
    packet := { e.packet with tag := none }
    header := { e.header with source := route.source, ttl := e.header.ttl + 1 } }

end QueueEntry

namespace RequestQueue

def purge (q : RequestQueue κ) (now : ℤ) : RequestQueue κ × List (QueueEntry κ) :=
  ({ q with entries := q.entries.filter fun e => ¬ e.Expired now },
    q.entries.filter fun e => e.Expired now)

/-- `Enqueue`: whether the entry was accepted. `front ()` of an empty queue of maximum length 0
is undefined. -/
def enqueue (q : RequestQueue κ) (now : ℤ) (e : QueueEntry κ) :
    Option (Bool × RequestQueue κ × List (QueueEntry κ)) :=
  let (q, dropped) := q.purge now
  if ∃ i ∈ q.entries, i.Same e then some (false, q, dropped)
  else
    let e := { e with expire := q.queueTimeout + now }
    if q.entries.length = q.maxLen.toNat then
      match q.entries with
      | [] => none
      | oldest :: rest => some (true, { q with entries := rest ++ [e] }, dropped ++ [oldest])
    else some (true, { q with entries := q.entries ++ [e] }, dropped)

def dropPacketWithDst (q : RequestQueue κ) (now : ℤ) (dst : Ipv4Address) :
    RequestQueue κ × List (QueueEntry κ) :=
  let (q, dropped) := q.purge now
  ({ q with entries := q.entries.filter fun e => ¬ e.To dst },
    dropped ++ q.entries.filter fun e => e.To dst)

/-- `Dequeue`: the first entry for the destination. -/
def dequeue (q : RequestQueue κ) (now : ℤ) (dst : Ipv4Address) :
    Option (QueueEntry κ) × RequestQueue κ × List (QueueEntry κ) :=
  let (q, dropped) := q.purge now
  match q.entries.find? fun e => e.To dst with
  | none => (none, q, dropped)
  | some e => (some e, { q with entries := q.entries.eraseP fun e => e.To dst }, dropped)

/-- The queue after serving a destination, the entries handed to their unicast forward callback
and those whose error callback was called. -/
structure Served (κ : Type) where
  queue : RequestQueue κ
  forwarded : List (QueueEntry κ)
  dropped : List (QueueEntry κ)
  deriving DecidableEq

theorem length_dequeue {q q' : RequestQueue κ} {now : ℤ} {dst : Ipv4Address} {e : QueueEntry κ}
    {dropped : List (QueueEntry κ)} (h : q.dequeue now dst = (some e, q', dropped)) :
    q'.entries.length < q.entries.length := by
  unfold dequeue at h
  dsimp only at h
  split at h
  · cases h
  · rename_i e' hfind
    cases h
    have hlen := List.length_eraseP_of_mem (List.mem_of_find?_eq_some hfind)
      (List.find?_some hfind)
    have hpos := List.length_pos_of_mem (List.mem_of_find?_eq_some hfind)
    have hle : (q.purge now).1.entries.length ≤ q.entries.length := List.length_filter_le _ _
    show ((q.purge now).1.entries.eraseP _).length < _
    omega

/-- `SendPacketFromQueue`. A packet bound to another interface ends the loop, and the packet. -/
def sendPacketFromQueue (q : RequestQueue κ) (now : ℤ) (dst : Ipv4Address) (route : Route) :
    Served κ :=
  match _ : q.dequeue now dst with
  | (none, q, dropped) => ⟨q, [], dropped⟩
  | (some e, q', dropped) =>
    if e.Mismatch route then ⟨q', [], dropped⟩
    else
      let rest := q'.sendPacketFromQueue now dst route
      ⟨rest.queue, e.handOver route :: rest.forwarded, dropped ++ rest.dropped⟩
termination_by q.entries.length
decreasing_by exact length_dequeue ‹_›

/-! ## What the loop does -/

theorem filter_eraseP_pos {α : Type} {p : α → Bool} (l : List α) :
    (l.eraseP p).filter p = (l.filter p).tail := by
  induction l with
  | nil => rfl
  | cons a l ih =>
    cases ha : p a with
    | true => simp [ha]
    | false => simp [ha, ih]

theorem filter_eraseP_neg {α : Type} {p : α → Bool} (l : List α) :
    (l.eraseP p).filter (fun a => !p a) = l.filter fun a => !p a := by
  induction l with
  | nil => rfl
  | cons a l ih =>
    cases ha : p a with
    | true => simp [ha]
    | false => simp [ha, ih]

/-- The entries that have not expired. -/
def live (q : RequestQueue κ) (now : ℤ) : List (QueueEntry κ) := (q.purge now).1.entries

/-- The entries that wait for a destination, in their order. -/
def waiting (q : RequestQueue κ) (now : ℤ) (dst : Ipv4Address) : List (QueueEntry κ) :=
  (q.live now).filter fun e => e.To dst

/-- What is left for a destination from the first mismatch on. -/
def stuck (q : RequestQueue κ) (now : ℤ) (dst : Ipv4Address) (route : Route) :
    List (QueueEntry κ) :=
  (q.waiting now dst).dropWhile fun e => ¬ e.Mismatch route

variable {q : RequestQueue κ} {now : ℤ} {dst : Ipv4Address} {route : Route}

theorem purge_of_live (h : ∀ e ∈ q.entries, ¬ e.Expired now) : q.purge now = (q, []) := by
  unfold purge
  rw [List.filter_eq_self.mpr (by simpa using h), List.filter_eq_nil_iff.mpr (by simpa using h)]

theorem not_expired_of_mem_live {e : QueueEntry κ} (h : e ∈ q.live now) : ¬ e.Expired now := by
  simpa using (List.mem_filter.mp h).2

theorem dequeue_none {q' : RequestQueue κ} {dropped : List (QueueEntry κ)}
    (h : q.dequeue now dst = (none, q', dropped)) :
    q.waiting now dst = [] ∧ (q', dropped) = q.purge now := by
  unfold dequeue at h
  dsimp only at h
  split at h
  · rename_i hnone
    cases h
    refine ⟨?_, rfl⟩
    rw [← List.head?_eq_none_iff, waiting, List.head?_filter]
    exact hnone
  · cases h

/-- `Dequeue` takes the first waiting entry out and leaves the others in their order. -/
theorem dequeue_some {q' : RequestQueue κ} {dropped : List (QueueEntry κ)} {e : QueueEntry κ}
    (h : q.dequeue now dst = (some e, q', dropped)) :
    q.waiting now dst = e :: q'.entries.filter (fun e => e.To dst) ∧
      q'.entries.filter (fun e => !decide (e.To dst)) =
        (q.live now).filter (fun e => !decide (e.To dst)) ∧
      q'.entries.Sublist (q.live now) ∧ dropped = (q.purge now).2 ∧ q'.maxLen = q.maxLen := by
  unfold dequeue at h
  dsimp only at h
  split at h
  · cases h
  · rename_i e' hfind
    cases h
    refine ⟨?_, filter_eraseP_neg _, List.eraseP_sublist, rfl, rfl⟩
    have hhead : (q.waiting now dst).head? = some e := by
      rw [waiting, List.head?_filter]
      exact hfind
    obtain ⟨rest, hrest⟩ := List.head?_eq_some_iff.mp hhead
    have htail := filter_eraseP_pos (p := fun e => decide (e.To dst)) (q.live now)
    rw [hrest]
    refine congrArg (e :: ·) ?_
    have hmine : (q.live now).filter (fun e => decide (e.To dst)) = e :: rest := hrest
    rw [hmine] at htail
    exact htail.symm

/-- The loop hands over the waiting entries up to the first mismatch; that one is gone, and the
others stay. -/
structure ServedSpec (q : RequestQueue κ) (now : ℤ) (dst : Ipv4Address) (route : Route)
    (s : Served κ) : Prop where
  forwarded : s.forwarded =
    ((q.waiting now dst).takeWhile fun e => ¬ e.Mismatch route).map (·.handOver route)
  dropped : s.dropped = (q.purge now).2
  mine : s.queue.entries.filter (fun e => e.To dst) = (q.stuck now dst route).tail
  others : s.queue.entries.filter (fun e => !decide (e.To dst)) =
    (q.live now).filter fun e => !decide (e.To dst)
  sublist : s.queue.entries.Sublist (q.live now)
  maxLen : s.queue.maxLen = q.maxLen

theorem sendPacketFromQueue_spec (q : RequestQueue κ) (now : ℤ) (dst : Ipv4Address)
    (route : Route) : ServedSpec q now dst route (q.sendPacketFromQueue now dst route) := by
  fun_induction sendPacketFromQueue q now dst route with
  | case1 q q' dropped h =>
    obtain ⟨hmine, hpurge⟩ := dequeue_none h
    cases hpurge
    refine ⟨?_, rfl, ?_, rfl, List.Sublist.refl _, rfl⟩
    · rw [hmine]
      rfl
    · rw [stuck, hmine]
      exact hmine
  | case2 q e q' dropped h hmis =>
    obtain ⟨hmine, hothers, hsub, hdropped, hmax⟩ := dequeue_some h
    refine ⟨?_, hdropped, ?_, hothers, hsub, hmax⟩
    · rw [hmine]
      simp [hmis]
    · rw [stuck, hmine]
      simp [hmis]
  | case3 q e q' dropped h hmis rest ih =>
    obtain ⟨hmine, hothers, hsub, hdropped, hmax⟩ := dequeue_some h
    -- what is left has been purged, so the next round's purge drops nothing
    have hlive : q'.purge now = (q', []) :=
      purge_of_live fun e he => not_expired_of_mem_live (hsub.subset he)
    have hwait : q'.waiting now dst = q'.entries.filter fun e => e.To dst := by
      rw [waiting, live, hlive]
    refine ⟨?_, ?_, ?_, ?_, ?_, ih.maxLen.trans hmax⟩
    · rw [hmine, ← hwait, List.takeWhile_cons_of_pos (by simpa using hmis), List.map_cons]
      exact congrArg _ ih.forwarded
    · rw [ih.dropped, hlive, List.append_nil, hdropped]
    · rw [stuck, hmine, ← hwait, List.dropWhile_cons_of_pos (by simpa using hmis)]
      exact ih.mine
    · rw [ih.others, live, hlive]
      exact hothers
    · refine ih.sublist.trans ?_
      rw [live, hlive]
      exact hsub

end RequestQueue

end Ns3.Aodv
