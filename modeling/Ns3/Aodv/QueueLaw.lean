import Mathlib.Data.List.Perm.Basic
import Mathlib.Data.List.Count
import Mathlib.Data.List.TakeWhile
import Ns3.Aodv.RequestQueue
import Ns3.Lib.Run

/-!
# What becomes of a queued packet

Runs of the request queue: calls of its operations and of `SendPacketFromQueue`
in any order, while time passes. The callbacks of an entry are told apart by
the number of the call of `Enqueue` that brought them. Every accepted packet is
queued, handed over once or reported once, as long as the send loop meets no
packet that is bound to another interface: that one leaves the queue and
neither callback is called (`law_iff`).
-/

namespace Ns3.Aodv

open Ns3.Lib

structure QueueWorld where
  now : ℤ
  queue : RequestQueue ℕ
  /-- The calls of `Enqueue` so far. -/
  calls : ℕ
  /-- Those that were accepted. -/
  accepted : List ℕ
  /-- The entries handed to their unicast forward callback, in order. -/
  forwarded : List (QueueEntry ℕ)
  /-- The entries handed to their error callback. -/
  reported : List (QueueEntry ℕ)
  deriving DecidableEq

inductive QueueEvent where
  | wait (t : ℕ)
  | enqueue (p : Packet) (h : Ipv4Header)
  | getSize
  | dropPacketWithDst (dst : Ipv4Address)
  | sendPacketFromQueue (dst : Ipv4Address) (route : Route)

/-- The handles of the callbacks of some entries. -/
def handles (es : List (QueueEntry ℕ)) : List ℕ := es.map (·.callbacks)

namespace QueueWorld

def step (w : QueueWorld) : QueueEvent → Option QueueWorld
  | .wait t => some { w with now := w.now + t }
  | .enqueue p h => do
    let (result, queue, dropped) ← w.queue.enqueue w.now ⟨p, h, w.calls, w.now + w.now⟩
    return { w with
      queue := queue
      calls := w.calls + 1
      accepted := if result then w.accepted ++ [w.calls] else w.accepted
      reported := w.reported ++ dropped }
  | .getSize =>
    let (queue, dropped) := w.queue.purge w.now
    some { w with queue := queue, reported := w.reported ++ dropped }
  | .dropPacketWithDst dst =>
    let (queue, dropped) := w.queue.dropPacketWithDst w.now dst
    some { w with queue := queue, reported := w.reported ++ dropped }
  | .sendPacketFromQueue dst route =>
    let served := w.queue.sendPacketFromQueue w.now dst route
    some { w with
      queue := served.queue
      forwarded := w.forwarded ++ served.forwarded
      reported := w.reported ++ served.dropped }

def Started (w : QueueWorld) : Prop :=
  w.queue.entries = [] ∧ w.calls = 0 ∧ w.accepted = [] ∧ w.forwarded = [] ∧ w.reported = []

def system : System QueueWorld QueueEvent where
  init := Started
  step w e w' := w.step e = some w'

/-! ## The law -/

/-- How often a packet's entry is in the queue, was handed over and was reported. -/
def places (w : QueueWorld) (k : ℕ) : ℕ :=
  (handles w.queue.entries).count k + (handles w.forwarded).count k + (handles w.reported).count k

/-- What has been handed over for a destination, and then what waits for it. -/
def line (w : QueueWorld) (dst : Ipv4Address) : List ℕ :=
  handles ((w.forwarded ++ w.queue.entries).filter fun e => e.To dst)

structure Law (w : QueueWorld) : Prop where
  once : ∀ k ∈ w.accepted, w.places k = 1
  bounded : w.queue.entries.length ≤ w.queue.maxLen.toNat
  distinct : w.queue.entries.Pairwise fun e e' => ¬ e.Same e'
  inOrder : ∀ dst, (w.line dst).Pairwise (· < ·)

/-- A route is found for a destination for which a live packet waits that is bound to another
interface. -/
def Mismatched (w : QueueWorld) : QueueEvent → Prop
  | .sendPacketFromQueue dst route => ∃ e ∈ w.queue.waiting w.now dst, e.Mismatch route
  | _ => False

instance (w : QueueWorld) : DecidablePred w.Mismatched := fun e => by
  cases e <;> unfold Mismatched <;> infer_instance

/-! ## Handles -/

theorem handles_append (es es' : List (QueueEntry ℕ)) :
    handles (es ++ es') = handles es ++ handles es' := List.map_append

theorem count_handles_append (es es' : List (QueueEntry ℕ)) (k : ℕ) :
    (handles (es ++ es')).count k = (handles es).count k + (handles es').count k := by
  rw [handles_append, List.count_append]

theorem count_handles_filter (es : List (QueueEntry ℕ)) (p : QueueEntry ℕ → Bool) (k : ℕ) :
    (handles es).count k =
      (handles (es.filter p)).count k + (handles (es.filter fun e => !p e)).count k := by
  rw [← count_handles_append]
  exact ((List.filter_append_perm p es).map _).symm.count_eq k

/-- An operation that drops what its filter leaves out moves entries from the queue to the
reports. -/
theorem count_purge (q : RequestQueue ℕ) (now : ℤ) (k : ℕ) :
    (handles q.entries).count k =
      (handles (q.live now)).count k + (handles (q.purge now).2).count k := by
  have h := count_handles_filter q.entries (fun e => decide (e.Expired now)) k
  have hlive : q.live now = q.entries.filter fun e => !decide (e.Expired now) := by
    unfold RequestQueue.live RequestQueue.purge
    simp
  have hdropped : (q.purge now).2 = q.entries.filter fun e => decide (e.Expired now) := rfl
  rw [hlive, hdropped]
  omega

theorem handles_handOver (es : List (QueueEntry ℕ)) (route : Route) :
    handles (es.map (·.handOver route)) = handles es := by
  unfold handles
  rw [List.map_map]
  rfl

theorem filter_handOver (es : List (QueueEntry ℕ)) (route : Route) (dst : Ipv4Address) :
    (es.map (·.handOver route)).filter (fun e => e.To dst) =
      (es.filter fun e => e.To dst).map (·.handOver route) := by
  rw [List.filter_map]
  rfl

/-- The send loop moves entries from the queue to the packets handed over and to the reports,
except the first that does not match. -/
theorem count_sendPacketFromQueue (q : RequestQueue ℕ) (now : ℤ) (dst : Ipv4Address)
    (route : Route) (k : ℕ) :
    let served := q.sendPacketFromQueue now dst route
    (handles q.entries).count k = (handles served.queue.entries).count k +
      (handles served.forwarded).count k + (handles served.dropped).count k +
      (handles (q.stuck now dst route).head?.toList).count k := by
  intro served
  have hspec : RequestQueue.ServedSpec q now dst route served :=
    RequestQueue.sendPacketFromQueue_spec _ _ _ _
  have hpurge := count_purge q now k
  have hqueue := count_handles_filter served.queue.entries (fun e => decide (e.To dst)) k
  have hlive := count_handles_filter (q.live now) (fun e => decide (e.To dst)) k
  rw [hspec.mine, hspec.others] at hqueue
  have hmine : (handles ((q.live now).filter fun e => decide (e.To dst))).count k =
      (handles served.forwarded).count k +
        (handles (q.stuck now dst route).head?.toList).count k +
        (handles (q.stuck now dst route).tail).count k := by
    rw [hspec.forwarded, handles_handOver, ← count_handles_append, ← count_handles_append]
    refine congrArg (fun es => (handles es).count k) ?_
    have hstuck : (q.stuck now dst route).head?.toList ++ (q.stuck now dst route).tail =
        q.stuck now dst route := by
      cases q.stuck now dst route <;> rfl
    rw [List.append_assoc, hstuck]
    exact List.takeWhile_append_dropWhile.symm
  rw [hspec.dropped]
  omega

/-! ## Enqueuing -/

/-- An accepted entry goes to the end of the queue, at most the oldest of the others goes. -/
theorem enqueue_cases {q q' : RequestQueue ℕ} {now : ℤ} {e : QueueEntry ℕ} {result : Bool}
    {dropped : List (QueueEntry ℕ)} (h : q.enqueue now e = some (result, q', dropped)) :
    (result = false ∧ (q', dropped) = q.purge now) ∨
    (result = true ∧ (∀ i ∈ q.live now, ¬ i.Same e) ∧ ∃ gone rest, q.live now = gone ++ rest ∧
      rest.length ≠ q.maxLen.toNat ∧ dropped = (q.purge now).2 ++ gone ∧
      q' = { q with entries := rest ++ [{ e with expire := q.queueTimeout + now }] }) := by
  unfold RequestQueue.enqueue at h
  dsimp only at h
  split at h
  · cases h
    exact .inl ⟨rfl, rfl⟩
  · rename_i hsame
    have hnew : ∀ i ∈ q.live now, ¬ i.Same e := fun i hi hs => hsame ⟨i, hi, hs⟩
    split at h
    · rename_i hfull
      split at h
      · cases h
      · rename_i oldest rest hentries
        cases h
        refine .inr ⟨rfl, hnew, [oldest], rest, hentries, ?_, rfl, rfl⟩
        rw [hentries, List.length_cons] at hfull
        have hmax : (q.purge now).1.maxLen = q.maxLen := rfl
        rw [← hmax]
        omega
    · rename_i hroom
      cases h
      exact .inr ⟨rfl, hnew, [], q.live now, rfl, hroom, (List.append_nil _).symm, rfl⟩

/-! ## The invariant -/

/-- The law with what its proof needs: the places of a packet are its acceptances. -/
structure Kept (w : QueueWorld) : Prop where
  places : ∀ k, w.places k = w.accepted.count k
  nodup : w.accepted.Nodup
  below : ∀ k ∈ w.accepted, k < w.calls
  bounded : w.queue.entries.length ≤ w.queue.maxLen.toNat
  distinct : w.queue.entries.Pairwise fun e e' => ¬ e.Same e'
  inOrder : ∀ dst, (w.line dst).Pairwise (· < ·)

theorem Kept.law {w : QueueWorld} (h : w.Kept) : w.Law where
  once k hk := (h.places k).trans (List.count_eq_one_of_mem h.nodup hk)
  bounded := h.bounded
  distinct := h.distinct
  inOrder := h.inOrder

theorem Started.kept {w : QueueWorld} (h : w.Started) : w.Kept := by
  obtain ⟨hqueue, hcalls, hacc, hfwd, hrep⟩ := h
  refine ⟨fun k => ?_, ?_, ?_, ?_, ?_, fun dst => ?_⟩
  · simp [QueueWorld.places, handles, hqueue, hacc, hfwd, hrep]
  · simp [hacc]
  · simp [hacc]
  · simp [hqueue]
  · simp [hqueue]
  · simp [line, handles, hqueue, hfwd]

/-- Packets leave the queue to be handed over in their order or reported. -/
theorem Kept.leave {w w' : QueueWorld} (h : w.Kept) (hplaces : ∀ k, w'.places k = w.places k)
    (hline : ∀ dst, (w'.line dst).Sublist (w.line dst))
    (hsub : w'.queue.entries.Sublist w.queue.entries)
    (hmax : w'.queue.maxLen = w.queue.maxLen) (hacc : w'.accepted = w.accepted)
    (hcalls : w'.calls = w.calls) : w'.Kept where
  places k := by rw [hplaces, hacc, h.places]
  nodup := hacc ▸ h.nodup
  below := by
    rw [hacc, hcalls]
    exact h.below
  bounded := by
    rw [hmax]
    exact hsub.length_le.trans h.bounded
  distinct := h.distinct.sublist hsub
  inOrder dst := (h.inOrder dst).sublist (hline dst)

/-- Packets leave the queue and are reported. -/
theorem Kept.report {w : QueueWorld} (h : w.Kept) {queue : RequestQueue ℕ}
    {dropped : List (QueueEntry ℕ)}
    (hcount : ∀ k, (handles w.queue.entries).count k =
      (handles queue.entries).count k + (handles dropped).count k)
    (hsub : queue.entries.Sublist w.queue.entries) (hmax : queue.maxLen = w.queue.maxLen) :
    Kept { w with queue := queue, reported := w.reported ++ dropped } := by
  refine h.leave (fun k => ?_) (fun dst => ?_) hsub hmax rfl rfl
  · unfold QueueWorld.places
    dsimp only
    rw [hcount k, count_handles_append]
    omega
  · exact (((List.Sublist.refl _).append hsub).filter _).map _

theorem Kept.purge {w : QueueWorld} (h : w.Kept) :
    Kept { w with
      queue := (w.queue.purge w.now).1
      reported := w.reported ++ (w.queue.purge w.now).2 } :=
  h.report (count_purge w.queue w.now) List.filter_sublist rfl

/-- A packet's handle, once accepted or used, is below the number of the next call. -/
theorem Kept.lt_calls {w : QueueWorld} (h : w.Kept) {e : QueueEntry ℕ}
    (he : e ∈ w.forwarded ++ w.queue.entries) : e.callbacks < w.calls := by
  have hmem : e.callbacks ∈ handles w.forwarded ∨ e.callbacks ∈ handles w.queue.entries :=
    (List.mem_append.mp he).imp (fun h => List.mem_map_of_mem h) fun h => List.mem_map_of_mem h
  have hpos : 0 < w.places e.callbacks := by
    unfold QueueWorld.places
    rcases hmem with hmem | hmem
    · have := List.count_pos_iff.mpr hmem
      omega
    · have := List.count_pos_iff.mpr hmem
      omega
  rw [h.places] at hpos
  exact h.below _ (List.count_pos_iff.mp hpos)

/-- A packet is accepted by a queue that has room for it. -/
theorem Kept.push {w : QueueWorld} (h : w.Kept) {e : QueueEntry ℕ}
    (hcb : e.callbacks = w.calls) (hroom : w.queue.entries.length ≠ w.queue.maxLen.toNat)
    (hnew : ∀ i ∈ w.queue.entries, ¬ i.Same e) :
    Kept { w with
      queue := { w.queue with entries := w.queue.entries ++ [e] }
      calls := w.calls + 1
      accepted := w.accepted ++ [w.calls] } := by
  refine ⟨fun k => ?_, ?_, ?_, ?_, ?_, fun dst => ?_⟩
  · have hk := h.places k
    have he : (handles [e]).count k = [w.calls].count k := by
      rw [← hcb]
      rfl
    unfold QueueWorld.places at hk ⊢
    dsimp only
    rw [count_handles_append, List.count_append, he]
    omega
  · refine List.nodup_append.mpr ⟨h.nodup, List.nodup_singleton _, ?_⟩
    rintro a ha b hb rfl
    rw [List.mem_singleton.mp hb] at ha
    exact absurd (h.below _ ha) (lt_irrefl _)
  · intro k hk
    show k < w.calls + 1
    rcases List.mem_append.mp hk with hk | hk
    · have := h.below k hk
      omega
    · rw [List.mem_singleton.mp hk]
      omega
  · have hle := h.bounded
    show (w.queue.entries ++ [e]).length ≤ w.queue.maxLen.toNat
    rw [List.length_append, List.length_singleton]
    omega
  · refine List.pairwise_append.mpr ⟨h.distinct, List.pairwise_singleton _ _, fun a ha b hb => ?_⟩
    rw [List.mem_singleton.mp hb]
    exact hnew a ha
  · unfold line
    show (handles ((w.forwarded ++ (w.queue.entries ++ [e])).filter _)).Pairwise _
    rw [← List.append_assoc, List.filter_append, handles, List.map_append]
    refine List.pairwise_append.mpr ⟨h.inOrder dst, ?_, fun a ha b hb => ?_⟩
    · by_cases hto : e.To dst
      · simp [hto]
      · simp [hto]
    · obtain ⟨e', he', rfl⟩ := List.mem_map.mp ha
      obtain ⟨e'', he'', rfl⟩ := List.mem_map.mp hb
      have heq : e'' = e := List.mem_singleton.mp (List.mem_filter.mp he'').1
      rw [heq, hcb]
      exact h.lt_calls (List.mem_filter.mp he').1

/-! ## One step -/

theorem Kept.enqueue {w w' : QueueWorld} {p : Packet} {hd : Ipv4Header} (h : w.Kept)
    (hstep : w.step (.enqueue p hd) = some w') : w'.Kept := by
  simp only [step, Option.bind_eq_bind, Option.bind_eq_some_iff] at hstep
  obtain ⟨⟨result, queue, dropped⟩, henq, hout⟩ := hstep
  cases hout
  rcases enqueue_cases henq with ⟨rfl, hpurge⟩ | ⟨rfl, hnew, gone, rest, hlive, hroom, hgone, rfl⟩
  · cases hpurge
    exact ⟨h.purge.places, h.nodup, fun k hk => Nat.lt_succ_of_lt (h.below k hk), h.purge.bounded,
      h.purge.distinct, h.purge.inOrder⟩
  · -- first the purge and the overflow, then the new entry
    have hsub : rest.Sublist (w.queue.live w.now) := hlive ▸ List.sublist_append_right gone rest
    have hleft : Kept { w with
        queue := { w.queue with entries := rest }
        reported := w.reported ++ dropped } := by
      refine Kept.report h (fun k => ?_) (hsub.trans List.filter_sublist) rfl
      have hcount := count_purge w.queue w.now k
      rw [hlive, count_handles_append] at hcount
      rw [hgone, count_handles_append]
      dsimp only
      omega
    exact hleft.push (e := ⟨p, hd, w.calls, w.queue.queueTimeout + w.now⟩) rfl hroom
      fun i hi => hnew i (hsub.subset hi)

theorem Kept.dropPacketWithDst {w : QueueWorld} (h : w.Kept) (dst : Ipv4Address) :
    Kept { w with
      queue := (w.queue.dropPacketWithDst w.now dst).1
      reported := w.reported ++ (w.queue.dropPacketWithDst w.now dst).2 } := by
  refine h.report (fun k => ?_) ?_ rfl
  · have hlive := count_handles_filter (w.queue.live w.now) (fun e => decide (e.To dst)) k
    have hpurge := count_purge w.queue w.now k
    have hqueue : (w.queue.dropPacketWithDst w.now dst).1.entries =
        (w.queue.live w.now).filter fun e => !decide (e.To dst) := by
      unfold RequestQueue.dropPacketWithDst RequestQueue.live
      simp
    have hdropped : (w.queue.dropPacketWithDst w.now dst).2 =
        (w.queue.purge w.now).2 ++ (w.queue.live w.now).filter fun e => decide (e.To dst) := rfl
    rw [hqueue, hdropped, count_handles_append]
    omega
  · exact List.filter_sublist.trans List.filter_sublist

/-- The send loop keeps the order in which a destination is served. -/
theorem line_sendPacketFromQueue (w : QueueWorld) (dst d : Ipv4Address) (route : Route) :
    let served := w.queue.sendPacketFromQueue w.now dst route
    (handles ((w.forwarded ++ served.forwarded ++ served.queue.entries).filter
      fun e => e.To d)).Sublist (w.line d) := by
  intro served
  have hspec : RequestQueue.ServedSpec w.queue w.now dst route served :=
    RequestQueue.sendPacketFromQueue_spec _ _ _ _
  have hentries : (w.queue.live w.now).Sublist w.queue.entries := List.filter_sublist
  unfold line
  simp only [List.append_assoc, List.filter_append, handles_append]
  refine (List.Sublist.refl _).append ?_
  have hfwd : handles (served.forwarded.filter fun e => e.To d) =
      handles (((w.queue.waiting w.now dst).takeWhile fun e => ¬ e.Mismatch route).filter
        fun e => e.To d) := by
    rw [hspec.forwarded, filter_handOver, handles_handOver]
  by_cases hd : d = dst
  · subst hd
    have hall : ((w.queue.waiting w.now d).takeWhile fun e => ¬ e.Mismatch route).filter
        (fun e => e.To d) = (w.queue.waiting w.now d).takeWhile fun e => ¬ e.Mismatch route :=
      List.filter_eq_self.mpr fun e he =>
        (List.mem_filter.mp ((List.takeWhile_prefix _).subset he)).2
    rw [hfwd, hall, hspec.mine, ← handles_append]
    refine List.Sublist.map _ (List.Sublist.trans ?_ (hentries.filter _))
    have hparts : ((w.queue.waiting w.now d).takeWhile fun e => ¬ e.Mismatch route) ++
        w.queue.stuck w.now d route = w.queue.waiting w.now d := List.takeWhile_append_dropWhile
    have hsub := (List.Sublist.refl ((w.queue.waiting w.now d).takeWhile
      fun e => ¬ e.Mismatch route)).append (List.tail_sublist (w.queue.stuck w.now d route))
    rw [hparts] at hsub
    exact hsub
  · -- what is handed over is for another destination
    have hnone : ((w.queue.waiting w.now dst).takeWhile fun e => ¬ e.Mismatch route).filter
        (fun e => e.To d) = [] := by
      refine List.filter_eq_nil_iff.mpr fun e he hto => hd ?_
      have hdst := (List.mem_filter.mp ((List.takeWhile_prefix _).subset he)).2
      exact (of_decide_eq_true hto).symm.trans (of_decide_eq_true hdst)
    rw [hfwd, hnone]
    exact ((hspec.sublist.trans hentries).filter _).map _

theorem places_sendPacketFromQueue (w : QueueWorld) (dst : Ipv4Address) (route : Route) (k : ℕ)
    {w' : QueueWorld} (h : w.step (.sendPacketFromQueue dst route) = some w') :
    w.places k = w'.places k +
      (handles (w.queue.stuck w.now dst route).head?.toList).count k := by
  cases h
  have hcount := count_sendPacketFromQueue w.queue w.now dst route k
  dsimp only at hcount
  unfold QueueWorld.places
  dsimp only
  rw [count_handles_append, count_handles_append]
  omega

/-- A mismatch leaves something behind that waited. -/
theorem stuck_of_mismatch {w : QueueWorld} {dst : Ipv4Address} {route : Route}
    (h : ∃ e ∈ w.queue.waiting w.now dst, e.Mismatch route) :
    ∃ e rest, w.queue.stuck w.now dst route = e :: rest ∧ e ∈ w.queue.waiting w.now dst := by
  obtain ⟨e, he, hmis⟩ := h
  cases hstuck : w.queue.stuck w.now dst route with
  | nil =>
    have := List.dropWhile_eq_nil_iff.mp hstuck e he
    exact absurd hmis (by simpa using this)
  | cons a rest => exact ⟨a, rest, rfl, (List.dropWhile_suffix _).subset (hstuck ▸ List.mem_cons_self)⟩

theorem Kept.step {w w' : QueueWorld} {e : QueueEvent} (h : w.Kept) (hstep : w.step e = some w')
    (hmis : ¬ w.Mismatched e) : w'.Kept := by
  cases e with
  | wait t =>
    cases hstep
    exact ⟨h.places, h.nodup, h.below, h.bounded, h.distinct, h.inOrder⟩
  | enqueue p hd => exact h.enqueue hstep
  | getSize =>
    cases hstep
    exact h.purge
  | dropPacketWithDst dst =>
    cases hstep
    exact h.dropPacketWithDst dst
  | sendPacketFromQueue dst route =>
    have hplaces := fun k => places_sendPacketFromQueue w dst route k hstep
    have hstuck : w.queue.stuck w.now dst route = [] := by
      refine List.dropWhile_eq_nil_iff.mpr fun e he => ?_
      exact decide_eq_true fun hm => hmis ⟨e, he, hm⟩
    have hspec := RequestQueue.sendPacketFromQueue_spec w.queue w.now dst route
    cases hstep
    refine h.leave (fun k => ?_) (fun d => line_sendPacketFromQueue w dst d route)
      (hspec.sublist.trans List.filter_sublist) hspec.maxLen rfl rfl
    have hk := hplaces k
    rw [hstuck] at hk
    exact hk.symm

/-- The packet that ends the send loop is nowhere any more. -/
theorem Kept.lost {w w' : QueueWorld} {e : QueueEvent} (h : w.Kept) (hstep : w.step e = some w')
    (hmis : w.Mismatched e) : ∃ k ∈ w'.accepted, w'.places k = 0 := by
  cases e with
  | sendPacketFromQueue dst route =>
    obtain ⟨lost, rest, hstuck, hlost⟩ := stuck_of_mismatch hmis
    have hplaces := places_sendPacketFromQueue w dst route lost.callbacks hstep
    have hone : ([lost.callbacks].count lost.callbacks) = 1 := List.count_singleton_self
    rw [hstuck] at hplaces
    change _ = _ + [lost.callbacks].count lost.callbacks at hplaces
    rw [hone, h.places] at hplaces
    have hle := List.nodup_iff_count_le_one.mp h.nodup lost.callbacks
    have hacc : w'.accepted = w.accepted := by
      cases hstep
      rfl
    refine ⟨lost.callbacks, ?_, by omega⟩
    rw [hacc]
    exact List.count_pos_iff.mp (by omega)
  | wait t => exact hmis.elim
  | enqueue p hd => exact hmis.elim
  | getSize => exact hmis.elim
  | dropPacketWithDst dst => exact hmis.elim

/-! ## Runs -/

/-- The runs in which no route is found over another interface than a waiting packet's. -/
abbrev matching : System QueueWorld QueueEvent := system.restrict fun w e => ¬ w.Mismatched e

theorem kept_of_reachable {w : QueueWorld} (h : matching.Reachable w) : w.Kept := by
  refine h.invariant (P := Kept) (fun _ h₀ => Started.kept h₀) ?_
  intro s e s' hs hstep
  exact hs.step hstep.2 hstep.1

/-- Until a route is found over another interface than a waiting packet's, every accepted packet
is queued, handed over once or reported once, the queue stays within its bound, without two
entries of one packet and destination, and serves each destination in the order of arrival; the
first such route loses a packet. -/
theorem law_iff {w : QueueWorld} (h : matching.Reachable w) :
    w.Law ∧ ∀ e w', w.step e = some w' → (w'.Law ↔ ¬ w.Mismatched e) := by
  have hw := kept_of_reachable h
  refine ⟨hw.law, fun e w' hstep => ⟨fun hlaw hmis => ?_, fun hmis => (hw.step hstep hmis).law⟩⟩
  obtain ⟨k, hk, hnone⟩ := hw.lost hstep hmis
  have hone := hlaw.once k hk
  omega

/-- An empty queue of two entries. -/
def sampleQueue : QueueWorld where
  now := 0
  queue := ⟨[], 2, 30000000000⟩
  calls := 0
  accepted := []
  forwarded := []
  reported := []

theorem sampleQueue_started : sampleQueue.Started := ⟨rfl, rfl, rfl, rfl, rfl⟩

/-- Two packets for node 9 and one for node 8, the second bound to interface 2. -/
def sampleArrivals : List QueueEvent :=
  [.enqueue ⟨10, some (-1)⟩ ⟨1, 8, 64⟩, .enqueue ⟨11, some 2⟩ ⟨1, 9, 64⟩,
    .enqueue ⟨12, some (-1)⟩ ⟨1, 9, 64⟩]

/-- The overflow reports the oldest packet; a route over interface 2 serves the others. -/
theorem law_iff_sample : ∃ w w', matching.Reachable w ∧
    w.step (.sendPacketFromQueue 9 ⟨1, 2⟩) = some w' ∧
    (handles w'.forwarded, handles w'.reported) = ([1, 2], [0]) ∧ w.Law ∧ w'.Law := by
  have hrun : (System.exec QueueWorld.step (fun w e => ¬ w.Mismatched e) sampleQueue
      sampleArrivals).map (fun w => (decide (w.Mismatched (.sendPacketFromQueue 9 ⟨1, 2⟩)),
        (w.step (.sendPacketFromQueue 9 ⟨1, 2⟩)).map
          fun w' => (handles w'.forwarded, handles w'.reported))) =
      some (false, some ([1, 2], [0])) := by decide +kernel
  obtain ⟨w, hw, hview⟩ := System.reachable_of_exec (S := system) (fun _ _ _ => id)
    sampleQueue_started hrun
  obtain ⟨hmis, hstep⟩ := Prod.mk.inj hview
  obtain ⟨w', hstep, hview⟩ := Option.map_eq_some_iff.mp hstep
  exact ⟨w, w', hw, hstep, hview, (law_iff hw).1,
    ((law_iff hw).2 _ _ hstep).mpr (of_decide_eq_false hmis)⟩

/-- A route over interface 1 loses the packet bound to interface 2. -/
theorem not_law : ¬ ∀ w, system.Reachable w → w.Law := by
  intro h
  have hrun : (System.exec QueueWorld.step (fun _ _ => True) sampleQueue
      (sampleArrivals ++ [.sendPacketFromQueue 9 ⟨1, 1⟩])).map
        (fun w => (w.accepted, w.places 1)) = some ([0, 1, 2], 0) := by decide +kernel
  obtain ⟨w, hw, hview⟩ := System.reachable_of_exec (S := system) (fun _ _ _ => id)
    sampleQueue_started hrun
  obtain ⟨hacc, hplaces⟩ := Prod.mk.inj hview
  have hone := (h w hw.of_restrict).once 1 (by rw [hacc]; decide)
  omega

end QueueWorld

end Ns3.Aodv
