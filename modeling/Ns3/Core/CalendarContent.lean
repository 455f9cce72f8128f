import Mathlib.Data.List.Nodup
import Mathlib.Data.List.Perm.Basic
import Mathlib.Data.List.Sort
import Ns3.Core.CalendarScheduler

/-!
# The content of a calendar

What the operations do to the events is stated as a permutation of all buckets
together, so that none is lost and none is there twice. `Placed` is what holds
of the buckets: each event is in the bucket of its time, and each bucket is
sorted. Then the content decides the buckets (`buckets_eq_of_perm`).
-/

namespace Ns3.Core

namespace CalendarScheduler

variable {reverse : Bool} {b : Bucket} {ev next e : Event} {x y z : EventKey}

/-! ## Buckets -/

theorem Order.irrefl : ¬ Order reverse x x := by
  unfold Order
  split
  · exact EventKey.Lt.irrefl
  · exact EventKey.Lt.irrefl

theorem Order.trans (h : Order reverse x y) (h' : Order reverse y z) : Order reverse x z := by
  cases reverse with
  | false => exact EventKey.Lt.trans h h'
  | true => exact EventKey.Lt.trans h' h

/-- Keys with different uids are in one of the two orders. -/
theorem Order.of_not (h : ¬ Order reverse x y) (hne : x.uid ≠ y.uid) : Order reverse y x := by
  cases reverse with
  | false => exact EventKey.Lt.of_not h hne
  | true => exact EventKey.Lt.of_not h hne.symm

def Sorted (reverse : Bool) (b : Bucket) : Prop := b.Pairwise fun e e' => Order reverse e.key e'.key

theorem insertInto_perm : (insertInto reverse ev b).Perm (ev :: b) := by
  induction b with
  | nil => exact .refl _
  | cons i b ih =>
    unfold insertInto
    split
    · exact .refl _
    · exact (ih.cons i).trans (.swap ev i b)

theorem insertInto_sorted (h : Sorted reverse b) (hnew : ∀ e ∈ b, e.key.uid ≠ ev.key.uid) :
    Sorted reverse (insertInto reverse ev b) := by
  induction b with
  | nil => exact List.pairwise_singleton _ _
  | cons i b ih =>
    obtain ⟨hi, hb⟩ := List.pairwise_cons.mp h
    have hnewi := hnew i List.mem_cons_self
    unfold insertInto
    split
    · rename_i hlt
      refine List.pairwise_cons.mpr ⟨fun e he => ?_, h⟩
      rcases List.mem_cons.mp he with rfl | he
      · exact hlt
      · exact hlt.trans (hi e he)
    · rename_i hnot
      refine List.pairwise_cons.mpr ⟨fun e he => ?_,
        ih hb fun e he => hnew e (List.mem_cons_of_mem _ he)⟩
      rcases List.mem_cons.mp (insertInto_perm.subset he) with rfl | he
      · exact Order.of_not hnot hnewi.symm
      · exact hi e he

theorem pop_perm (h : nextEvent reverse b = some next) : (next :: pop reverse b).Perm b := by
  cases reverse with
  | false =>
    obtain ⟨tail, rfl⟩ := List.head?_eq_some_iff.mp h
    exact .refl _
  | true =>
    obtain ⟨front, rfl⟩ := List.getLast?_eq_some_iff.mp h
    have hpop : pop true (front ++ [next]) = front := List.dropLast_concat
    rw [hpop]
    exact (List.perm_append_singleton next front).symm

theorem pop_sorted (h : Sorted reverse b) : Sorted reverse (pop reverse b) := by
  refine List.Pairwise.sublist ?_ h
  cases reverse with
  | false => exact List.tail_sublist b
  | true => exact List.dropLast_sublist b

theorem nextEvent_mem (h : nextEvent reverse b = some next) : next ∈ b :=
  (pop_perm h).subset List.mem_cons_self

/-- The next event of a bucket is the least in it. -/
theorem nextEvent_least (hb : Sorted reverse b) (h : nextEvent reverse b = some next) (he : e ∈ b)
    (hne : e ≠ next) : next.key.Lt e.key := by
  cases reverse with
  | false =>
    obtain ⟨tail, rfl⟩ := List.head?_eq_some_iff.mp h
    exact (List.pairwise_cons.mp hb).1 e ((List.mem_cons.mp he).resolve_left hne)
  | true =>
    obtain ⟨front, rfl⟩ := List.getLast?_eq_some_iff.mp h
    have hmem : e ∈ front := by
      rcases List.mem_append.mp he with hmem | hmem
      · exact hmem
      · exact absurd (List.mem_singleton.mp hmem) hne
    exact (List.pairwise_append.mp hb).2.2 e hmem next List.mem_cons_self

theorem exists_nextEvent (reverse : Bool) (he : e ∈ b) : ∃ next, nextEvent reverse b = some next := by
  have hne := List.ne_nil_of_mem he
  cases reverse with
  | false => exact Option.isSome_iff_exists.mp (List.isSome_head?.mpr hne)
  | true => exact ⟨_, List.getLast?_eq_some_getLast hne⟩

end CalendarScheduler

open CalendarScheduler

namespace Calendar

variable {c c' : Calendar} {i j : ℕ} {b : Bucket} {ev next e : Event}

/-! ## All events -/

def events (c : Calendar) : List Event := c.buckets.flatten

theorem bucket_setBucket (hi : i < c.nBuckets) :
    (c.setBucket i b).bucket j = if j = i then b else c.bucket j := by
  unfold bucket setBucket
  split
  · rename_i hj
    rw [hj, List.getElem?_set_self hi]
    rfl
  · rename_i hj
    rw [List.getElem?_set_ne (Ne.symm hj)]

theorem nBuckets_setBucket : (c.setBucket i b).nBuckets = c.nBuckets := List.length_set

theorem mem_events : e ∈ c.events ↔ ∃ i, e ∈ c.bucket i := by
  unfold events bucket
  rw [List.mem_flatten]
  constructor
  · rintro ⟨b, hb, he⟩
    obtain ⟨i, hi⟩ := List.mem_iff_getElem?.mp hb
    exact ⟨i, by rw [hi]; exact he⟩
  · rintro ⟨i, he⟩
    cases hi : c.buckets[i]? with
    | none =>
      rw [hi] at he
      cases he
    | some b =>
      rw [hi] at he
      exact ⟨b, List.mem_iff_getElem?.mpr ⟨i, hi⟩, he⟩

/-- The events of a bucket, and those of the others. -/
theorem exists_rest (hi : i < c.nBuckets) : ∃ rest, c.events.Perm (c.bucket i ++ rest) ∧
    ∀ b, (c.setBucket i b).events.Perm (b ++ rest) := by
  have hlt : i < c.buckets.length := hi
  have hset : ∀ b : Bucket, ((c.buckets.set i b).flatten).Perm
      (b ++ ((c.buckets.take i).flatten ++ (c.buckets.drop (i + 1)).flatten)) := by
    intro b
    rw [List.set_eq_take_append_cons_drop, if_pos hlt, List.flatten_append, List.flatten_cons]
    exact List.perm_append_comm_assoc _ _ _
  refine ⟨_, ?_, hset⟩
  have hself := hset (c.bucket i)
  have hget : c.bucket i = c.buckets[i] := by
    unfold bucket
    rw [List.getElem?_eq_getElem hlt]
    rfl
  rw [hget, List.set_getElem_self] at hself
  unfold events
  rwa [hget]

/-- The buckets hold events by their time, sorted. -/
structure Placed (c : Calendar) : Prop where
  width_pos : 1 ≤ c.width
  nBuckets_pos : 1 ≤ c.nBuckets
  place : ∀ i, ∀ e ∈ c.bucket i, c.hash e.key.ts = i
  sorted : ∀ i, Sorted c.reverse (c.bucket i)

theorem Placed.hash_lt (h : c.Placed) (ts : ℕ) : c.hash ts < c.nBuckets :=
  Nat.mod_lt _ h.nBuckets_pos

theorem Placed.mem_bucket (h : c.Placed) : e ∈ c.bucket i ↔ e ∈ c.events ∧ c.hash e.key.ts = i := by
  rw [mem_events]
  constructor
  · intro he
    exact ⟨⟨i, he⟩, h.place i e he⟩
  · rintro ⟨⟨j, he⟩, rfl⟩
    rwa [h.place j e he]

/-- A write to a bucket. -/
theorem Placed.setBucket (h : c.Placed) (hi : i < c.nBuckets)
    (hplace : ∀ e ∈ b, c.hash e.key.ts = i) (hsorted : Sorted c.reverse b) :
    (c.setBucket i b).Placed := by
  have hhash : ∀ ts, (c.setBucket i b).hash ts = c.hash ts := by
    intro ts
    unfold hash
    rw [nBuckets_setBucket]
    rfl
  refine ⟨h.width_pos, by rw [nBuckets_setBucket]; exact h.nBuckets_pos, fun j e he => ?_,
    fun j => ?_⟩
  · rw [bucket_setBucket hi] at he
    rw [hhash]
    split_ifs at he with hj
    · rw [hj]
      exact hplace e he
    · exact h.place j e he
  · rw [bucket_setBucket hi]
    split
    · exact hsorted
    · exact h.sorted j

/-- The parameters of two calendars that place events alike, and have the same count. -/
structure SameShape (c c' : Calendar) : Prop where
  reverse : c'.reverse = c.reverse
  width : c'.width = c.width
  nBuckets : c'.nBuckets = c.nBuckets
  qSize : c'.qSize = c.qSize

theorem SameShape.refl : SameShape c c := ⟨rfl, rfl, rfl, rfl⟩

theorem SameShape.trans {c'' : Calendar} (h : SameShape c c') (h' : SameShape c' c'') :
    SameShape c c'' :=
  ⟨h'.reverse.trans h.reverse, h'.width.trans h.width, h'.nBuckets.trans h.nBuckets,
    h'.qSize.trans h.qSize⟩

theorem SameShape.setBucket : SameShape c (c.setBucket i b) := ⟨rfl, rfl, nBuckets_setBucket, rfl⟩

theorem SameShape.hash (h : SameShape c c') (ts : ℕ) : c'.hash ts = c.hash ts := by
  unfold Calendar.hash
  rw [h.width, h.nBuckets]

/-- The content and the parameters decide the buckets. -/
theorem buckets_eq_of_perm (h : c.Placed) (h' : c'.Placed) (hshape : SameShape c c')
    (hperm : c'.events.Perm c.events) : c'.buckets = c.buckets := by
  have hbucket : ∀ i, c'.bucket i = c.bucket i := by
    intro i
    have hsorted := h'.sorted i
    rw [hshape.reverse] at hsorted
    have : Std.Irrefl fun e e' : Event => Order c.reverse e.key e'.key := ⟨fun _ => Order.irrefl⟩
    have : Std.Antisymm fun e e' : Event => Order c.reverse e.key e'.key :=
      ⟨fun _ _ hlt hgt => absurd (hlt.trans hgt) Order.irrefl⟩
    refine List.Pairwise.eq_of_mem_iff hsorted (h.sorted i) fun e => ?_
    rw [h'.mem_bucket, h.mem_bucket, hperm.mem_iff, hshape.hash]
  refine List.ext_getElem hshape.nBuckets fun i hi' hi => ?_
  have heq := hbucket i
  unfold bucket at heq
  rwa [List.getElem?_eq_getElem hi', List.getElem?_eq_getElem hi] at heq

/-! ## Insertion -/

theorem doInsert_shape : SameShape c (c.doInsert ev) := .setBucket

theorem doInsert_spec (h : c.Placed) (hnew : ∀ e ∈ c.events, e.key.uid ≠ ev.key.uid) :
    (c.doInsert ev).Placed ∧ (c.doInsert ev).events.Perm (ev :: c.events) := by
  have hlt := h.hash_lt ev.key.ts
  constructor
  · refine h.setBucket hlt (fun e he => ?_) (insertInto_sorted (h.sorted _) fun e he => ?_)
    · rcases List.mem_cons.mp (insertInto_perm.subset he) with rfl | he
      · rfl
      · exact h.place _ e he
    · exact hnew e (mem_events.mpr ⟨_, he⟩)
  · obtain ⟨rest, hall, hset⟩ := exists_rest hlt
    refine (hset _).trans ?_
    exact (insertInto_perm.append_right rest).trans (hall.symm.cons ev)

/-- No event has the uid of another one. -/
def DifferentUids (es : List Event) : Prop := (es.map fun e => e.key.uid).Nodup

theorem DifferentUids.perm {es es' : List Event} (h : DifferentUids es) (hp : es'.Perm es) :
    DifferentUids es' := (hp.map _).nodup_iff.mpr h

theorem DifferentUids.eq {es : List Event} {e' : Event} (h : DifferentUids es) (he : e ∈ es)
    (he' : e' ∈ es) (huid : e.key.uid = e'.key.uid) : e = e' :=
  List.inj_on_of_nodup_map h he he' huid

theorem differentUids_cons {es : List Event} :
    DifferentUids (ev :: es) ↔ (∀ e ∈ es, e.key.uid ≠ ev.key.uid) ∧ DifferentUids es := by
  unfold DifferentUids
  rw [List.map_cons, List.nodup_cons, List.mem_map]
  constructor
  · rintro ⟨hnot, hes⟩
    exact ⟨fun e he huid => hnot ⟨e, he, huid⟩, hes⟩
  · rintro ⟨hnew, hes⟩
    refine ⟨?_, hes⟩
    rintro ⟨e, he, huid⟩
    exact hnew e he huid

/-- The insertion of one event after the other. -/
theorem foldl_doInsert_spec (es : List Event) (h : c.Placed)
    (huids : DifferentUids (es ++ c.events)) :
    (es.foldl doInsert c).Placed ∧ (es.foldl doInsert c).events.Perm (es ++ c.events) ∧
    SameShape c (es.foldl doInsert c) := by
  induction es generalizing c with
  | nil => exact ⟨h, .refl _, .refl⟩
  | cons ev es ih =>
    obtain ⟨hnew, -⟩ := differentUids_cons.mp huids
    obtain ⟨hplaced, hevents⟩ := doInsert_spec h fun e he =>
      hnew e (List.mem_append_right es he)
    have hmove : (es ++ (c.doInsert ev).events).Perm (ev :: es ++ c.events) :=
      (hevents.append_left es).trans List.perm_middle
    obtain ⟨hall, hperm, hshape⟩ := ih hplaced (huids.perm hmove)
    exact ⟨hall, hperm.trans hmove, doInsert_shape.trans hshape⟩

/-! ## New buckets -/

theorem init_spec (c : Calendar) {n width : ℕ} (hn : 1 ≤ n) (hw : 1 ≤ width) (prio : ℕ) :
    (c.init n width prio).Placed ∧ (c.init n width prio).events = [] := by
  have hempty : ∀ i, (c.init n width prio).bucket i = [] := by
    intro i
    unfold bucket init
    dsimp only
    rw [List.getElem?_replicate]
    split
    · rfl
    · rfl
  refine ⟨⟨hw, ?_, fun i e he => ?_, fun i => ?_⟩, ?_⟩
  · unfold nBuckets init
    rwa [List.length_replicate]
  · rw [hempty] at he
    cases he
  · rw [hempty]
    exact .nil
  · refine List.eq_nil_iff_forall_not_mem.mpr fun e he => ?_
    obtain ⟨i, hi⟩ := mem_events.mp he
    rw [hempty] at hi
    cases hi

theorem doResize_spec {n width : ℕ} (hn : 1 ≤ n) (hw : 1 ≤ width)
    (huids : DifferentUids c.events) :
    (c.doResize n width).Placed ∧ (c.doResize n width).events.Perm c.events ∧
    SameShape (c.init n width c.lastPrio) (c.doResize n width) := by
  obtain ⟨hplaced, hempty⟩ := init_spec c hn hw c.lastPrio
  obtain ⟨hall, hperm, hshape⟩ := foldl_doInsert_spec c.buckets.flatten hplaced (by
    rw [hempty, List.append_nil]
    exact huids)
  rw [hempty, List.append_nil] at hperm
  exact ⟨hall, hperm, hshape⟩

end Calendar

end Ns3.Core
