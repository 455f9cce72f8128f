import Ns3.Core.CalendarSearch
import Ns3.Lib.Run

/-!
# Runs of `CalendarScheduler`

Sampling takes out the least events and puts them back, and gives back the
calendar it was called on (`calculateNewWidth_spec`). Each operation keeps
`Ready`, and a run keeps beside the calendar the events that have been inserted
and not yet removed, and the time of the last one that `RemoveNext` returned.
-/

namespace Ns3.Core

open Ns3.Lib
open CalendarScheduler

namespace Calendar

variable {c c' : Calendar} {ev e m : Event} {n width q : ℕ}

/-! ## Sampling -/

theorem gather_spec (hc : c.Ready) (hn : n ≤ c.events.length) :
    ∃ samples c', gather n c = some (samples, c') ∧ c'.Ready ∧ SameShape c c' ∧
      c.events.Perm (samples ++ c'.events) := by
  induction n generalizing c with
  | zero => exact ⟨[], c, rfl, hc, .refl, .refl _⟩
  | succ n ih =>
    have hne : c.events ≠ [] := by
      rintro hempty
      rw [hempty] at hn
      exact absurd hn (Nat.not_succ_le_zero n)
    obtain ⟨m, hm, hlt⟩ := exists_least hc.uids hne
    obtain ⟨c₁, hnext, hready, hshape, hperm, -⟩ := doRemoveNext_spec hc ⟨hm, hlt⟩
    have hlength := hperm.length_eq
    rw [List.length_cons] at hlength
    obtain ⟨samples, c₂, hgather, hready', hshape', hperm'⟩ := ih hready (by omega)
    refine ⟨m :: samples, c₂, ?_, hready', hshape.trans hshape', hperm.trans (hperm'.cons m)⟩
    unfold gather
    rw [hnext]
    show (gather n c₁).bind _ = _
    rw [hgather]
    rfl

/-- Only the buckets are different after insertions. -/
theorem foldl_doInsert_eq (es : List Event) (c : Calendar) :
    es.foldl doInsert c = { c with buckets := (es.foldl doInsert c).buckets } := by
  induction es generalizing c with
  | nil => rfl
  | cons ev es ih => exact ih (c.doInsert ev)

theorem widthOf_spec (samples : List Event) : 1 ≤ widthOf samples ∧ widthOf samples < 2 ^ 64 := by
  unfold widthOf
  dsimp only
  omega

theorem nSamples_le : c.nSamples ≤ c.qSize := by
  unfold nSamples
  split
  · exact Nat.min_le_right _ _
  · omega

/-- Sampling leaves the calendar as it is. -/
theorem calculateNewWidth_spec (hc : c.Ready) (hq : c.qSize ≤ c.events.length) :
    ∃ width, c.calculateNewWidth = some (width, c) ∧ 1 ≤ width ∧ width < 2 ^ 64 := by
  unfold calculateNewWidth
  split
  · exact ⟨1, rfl, le_rfl, by decide⟩
  · obtain ⟨samples, gathered, hgather, hready, hshape, hperm⟩ :=
      gather_spec hc (nSamples_le.trans hq)
    obtain ⟨hplaced, hback, hshape'⟩ := foldl_doInsert_spec samples hready.placed (hc.uids.perm hperm.symm)
    have hsame := hshape.trans hshape'
    have hbuckets := buckets_eq_of_perm hc.placed hplaced hsame (hback.trans hperm.symm)
    refine ⟨widthOf samples, ?_, widthOf_spec samples⟩
    rw [hgather]
    show some (widthOf samples, _) = _
    congr 2
    rw [hsame.reverse, hsame.width, hsame.qSize, hbuckets]

/-! ## Resizing -/

theorem Ready.doResize (hc : c.Ready) (hn : 1 ≤ n) (hwidth : 1 ≤ width) (hlt : width < 2 ^ 64) :
    (c.doResize n width).Ready ∧ (c.doResize n width).events.Perm c.events ∧
    (c.doResize n width).lastPrio = c.lastPrio ∧ (c.doResize n width).qSize = c.qSize := by
  obtain ⟨hplaced, hperm, hshape⟩ := doResize_spec hn hwidth hc.uids
  have heq := foldl_doInsert_eq c.buckets.flatten (c.init n width c.lastPrio)
  have hlast : (c.doResize n width).lastPrio = c.lastPrio := (congrArg Calendar.lastPrio heq).trans rfl
  have hw : (c.doResize n width).width = width := congrArg Calendar.width heq
  refine ⟨⟨hplaced, hc.uids.perm hperm, by rwa [hw], by rw [hlast]; exact hc.lastPrio_lt, ?_, ?_,
    fun e he => ?_⟩, hperm, hlast, hshape.qSize⟩
  · rw [hshape.hash, hlast]
    have hbucket : (c.doResize n width).lastBucket = c.lastPrio / width % n :=
      congrArg Calendar.lastBucket heq
    rw [hbucket]
    unfold hash nBuckets init
    rw [List.length_replicate]
  · have htop : (c.doResize n width).bucketTop = (c.lastPrio / width + 1) * width % 2 ^ 64 :=
      congrArg Calendar.bucketTop heq
    rw [htop, hlast, hw, Nat.mod_eq_of_lt (top_lt hlt hc.lastPrio_lt le_rfl)]
  · rw [hlast]
    exact hc.inTime e (hperm.subset he)

/-- The count of a calendar is not above the number of its events. -/
def Counted (c : Calendar) : Prop := c.qSize = c.events.length % 2 ^ 32

theorem Counted.le (h : c.Counted) : c.qSize ≤ c.events.length := by
  rw [h]
  exact Nat.mod_le _ _

/-- What an operation leaves as it is. -/
structure Resized (c c' : Calendar) : Prop where
  ready : c'.Ready
  counted : c'.Counted
  events : c'.events.Perm c.events
  lastPrio : c'.lastPrio = c.lastPrio

theorem resize_spec (hc : c.Ready) (hq : c.Counted) (hn : 1 ≤ n) :
    ∃ c', c.resize n = some c' ∧ Resized c c' := by
  obtain ⟨width, hwidth, hpos, hlt⟩ := calculateNewWidth_spec hc hq.le
  obtain ⟨hready, hperm, hlast, hsize⟩ := hc.doResize hn hpos hlt
  refine ⟨c.doResize n width, ?_, hready, ?_, hperm, hlast⟩
  · unfold resize
    rw [hwidth]
    rfl
  · unfold Counted
    rw [hsize, hperm.length_eq]
    exact hq

theorem resizeUp_spec (hc : c.Ready) (hq : c.Counted) :
    ∃ c', c.resizeUp = some c' ∧ Resized c c' := by
  have hn := hc.placed.nBuckets_pos
  unfold resizeUp
  split
  · exact resize_spec hc hq (by omega)
  · exact ⟨c, rfl, hc, hq, .refl _, rfl⟩

theorem resizeDown_spec (hc : c.Ready) (hq : c.Counted) :
    ∃ c', c.resizeDown = some c' ∧ Resized c c' := by
  unfold resizeDown
  split
  · rename_i hsmall
    exact resize_spec hc hq (by omega)
  · exact ⟨c, rfl, hc, hq, .refl _, rfl⟩

/-! ## Operations -/

/-- The count is right after an operation. -/
theorem Ready.count (hc : c.Ready) (hq : q = c.events.length % 2 ^ 32) :
    { c with qSize := q }.Ready ∧ { c with qSize := q }.Counted ∧
    { c with qSize := q }.events = c.events :=
  ⟨{ placed := ⟨hc.placed.width_pos, hc.placed.nBuckets_pos, hc.placed.place, hc.placed.sorted⟩
     uids := hc.uids
     width_lt := hc.width_lt
     lastPrio_lt := hc.lastPrio_lt
     lastBucket := hc.lastBucket
     bucketTop := hc.bucketTop
     inTime := hc.inTime }, hq, rfl⟩

/-- An event that the calendar may get: its uid is new, and it is not before the last one. -/
structure Admits (c : Calendar) (ev : Event) : Prop where
  new : ∀ e ∈ c.events, e.key.uid ≠ ev.key.uid
  notBefore : c.lastPrio ≤ ev.key.ts
  ts_lt : ev.key.ts < 2 ^ 63

theorem inserted_spec (hc : c.Ready) (hq : c.Counted) (hev : c.Admits ev) :
    (c.inserted ev).Ready ∧ (c.inserted ev).Counted ∧
    (c.inserted ev).events.Perm (ev :: c.events) ∧ (c.inserted ev).lastPrio = c.lastPrio := by
  obtain ⟨hplaced, hperm⟩ := doInsert_spec hc.placed hev.new
  have hready : (c.doInsert ev).Ready := by
    refine ⟨hplaced, (differentUids_cons.mpr ⟨hev.new, hc.uids⟩).perm hperm, hc.width_lt,
      hc.lastPrio_lt, ?_, hc.bucketTop, fun e he => ?_⟩
    · exact hc.lastBucket.trans (doInsert_shape.hash c.lastPrio).symm
    · rcases List.mem_cons.mp (hperm.subset he) with rfl | he
      · exact ⟨hev.notBefore, hev.ts_lt⟩
      · exact hc.inTime e he
  have hcount : (c.qSize + 1) % 2 ^ 32 = (c.doInsert ev).events.length % 2 ^ 32 := by
    rw [hperm.length_eq, List.length_cons, hq, Nat.mod_add_mod]
  obtain ⟨hr, hq', -⟩ := hready.count hcount
  exact ⟨hr, hq', hperm, rfl⟩

theorem counted_pred {es es' : List Event} (h : es.Perm (ev :: es'))
    (hq : q = es.length % 2 ^ 32) : (q + 2 ^ 32 - 1) % 2 ^ 32 = es'.length % 2 ^ 32 := by
  have hlength := h.length_eq
  rw [List.length_cons] at hlength
  omega

theorem nextRemoved_spec (hc : c.Ready) (hq : c.Counted) (hm : c.IsLeast m) :
    ∃ c', c.nextRemoved = some (m, c') ∧ c'.Ready ∧ c'.Counted ∧
      c.events.Perm (m :: c'.events) ∧ c'.lastPrio = m.key.ts := by
  obtain ⟨c', hnext, hready, hshape, hperm, hlast⟩ := doRemoveNext_spec hc hm
  obtain ⟨hr, hq', he⟩ := hready.count (counted_pred hperm (hshape.qSize.trans hq))
  refine ⟨_, ?_, hr, hq', ?_, hlast⟩
  · unfold nextRemoved
    rw [hnext]
    rfl
  · rw [he]
    exact hperm

theorem removed_spec (hc : c.Ready) (hq : c.Counted) (hev : ev ∈ c.events) :
    ∃ c', c.removed ev = some c' ∧ c'.Ready ∧ c'.Counted ∧
      c.events.Perm (ev :: c'.events) ∧ c'.lastPrio = c.lastPrio := by
  have hlt := hc.placed.hash_lt ev.key.ts
  have hmem := hc.placed.mem_bucket.mpr ⟨hev, rfl⟩
  obtain ⟨a, front, back, -, ha, hbucket, herase⟩ :=
    List.exists_of_eraseP (p := fun e : Event => decide (e.key.uid = ev.key.uid)) hmem
      (decide_eq_true rfl)
  -- the uid is that of one event only
  obtain rfl : a = ev := by
    have hin : a ∈ c.bucket (c.hash ev.key.ts) := by
      rw [hbucket]
      exact List.mem_append_right front List.mem_cons_self
    exact hc.uids.eq (hc.placed.mem_bucket.mp hin).1 hev (of_decide_eq_true ha)
  have hpop : (c.bucket (c.hash a.key.ts)).Perm (a :: (front ++ back)) := by
    rw [hbucket]
    exact List.perm_middle
  obtain ⟨rest, hall, hset⟩ := exists_rest hlt
  have hevents : c.events.Perm
      (a :: (c.setBucket (c.hash a.key.ts) (front ++ back)).events) :=
    hall.trans ((hpop.append_right rest).trans ((hset _).symm.cons a))
  have hsub : (front ++ back).Sublist (c.bucket (c.hash a.key.ts)) := by
    rw [hbucket]
    exact (List.sublist_cons_self a back).append_left front
  have hplaced := hc.placed.setBucket hlt
    (fun e he => hc.placed.place _ e (hsub.subset he))
    (List.Pairwise.sublist hsub (hc.placed.sorted _))
  have hready : (c.setBucket (c.hash a.key.ts) (front ++ back)).Ready := by
    refine ⟨hplaced, (differentUids_cons.mp (hc.uids.perm hevents.symm)).2, hc.width_lt,
      hc.lastPrio_lt, ?_, hc.bucketTop, fun e he => ?_⟩
    · exact hc.lastBucket.trans (SameShape.setBucket.hash c.lastPrio).symm
    · exact hc.inTime e (hevents.symm.subset (List.mem_cons_of_mem a he))
  obtain ⟨hr, hq', he⟩ := hready.count (counted_pred hevents hq)
  refine ⟨_, ?_, hr, hq', ?_, rfl⟩
  · unfold removed
    dsimp only
    rw [if_pos (List.any_eq_true.mpr ⟨a, hmem, decide_eq_true rfl⟩), herase]
  · rw [he]
    exact hevents

theorem start_spec (reverse : Bool) :
    (start reverse).Ready ∧ (start reverse).Counted ∧ (start reverse).events = [] := by
  obtain ⟨hplaced, hempty⟩ :=
    init_spec ⟨reverse, [], 0, 0, 0, 0, 0⟩ (n := 2) (by decide) le_rfl 0
  change (start reverse).events = [] at hempty
  refine ⟨⟨hplaced, ?_, ?_, ?_, rfl, ?_, fun e he => ?_⟩, ?_, hempty⟩
  · rw [hempty]
    exact List.nodup_nil
  · exact Nat.one_lt_two_pow (by decide)
  · exact Nat.two_pow_pos 63
  · show (0 / 1 + 1) * 1 % 2 ^ 64 = (0 / 1 + 1) * 1
    decide
  · rw [hempty] at he
    cases he
  · unfold Counted
    rw [hempty]
    rfl

end Calendar

open Calendar

/-! ## Runs -/

structure CalendarState where
  calendar : Calendar
  pending : List Event
  lastTs : ℕ

inductive CalendarOp where
  | insert (ev : Event)
  | peekNext
  | removeNext
  | remove (ev : Event)

namespace CalendarState

/-- The event may be inserted. -/
def Allows (s : CalendarState) (ev : Event) : Prop :=
  (∀ e ∈ s.pending, e.key.uid ≠ ev.key.uid) ∧ s.lastTs ≤ ev.key.ts ∧ ev.key.ts < 2 ^ 63

instance (s : CalendarState) (ev : Event) : Decidable (s.Allows ev) :=
  inferInstanceAs (Decidable (_ ∧ _))

def step (s : CalendarState) : CalendarOp → Option CalendarState
  | .insert ev =>
    if s.Allows ev then
      (s.calendar.insert ev).map fun c => ⟨c, ev :: s.pending, s.lastTs⟩
    else none
  | .peekNext => s.calendar.peekNext.map fun _ => s
  | .removeNext => s.calendar.removeNext.map fun r => ⟨r.2, s.pending.erase r.1, r.1.key.ts⟩
  | .remove ev =>
    if ev ∈ s.pending then
      (s.calendar.remove ev).map fun c => ⟨c, s.pending.erase ev, s.lastTs⟩
    else none

/-- The calendar in the middle of an operation, when it may resize. -/
inductive Resizes (s : CalendarState) : Calendar → Prop
  | insert {ev : Event} (h : s.Allows ev) : Resizes s (s.calendar.inserted ev)
  | removeNext {ev : Event} {c : Calendar} (h : s.calendar.nextRemoved = some (ev, c)) :
      Resizes s c
  | remove {ev : Event} {c : Calendar} (h : ev ∈ s.pending) (hc : s.calendar.removed ev = some c) :
      Resizes s c

/-- The calendar holds the events that have been inserted and not removed, every operation on them
ends, and the least of them is the next. -/
structure LeastFirst (s : CalendarState) : Prop where
  content : s.calendar.events.Perm s.pending
  insert : ∀ ev, s.Allows ev → (s.calendar.insert ev).isSome
  remove : ∀ ev ∈ s.pending, (s.calendar.remove ev).isSome
  next : s.pending ≠ [] → ∃ m ∈ s.pending, (∀ e ∈ s.pending, e ≠ m → m.key.Lt e.key) ∧
    s.calendar.peekNext = some m ∧ ∃ c, s.calendar.removeNext = some (m, c)
  sampling : ∀ c, s.Resizes c → ∃ width, c.calculateNewWidth = some (width, c)

structure Inv (s : CalendarState) : Prop where
  ready : s.calendar.Ready
  counted : s.calendar.Counted
  content : s.calendar.events.Perm s.pending
  lastPrio : s.calendar.lastPrio = s.lastTs

end CalendarState

open CalendarState

def calendarSystem (reverse : Bool) : System CalendarState CalendarOp where
  init s := s = ⟨.start reverse, [], 0⟩
  step s op s' := s.step op = some s'

variable {s s' : CalendarState} {op : CalendarOp} {c c' : Calendar} {ev m : Event}

namespace CalendarState

theorem Inv.admits (hs : s.Inv) (h : s.Allows ev) : s.calendar.Admits ev where
  new e he := h.1 e (hs.content.subset he)
  notBefore := hs.lastPrio ▸ h.2.1
  ts_lt := h.2.2

theorem Inv.insert (hs : s.Inv) (h : s.Allows ev) :
    ∃ c, s.calendar.insert ev = some c ∧ Inv ⟨c, ev :: s.pending, s.lastTs⟩ := by
  obtain ⟨hready, hcounted, hperm, hlast⟩ := inserted_spec hs.ready hs.counted (hs.admits h)
  obtain ⟨c, hc, hres⟩ := resizeUp_spec hready hcounted
  exact ⟨c, hc, hres.ready, hres.counted, hres.events.trans (hperm.trans (hs.content.cons ev)),
    hres.lastPrio.trans (hlast.trans hs.lastPrio)⟩

/-- What is left of the pending events. -/
theorem Inv.erase (hs : s.Inv) (hperm : s.calendar.events.Perm (m :: c.events)) :
    c.events.Perm (s.pending.erase m) := by
  have herase := (hs.content.symm.trans hperm).erase m
  rw [List.erase_cons_head] at herase
  exact herase.symm

theorem Inv.removeNext (hs : s.Inv) (hm : s.calendar.IsLeast m) :
    ∃ c, s.calendar.removeNext = some (m, c) ∧ Inv ⟨c, s.pending.erase m, m.key.ts⟩ := by
  obtain ⟨c₁, hnext, hready, hcounted, hperm, hlast⟩ := nextRemoved_spec hs.ready hs.counted hm
  obtain ⟨c, hc, hres⟩ := resizeDown_spec hready hcounted
  refine ⟨c, ?_, hres.ready, hres.counted, hres.events.trans (hs.erase hperm),
    hres.lastPrio.trans hlast⟩
  unfold Calendar.removeNext
  rw [hnext]
  show c₁.resizeDown.bind _ = _
  rw [hc]
  rfl

theorem Inv.remove (hs : s.Inv) (hev : ev ∈ s.pending) :
    ∃ c, s.calendar.remove ev = some c ∧ Inv ⟨c, s.pending.erase ev, s.lastTs⟩ := by
  obtain ⟨c₁, hremoved, hready, hcounted, hperm, hlast⟩ :=
    removed_spec hs.ready hs.counted (hs.content.symm.subset hev)
  obtain ⟨c, hc, hres⟩ := resizeDown_spec hready hcounted
  refine ⟨c, ?_, hres.ready, hres.counted, hres.events.trans (hs.erase hperm),
    hres.lastPrio.trans (hlast.trans hs.lastPrio)⟩
  unfold Calendar.remove
  rw [hremoved]
  exact hc

theorem Inv.exists_least (hs : s.Inv) (hne : s.pending ≠ []) : ∃ m, s.calendar.IsLeast m := by
  obtain ⟨m, hm, hlt⟩ := Calendar.exists_least hs.ready.uids fun hempty =>
    hne (hempty ▸ hs.content).symm.eq_nil
  exact ⟨m, hm, hlt⟩

/-- There is nothing to remove from an empty calendar. -/
theorem Inv.ne_nil (hs : s.Inv) (h : (s.calendar.nextRemoved).isSome) : s.pending ≠ [] := by
  intro hnil
  have hempty := hs.content
  rw [hnil] at hempty
  unfold nextRemoved at h
  rw [doRemoveNext_empty hempty.eq_nil] at h
  cases h

theorem Inv.step (hs : s.Inv) (h : s.step op = some s') : s'.Inv := by
  cases op with
  | insert ev =>
    unfold CalendarState.step at h
    dsimp only at h
    split_ifs at h with hev
    obtain ⟨c, hc, hinv⟩ := hs.insert hev
    rw [hc] at h
    cases h
    exact hinv
  | peekNext =>
    obtain ⟨next, -, rfl⟩ := Option.map_eq_some_iff.mp h
    exact hs
  | removeNext =>
    obtain ⟨r, hr, rfl⟩ := Option.map_eq_some_iff.mp h
    obtain ⟨r', hr', -⟩ := Option.bind_eq_some_iff.mp hr
    have hne := hs.ne_nil (Option.isSome_iff_exists.mpr ⟨r', hr'⟩)
    obtain ⟨m, hm⟩ := hs.exists_least hne
    obtain ⟨c, hc, hinv⟩ := hs.removeNext hm
    rw [hc] at hr
    cases hr
    exact hinv
  | remove ev =>
    unfold CalendarState.step at h
    dsimp only at h
    split_ifs at h with hev
    obtain ⟨c, hc, hinv⟩ := hs.remove hev
    rw [hc] at h
    cases h
    exact hinv

theorem Inv.sampling (hs : s.Inv) (h : s.Resizes c) :
    ∃ width, c.calculateNewWidth = some (width, c) := by
  have hready : c.Ready ∧ c.Counted := by
    cases h with
    | insert hev =>
      obtain ⟨hready, hcounted, -⟩ := inserted_spec hs.ready hs.counted (hs.admits hev)
      exact ⟨hready, hcounted⟩
    | removeNext hc =>
      obtain ⟨m, hm⟩ := hs.exists_least (hs.ne_nil (Option.isSome_iff_exists.mpr ⟨_, hc⟩))
      obtain ⟨c', hnext, hready, hcounted, -⟩ := nextRemoved_spec hs.ready hs.counted hm
      rw [hnext] at hc
      cases hc
      exact ⟨hready, hcounted⟩
    | remove hev hc =>
      obtain ⟨c', hremoved, hready, hcounted, -⟩ :=
        removed_spec hs.ready hs.counted (hs.content.symm.subset hev)
      rw [hremoved] at hc
      cases hc
      exact ⟨hready, hcounted⟩
  obtain ⟨width, hwidth, -⟩ := calculateNewWidth_spec hready.1 hready.2.le
  exact ⟨width, hwidth⟩

theorem Inv.leastFirst (hs : s.Inv) : s.LeastFirst where
  content := hs.content
  insert ev hev := by
    obtain ⟨c, hc, -⟩ := hs.insert hev
    exact Option.isSome_iff_exists.mpr ⟨c, hc⟩
  remove ev hev := by
    obtain ⟨c, hc, -⟩ := hs.remove hev
    exact Option.isSome_iff_exists.mpr ⟨c, hc⟩
  next hne := by
    obtain ⟨m, hm⟩ := hs.exists_least hne
    obtain ⟨c, hc, -⟩ := hs.removeNext hm
    refine ⟨m, hs.content.subset hm.mem, fun e he => ?_, peekNext_eq hs.ready hm, c, hc⟩
    exact hm.lt e (hs.content.symm.subset he)
  sampling _ h := hs.sampling h

theorem calendar_leastFirst {reverse : Bool} (h : (calendarSystem reverse).Reachable s) :
    s.LeastFirst := by
  refine (h.invariant (P := Inv) ?_ fun s op s' hs hstep => hs.step hstep).leastFirst
  rintro s rfl
  obtain ⟨hready, hcounted, hempty⟩ := start_spec reverse
  exact ⟨hready, hcounted, by rw [hempty], rfl⟩

/-! ## Examples -/

/-- Times of a wide range, so that the width changes with the number of buckets. -/
def sampleOps : List CalendarOp :=
  [1000, 5, 70, 900, 30].map (fun ts => .insert ⟨ts, ts, BitVec.ofNat 32 ts, 0⟩) ++
    [.removeNext, .peekNext, .remove ⟨70, 70, 70, 0⟩]

theorem sample_leastFirst : ∃ s : CalendarState, s.pending.map (·.impl) = [30, 900, 1000] ∧
    s.calendar.nBuckets = 4 ∧ s.LeastFirst := by
  have hrun : (System.exec CalendarState.step (fun _ _ => True) ⟨.start true, [], 0⟩
      sampleOps).map (fun s => (s.pending.map (·.impl), s.calendar.nBuckets)) =
      some ([30, 900, 1000], 4) := by decide
  obtain ⟨s, hs, hview⟩ := System.reachable_of_exec (S := calendarSystem true)
    (fun _ _ _ => id) rfl hrun
  obtain ⟨hpending, hbuckets⟩ := Prod.mk.inj hview
  exact ⟨s, hpending, hbuckets, calendar_leastFirst hs.of_restrict⟩

end CalendarState

end Ns3.Core
