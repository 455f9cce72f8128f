import Ns3.Core.Simulator

/-!
# The simulator runs events in order

Whether an event has expired is not recorded: it is read off its key, and the
key of the event that runs. `Inv` says that this is right: the events in the
scheduler come after the current one, and an event that is not there was
started, cancelled or removed. It holds as long as uids do not wrap around.
-/

namespace Ns3.Core

open Ns3.Lib

variable {σ : Type} {Q : PriorityQueue Event σ} {valid : σ → Prop} {holds : σ → Event → Prop}

/-- The id that was given for an event. -/
def Event.id (e : Event) : EventId := ⟨some e.impl, e.key.ts, e.key.context, e.key.uid⟩

theorem Event.id_inj {e e' : Event} (h : e.id = e'.id) : e = e' := by
  obtain ⟨impl, ts, uid, context⟩ := e
  obtain ⟨impl', ts', uid', context'⟩ := e'
  simp only [Event.id, EventId.mk.injEq, Option.some.injEq] at h
  obtain ⟨rfl, rfl, rfl, rfl⟩ := h
  rfl

/-- Where the simulator is, as a key. -/
def Simulator.currentKey (m : Simulator σ) : EventKey := ⟨m.currentTs, m.currentUid, m.currentContext⟩

namespace Program

/-- The implementation of the event is flagged as cancelled. -/
def Flagged (w : Program σ) (id : EventId) : Prop := w.simulator.nullOrCancelled id = true

/-- `pending` are the events from other threads that have no uid yet. -/
structure Inv (valid : σ → Prop) (holds : σ → Event → Prop) (pending : List EventWithContext)
    (w : Program σ) : Prop where
  valid : valid w.simulator.events
  uid : w.simulator.uid = BitVec.ofNat 32 (4 + w.created.length)
  impls : (w.created.map EventId.impl ++ pending.map fun ev => some ev.event).Nodup
  heap : ∀ x ∈ w.created.map EventId.impl ++ pending.map fun ev => some ev.event,
    ∃ i < w.simulator.heap, x = some i
  uids : ∀ id ∈ w.created, id.uid = 2 ∨
    (4 ≤ id.uid.toNat ∧ id.uid.toNat < 4 + w.created.length)
  distinct : ∀ id ∈ w.created, ∀ id' ∈ w.created, id.uid = id'.uid → id.uid ≠ 2 → id = id'
  current : w.simulator.currentUid.toNat < 4 + w.created.length
  queued : ∀ e, holds w.simulator.events e → e.id ∈ w.created ∧ e.key.uid ≠ 2 ∧
    w.simulator.currentKey.Lt e.key ∧ ¬ w.started e.id
  ordinary : ∀ id ∈ w.created, id.uid ≠ 2 → (∃ e, holds w.simulator.events e ∧ e.id = id) ∨
    w.started id ∨ (id ∈ w.dropped ∧ w.Flagged id)
  waiting : ∀ id ∈ w.simulator.destroyEvents, id ∈ w.created ∧ id.uid = 2 ∧ ¬ w.started id
  waiting_nodup : w.simulator.destroyEvents.Nodup
  final : ∀ id ∈ w.created, id.uid = 2 → id ∈ w.simulator.destroyEvents ∨ w.started id ∨
    id ∈ w.dropped
  executed : ∀ id ∈ w.executed, id ∈ w.created ∧ id.uid ≠ 2 ∧ ¬ w.simulator.currentKey.Lt id.key
  order : w.executed.Pairwise fun a b => a.key.Lt b.key
  destroyed : ∀ id ∈ w.destroyed, id ∈ w.created ∧ id.uid = 2
  destroyed_nodup : w.destroyed.Nodup
  cancelled : ∀ i ∈ w.simulator.cancelled, some i ∈ w.created.map EventId.impl
  flagged : ∀ id ∈ w.created, w.Flagged id → id ∈ w.dropped
  dropped : ∀ id ∈ w.dropped, id ∈ w.created ∧ ¬ w.started id ∧
    (w.Flagged id ∨ (id.uid = 2 ∧ id ∉ w.simulator.destroyEvents))

variable {w w' : Program σ} {pending : List EventWithContext}

/-- Two events that were created have different implementations. -/
theorem Inv.eq_of_impl (h : Inv valid holds pending w) {id id' : EventId} (hid : id ∈ w.created)
    (hid' : id' ∈ w.created) (heq : id.impl = id'.impl) : id = id' :=
  List.inj_on_of_nodup_map (List.nodup_append.mp h.impls).1 hid hid' heq

theorem Inv.exists_impl (h : Inv valid holds pending w) {id : EventId} (hid : id ∈ w.created) :
    ∃ i, id.impl = some i := by
  obtain ⟨i, -, hi⟩ := h.heap id.impl (List.mem_append_left _ (List.mem_map_of_mem hid))
  exact ⟨i, hi⟩

theorem isExpired_ordinary {m : Simulator σ} {id : EventId} (hid : id.uid ≠ 2) :
    m.isExpired id = true ↔ ¬ m.currentKey.Lt id.key ∨ m.nullOrCancelled id = true := by
  have hkey : ¬ m.currentKey.Lt id.key ↔
      id.ts < m.currentTs ∨ (id.ts = m.currentTs ∧ id.uid ≤ m.currentUid) := by
    unfold EventKey.Lt Simulator.currentKey EventId.key
    dsimp only
    rw [BitVec.lt_def, BitVec.le_def]
    omega
  unfold Simulator.isExpired
  rw [if_neg hid, hkey]
  simp only [Bool.or_eq_true, decide_eq_true_eq]

theorem isExpired_destroy {m : Simulator σ} {id : EventId} (hid : id.uid = 2) :
    m.isExpired id = true ↔ m.nullOrCancelled id = true ∨ id ∉ m.destroyEvents := by
  unfold Simulator.isExpired
  rw [if_pos hid]
  cases m.nullOrCancelled id <;> simp

/-- **What `IsExpired` says.** -/
theorem Inv.isExpired_iff (h : Inv valid holds pending w) {id : EventId} (hid : id ∈ w.created) :
    w.simulator.isExpired id = true ↔ w.started id ∨ id ∈ w.dropped := by
  by_cases huid : id.uid = 2
  · rw [isExpired_destroy huid]
    constructor
    · rintro (hflag | hgone)
      · exact .inr (h.flagged id hid hflag)
      · exact (h.final id hid huid).resolve_left hgone
    · rintro (hstarted | hdropped)
      · exact .inr fun hwait => (h.waiting id hwait).2.2 hstarted
      · exact (h.dropped id hdropped).2.2.imp_right And.right
  · rw [isExpired_ordinary huid]
    constructor
    · rintro (hpast | hflag)
      · rcases h.ordinary id hid huid with ⟨e, he, rfl⟩ | hstarted | ⟨hdropped, -⟩
        · exact absurd (h.queued e he).2.2.1 hpast
        · exact .inl hstarted
        · exact .inr hdropped
      · exact .inr (h.flagged id hid hflag)
    · rintro ((hexecuted | hdestroyed) | hdropped)
      · exact .inl (h.executed id hexecuted).2.2
      · exact absurd (h.destroyed id hdestroyed).2 huid
      · exact .inr ((h.dropped id hdropped).2.2.resolve_right fun hd => huid hd.1)

/-! ## Scheduling -/

/-- The implementations in use, when an event is created. -/
theorem perm_impls (created : List EventId) (pending : List EventWithContext) (id : EventId) :
    ((created ++ [id]).map EventId.impl ++ pending.map fun ev => some ev.event).Perm
      (id.impl :: (created.map EventId.impl ++ pending.map fun ev => some ev.event)) := by
  rw [List.map_append, List.append_assoc]
  exact List.perm_middle

/-- The uid that the next event gets. -/
theorem Inv.toNat_uid (h : Inv valid holds pending w) (hfew : w.created.length < 2 ^ 32 - 4) :
    w.simulator.uid.toNat = 4 + w.created.length := by
  rw [h.uid, BitVec.toNat_ofNat]
  omega

/-- An event gets the next uid, and goes into the scheduler. -/
theorem Inv.insertEvent (L : Q.Lawful (fun a b => a.key.Lt b.key) (fun e => e.key.uid) valid holds)
    (h : Inv valid holds pending w) (hfew : w.created.length < 2 ^ 32 - 4) {impl : ℕ}
    (ts : ℕ) (context : BitVec 32) (hheap : impl < w.simulator.heap)
    (hnew : some impl ∉ w.created.map EventId.impl ++ pending.map fun ev => some ev.event)
    (hts : w.simulator.currentTs ≤ ts) :
    Inv valid holds pending (w.create (w.simulator.insertEvent Q impl ts context)) := by
  have huid := h.toNat_uid hfew
  have hdifferent : ∀ e, holds w.simulator.events e → e.key.uid ≠ w.simulator.uid := by
    intro e he heq
    have hid := (h.queued e he).1
    have := h.uids e.id hid
    have hne := (h.queued e he).2.1
    have hbound := (this.resolve_left hne).2
    rw [show e.id.uid = w.simulator.uid from heq, huid] at hbound
    omega
  have hne : w.simulator.uid ≠ 2 := by
    rw [Ne, ← BitVec.toNat_inj, huid]
    show ¬ 4 + w.created.length = 2
    omega
  have hfresh : (⟨some impl, ts, context, w.simulator.uid⟩ : EventId) ∉ w.created := fun hmem =>
    hnew (List.mem_append_left _ (List.mem_map_of_mem hmem))
  have hmem : ∀ id : EventId, id ∈ w.created ++ [⟨some impl, ts, context, w.simulator.uid⟩] ↔
      id ∈ w.created ∨ id = ⟨some impl, ts, context, w.simulator.uid⟩ := fun id => by simp
  have hperm := perm_impls w.created pending ⟨some impl, ts, context, w.simulator.uid⟩
  refine
    { valid := L.valid_insert h.valid hdifferent
      uid := ?uid
      impls := hperm.nodup_iff.mpr (List.nodup_cons.mpr ⟨hnew, h.impls⟩)
      heap := fun x hx => ?heap
      uids := fun id hid => ?uids
      distinct := fun id hid id' hid' heq hid₂ => ?distinct
      current := ?current
      queued := fun e he => ?queued
      ordinary := fun id hid hid₂ => ?ordinary
      waiting := fun id hid => ?waiting
      waiting_nodup := h.waiting_nodup
      final := fun id hid hid₂ => ?final
      executed := fun id hid => ?executed
      order := h.order
      destroyed := fun id hid => ?destroyed
      destroyed_nodup := h.destroyed_nodup
      cancelled := fun i hi => ?cancelled
      flagged := fun id hid hflag => ?flagged
      dropped := fun id hid => ?dropped }
  case uid =>
    show w.simulator.uid + 1 = BitVec.ofNat 32 (4 + (w.created ++ [_]).length)
    rw [h.uid, List.length_append, List.length_singleton, ← Nat.add_assoc,
      BitVec.ofNat_add (4 + _)]
    rfl
  case heap =>
    rcases List.mem_cons.mp (hperm.mem_iff.mp hx) with rfl | hx
    · exact ⟨impl, hheap, rfl⟩
    · exact h.heap x hx
  case uids =>
    show _ ∨ (4 ≤ id.uid.toNat ∧ id.uid.toNat < 4 + (w.created ++ [_]).length)
    rw [List.length_append, List.length_singleton]
    rcases (hmem id).mp hid with hid | rfl
    · exact (h.uids id hid).imp_right fun hb => ⟨hb.1, by omega⟩
    · right
      dsimp only
      omega
  case distinct =>
    have hfew : ∀ id ∈ w.created, id.uid ≠ 2 → id.uid ≠ w.simulator.uid := by
      intro id hid hid₂ heq
      have hbound := ((h.uids id hid).resolve_left hid₂).2
      rw [heq, huid] at hbound
      omega
    rcases (hmem id).mp hid with hid | rfl
    · rcases (hmem id').mp hid' with hid' | rfl
      · exact h.distinct id hid id' hid' heq hid₂
      · exact absurd heq (hfew id hid hid₂)
    · rcases (hmem id').mp hid' with hid' | rfl
      · exact absurd heq.symm (hfew id' hid' (heq ▸ hid₂))
      · rfl
  case current =>
    have := h.current
    show w.simulator.currentUid.toNat < 4 + (w.created ++ [_]).length
    rw [List.length_append, List.length_singleton]
    omega
  case queued =>
    rcases (L.holds_insert h.valid hdifferent e).mp he with rfl | he
    · refine ⟨(hmem _).mpr (.inr rfl), hne, ?_, ?_⟩
      · have := h.current
        show w.simulator.currentTs < ts ∨ (w.simulator.currentTs = ts ∧
          w.simulator.currentUid < w.simulator.uid)
        rw [BitVec.lt_def, huid]
        omega
      · rintro (hexecuted | hdestroyed)
        · exact hfresh (h.executed _ hexecuted).1
        · exact hfresh (h.destroyed _ hdestroyed).1
    · obtain ⟨hid, hrest⟩ := h.queued e he
      exact ⟨(hmem _).mpr (.inl hid), hrest⟩
  case ordinary =>
    rcases (hmem id).mp hid with hid | rfl
    · rcases h.ordinary id hid hid₂ with ⟨e, he, heq⟩ | hrest
      · exact .inl ⟨e, (L.holds_insert h.valid hdifferent e).mpr (.inr he), heq⟩
      · exact .inr hrest
    · exact .inl ⟨_, (L.holds_insert h.valid hdifferent _).mpr (.inl rfl), rfl⟩
  case waiting =>
    obtain ⟨hid', hrest⟩ := h.waiting id hid
    exact ⟨(hmem _).mpr (.inl hid'), hrest⟩
  case final =>
    rcases (hmem id).mp hid with hid | rfl
    · exact h.final id hid hid₂
    · exact absurd hid₂ hne
  case executed =>
    obtain ⟨hid', hrest⟩ := h.executed id hid
    exact ⟨(hmem _).mpr (.inl hid'), hrest⟩
  case destroyed =>
    obtain ⟨hid', hrest⟩ := h.destroyed id hid
    exact ⟨(hmem _).mpr (.inl hid'), hrest⟩
  case cancelled =>
    show some i ∈ (w.created ++ [_]).map EventId.impl
    rw [List.map_append]
    exact List.mem_append_left _ (h.cancelled i hi)
  case flagged =>
    rcases (hmem id).mp hid with hid | rfl
    · exact h.flagged id hid hflag
    · exact absurd (List.mem_append_left _ (h.cancelled impl (of_decide_eq_true hflag))) hnew
  case dropped =>
    obtain ⟨hid', hrest⟩ := h.dropped id hid
    exact ⟨(hmem _).mpr (.inl hid'), hrest⟩

/-- A new implementation. -/
theorem Inv.allocate (h : Inv valid holds pending w) :
    Inv valid holds pending { w with simulator := w.simulator.allocate.2 } ∧
      some w.simulator.heap ∉ w.created.map EventId.impl ++ pending.map fun ev => some ev.event := by
  refine ⟨{ h with heap := fun x hx => ?_ }, fun hmem => ?_⟩
  · obtain ⟨i, hi, rfl⟩ := h.heap x hx
    exact ⟨i, Nat.lt_succ_of_lt hi, rfl⟩
  · obtain ⟨i, hi, heq⟩ := h.heap _ hmem
    cases heq
    exact Nat.lt_irrefl _ hi

theorem Inv.allocate_insertEvent
    (L : Q.Lawful (fun a b => a.key.Lt b.key) (fun e => e.key.uid) valid holds)
    (h : Inv valid holds pending w) (hfew : w.created.length < 2 ^ 32 - 4) (ts : ℕ)
    (context : BitVec 32) (hts : w.simulator.currentTs ≤ ts) :
    Inv valid holds pending
      (w.create (w.simulator.allocate.2.insertEvent Q w.simulator.heap ts context)) := by
  obtain ⟨h', hnew⟩ := h.allocate
  exact h'.insertEvent L hfew ts context (Nat.lt_succ_self _) hnew hts

theorem Inv.scheduleFromThread (h : Inv valid holds pending w) (context : BitVec 32) (delay : ℕ) :
    Inv valid holds (pending ++ [⟨context, delay, w.simulator.heap⟩])
      { w with simulator := w.simulator.scheduleFromThread context delay } := by
  obtain ⟨h', hnew⟩ := h.allocate
  have hperm : (w.created.map EventId.impl ++
      (pending ++ [(⟨context, delay, w.simulator.heap⟩ : EventWithContext)]).map
        fun ev => some ev.event).Perm
      (some w.simulator.heap ::
        (w.created.map EventId.impl ++ pending.map fun ev => some ev.event)) := by
    rw [List.map_append, ← List.append_assoc]
    exact List.perm_append_singleton _ _
  refine { h' with
    impls := hperm.nodup_iff.mpr (List.nodup_cons.mpr ⟨hnew, h.impls⟩)
    heap := fun x hx => ?_ }
  rcases List.mem_cons.mp (hperm.mem_iff.mp hx) with rfl | hx
  · exact ⟨_, Nat.lt_succ_self _, rfl⟩
  · exact h'.heap x hx

/-- The first event of another thread has an implementation of its own. -/
theorem Inv.tail {ev : EventWithContext} (h : Inv valid holds (ev :: pending) w) :
    Inv valid holds pending w ∧ ev.event < w.simulator.heap ∧
      some ev.event ∉ w.created.map EventId.impl ++ pending.map fun ev => some ev.event := by
  have hperm : (w.created.map EventId.impl ++ (ev :: pending).map fun ev => some ev.event).Perm
      (some ev.event :: (w.created.map EventId.impl ++ pending.map fun ev => some ev.event)) :=
    List.perm_middle
  obtain ⟨hnew, hnodup⟩ := List.nodup_cons.mp (hperm.nodup_iff.mp h.impls)
  refine ⟨{ h with
    impls := hnodup
    heap := fun x hx => h.heap x (hperm.mem_iff.mpr (List.mem_cons_of_mem _ hx)) }, ?_, hnew⟩
  obtain ⟨i, hi, heq⟩ := h.heap _ (hperm.mem_iff.mpr List.mem_cons_self)
  cases heq
  exact hi

/-- The events of other threads get their uids one after the other. -/
theorem Inv.insertEvents (L : Q.Lawful (fun a b => a.key.Lt b.key) (fun e => e.key.uid) valid holds)
    {ids : List EventId} {m : Simulator σ}
    (h : Inv valid holds pending { w with simulator := m, created := w.created ++ ids })
    (hfew : (w.created ++ ids).length + pending.length ≤ 2 ^ 32 - 4) :
    let r := pending.foldl (fun r ev =>
      let (id, m) := r.2.insertEvent Q ev.event (r.2.currentTs + ev.timestamp) ev.context
      (r.1 ++ [id], m)) (ids, m)
    Inv valid holds [] { w with simulator := r.2, created := w.created ++ r.1 } := by
  induction pending generalizing ids m with
  | nil => exact h
  | cons ev pending ih =>
    obtain ⟨htail, hheap, hnew⟩ := h.tail
    rw [List.length_cons] at hfew
    have hfew' : (w.created ++ ids).length < 2 ^ 32 - 4 := by omega
    have hinsert := htail.insertEvent L hfew' (m.currentTs + ev.timestamp) ev.context
      hheap hnew (Nat.le_add_right _ _)
    refine @ih (ids ++ [_]) _ ?_ ?_
    · show Inv valid holds pending { w with simulator := _, created := w.created ++ (ids ++ [_]) }
      rw [← List.append_assoc]
      exact hinsert
    · rw [List.length_append, List.length_append, List.length_singleton] at *
      omega

/-- What the loop over the events of other threads leaves alone. -/
theorem insertEvents_frame (ids : List EventId) (m : Simulator σ) :
    let r := pending.foldl (fun r ev =>
      let (id, m) := r.2.insertEvent Q ev.event (r.2.currentTs + ev.timestamp) ev.context
      (r.1 ++ [id], m)) (ids, m)
    r.1.length = ids.length + pending.length ∧ r.2.currentTs = m.currentTs ∧
      r.2.eventsWithContext = m.eventsWithContext := by
  induction pending generalizing ids m with
  | nil => exact ⟨rfl, rfl, rfl⟩
  | cons ev pending ih =>
    obtain ⟨hlength, hts, hevents⟩ := ih (ids ++ [_]) _
    refine ⟨hlength.trans ?_, hts, hevents⟩
    rw [List.length_append, List.length_singleton, List.length_cons]
    omega

/-- The invariant between two steps of `Run`. -/
def Tidy (valid : σ → Prop) (holds : σ → Event → Prop) (w : Program σ) : Prop :=
  Inv valid holds w.simulator.eventsWithContext w

theorem processEventsWithContext_frame (Q : PriorityQueue Event σ) (w : Program σ) :
    (w.processEventsWithContext Q).created.length =
        w.created.length + w.simulator.eventsWithContext.length ∧
      (w.processEventsWithContext Q).simulator.currentTs = w.simulator.currentTs ∧
      (w.processEventsWithContext Q).simulator.eventsWithContext = [] := by
  obtain ⟨hlength, hts, hevents⟩ := @insertEvents_frame σ Q w.simulator.eventsWithContext []
    { w.simulator with eventsWithContext := [] }
  refine ⟨?_, hts, hevents⟩
  show (w.created ++ _).length = _
  rw [List.length_append]
  unfold Simulator.processEventsWithContext
  rw [hlength, List.length_nil, Nat.zero_add]

theorem Tidy.processEventsWithContext
    (L : Q.Lawful (fun a b => a.key.Lt b.key) (fun e => e.key.uid) valid holds)
    (h : w.Tidy valid holds) (hfew : (w.processEventsWithContext Q).created.length ≤ 2 ^ 32 - 4) :
    (w.processEventsWithContext Q).Tidy valid holds := by
  obtain ⟨hlength, -, hevents⟩ := processEventsWithContext_frame Q w
  have hstart : Inv valid holds w.simulator.eventsWithContext { w with
      simulator := { w.simulator with eventsWithContext := [] }
      created := w.created ++ [] } := by
    rw [List.append_nil]
    exact { h with }
  unfold Tidy
  rw [hevents]
  refine hstart.insertEvents L ?_
  rw [List.append_nil]
  omega

/-- An event for `Destroy` gets uid 2. -/
theorem Inv.scheduleDestroy (h : Inv valid holds pending w) :
    Inv valid holds pending (w.create w.simulator.scheduleDestroy) := by
  obtain ⟨h', hnew⟩ := h.allocate
  have hfresh : (⟨some w.simulator.heap, w.simulator.currentTs, 0xffffffff, 2⟩ : EventId) ∉
      w.created := fun hmem => hnew (List.mem_append_left _ (List.mem_map_of_mem hmem))
  have hmem : ∀ id : EventId,
      id ∈ w.created ++ [⟨some w.simulator.heap, w.simulator.currentTs, 0xffffffff, 2⟩] ↔
        id ∈ w.created ∨ id = ⟨some w.simulator.heap, w.simulator.currentTs, 0xffffffff, 2⟩ :=
    fun id => by simp
  have hwaiting : ∀ id : EventId, id ∈ w.simulator.destroyEvents ++
      [⟨some w.simulator.heap, w.simulator.currentTs, 0xffffffff, 2⟩] ↔
        id ∈ w.simulator.destroyEvents ∨
          id = ⟨some w.simulator.heap, w.simulator.currentTs, 0xffffffff, 2⟩ :=
    fun id => by simp
  have hperm := perm_impls w.created pending
    ⟨some w.simulator.heap, w.simulator.currentTs, 0xffffffff, 2⟩
  have hunstarted : ¬ w.started ⟨some w.simulator.heap, w.simulator.currentTs, 0xffffffff, 2⟩ := by
    rintro (hexecuted | hdestroyed)
    · exact hfresh (h.executed _ hexecuted).1
    · exact hfresh (h.destroyed _ hdestroyed).1
  refine
    { valid := h.valid
      uid := ?uid
      impls := hperm.nodup_iff.mpr (List.nodup_cons.mpr ⟨hnew, h.impls⟩)
      heap := fun x hx => ?heap
      uids := fun id hid => ?uids
      distinct := fun id hid id' hid' heq hid₂ => ?distinct
      current := ?current
      queued := fun e he => ⟨(hmem _).mpr (.inl (h.queued e he).1), (h.queued e he).2⟩
      ordinary := fun id hid hid₂ => ?ordinary
      waiting := fun id hid => ?waiting
      waiting_nodup := ?waiting_nodup
      final := fun id hid hid₂ => ?final
      executed := fun id hid => ⟨(hmem _).mpr (.inl (h.executed id hid).1), (h.executed id hid).2⟩
      order := h.order
      destroyed := fun id hid =>
        ⟨(hmem _).mpr (.inl (h.destroyed id hid).1), (h.destroyed id hid).2⟩
      destroyed_nodup := h.destroyed_nodup
      cancelled := fun i hi => ?cancelled
      flagged := fun id hid hflag => ?flagged
      dropped := fun id hid => ?dropped }
  case uid =>
    show w.simulator.uid + 1 = BitVec.ofNat 32 (4 + (w.created ++ [_]).length)
    rw [h.uid, List.length_append, List.length_singleton, ← Nat.add_assoc,
      BitVec.ofNat_add (4 + _)]
    rfl
  case heap =>
    rcases List.mem_cons.mp (hperm.mem_iff.mp hx) with rfl | hx
    · exact ⟨_, Nat.lt_succ_self _, rfl⟩
    · exact h'.heap x hx
  case uids =>
    show _ ∨ (4 ≤ id.uid.toNat ∧ id.uid.toNat < 4 + (w.created ++ [_]).length)
    rw [List.length_append, List.length_singleton]
    rcases (hmem id).mp hid with hid | rfl
    · exact (h.uids id hid).imp_right fun hb => ⟨hb.1, by omega⟩
    · exact .inl rfl
  case distinct =>
    rcases (hmem id).mp hid with hid | rfl
    · rcases (hmem id').mp hid' with hid' | rfl
      · exact h.distinct id hid id' hid' heq hid₂
      · exact absurd heq hid₂
    · exact absurd rfl hid₂
  case current =>
    have := h.current
    show w.simulator.currentUid.toNat < 4 + (w.created ++ [_]).length
    rw [List.length_append, List.length_singleton]
    omega
  case ordinary =>
    rcases (hmem id).mp hid with hid | rfl
    · exact h.ordinary id hid hid₂
    · exact absurd rfl hid₂
  case waiting =>
    rcases (hwaiting id).mp hid with hid | rfl
    · obtain ⟨hid', hrest⟩ := h.waiting id hid
      exact ⟨(hmem _).mpr (.inl hid'), hrest⟩
    · exact ⟨(hmem _).mpr (.inr rfl), rfl, hunstarted⟩
  case waiting_nodup =>
    exact (List.perm_append_singleton _ _).nodup_iff.mpr
      (List.nodup_cons.mpr ⟨fun hid => hfresh (h.waiting _ hid).1, h.waiting_nodup⟩)
  case final =>
    rcases (hmem id).mp hid with hid | rfl
    · exact (h.final id hid hid₂).imp_left fun hwait => (hwaiting id).mpr (.inl hwait)
    · exact .inl ((hwaiting _).mpr (.inr rfl))
  case cancelled =>
    show some i ∈ (w.created ++ [_]).map EventId.impl
    rw [List.map_append]
    exact List.mem_append_left _ (h.cancelled i hi)
  case flagged =>
    rcases (hmem id).mp hid with hid | rfl
    · exact h.flagged id hid hflag
    · exact absurd (List.mem_append_left _ (h.cancelled _ (of_decide_eq_true hflag))) hnew
  case dropped =>
    obtain ⟨hid', hunstarted', hwhy⟩ := h.dropped id hid
    refine ⟨(hmem _).mpr (.inl hid'), hunstarted', hwhy.imp_right fun hgone => ⟨hgone.1, ?_⟩⟩
    intro hwait
    rcases (hwaiting id).mp hwait with hwait | rfl
    · exact hgone.2 hwait
    · exact hfresh hid'

/-! ## Cancelling and removing -/

/-- Recording an event again that was started, cancelled or removed changes nothing. -/
theorem Inv.drop_expired (h : Inv valid holds pending w) {id : EventId}
    (hexpired : id ∈ w.created → w.started id ∨ id ∈ w.dropped) :
    Inv valid holds pending (w.drop id w.simulator) := by
  by_cases hrecord : id ∈ w.created ∧ ¬ w.started id
  · have hdropped : id ∈ w.dropped := (hexpired hrecord.1).resolve_left hrecord.2
    have hmem : ∀ id', id' ∈ id :: w.dropped ↔ id' ∈ w.dropped := by
      intro id'
      rw [List.mem_cons]
      exact ⟨fun hid => hid.elim (fun heq => heq ▸ hdropped) fun hid => hid, .inr⟩
    unfold drop
    rw [if_pos hrecord]
    exact { h with
      ordinary := fun id' hid hid₂ => (h.ordinary id' hid hid₂).imp_right fun hrest =>
        hrest.imp_right fun hd => ⟨(hmem id').mpr hd.1, hd.2⟩
      final := fun id' hid hid₂ => (h.final id' hid hid₂).imp_right fun hrest =>
        hrest.imp_right (hmem id').mpr
      flagged := fun id' hid hflag => (hmem id').mpr (h.flagged id' hid hflag)
      dropped := fun id' hid => h.dropped id' ((hmem id').mp hid) }
  · unfold drop
    rw [if_neg hrecord]
    exact h

theorem nullOrCancelled_setCancelled {m : Simulator σ} {id : EventId} {i : ℕ}
    (hi : id.impl = some i) (id' : EventId) :
    (m.setCancelled id).nullOrCancelled id' = true ↔
      id'.impl = id.impl ∨ m.nullOrCancelled id' = true := by
  unfold Simulator.nullOrCancelled Simulator.setCancelled
  rw [hi]
  cases id'.impl with
  | none => simp
  | some j => simp

/-- An event is cancelled before it starts. -/
theorem Inv.setCancelled (h : Inv valid holds pending w) {id : EventId} (hid : id ∈ w.created)
    (hunstarted : ¬ w.started id) :
    Inv valid holds pending (w.drop id (w.simulator.setCancelled id)) := by
  obtain ⟨i, hi⟩ := h.exists_impl hid
  have hsimulator : w.simulator.setCancelled id =
      { w.simulator with cancelled := i :: w.simulator.cancelled } := by
    unfold Simulator.setCancelled
    rw [hi]
  have hflag : ∀ id', (w.simulator.setCancelled id).nullOrCancelled id' = true ↔
      id'.impl = id.impl ∨ w.simulator.nullOrCancelled id' = true :=
    nullOrCancelled_setCancelled hi
  unfold drop
  rw [if_pos ⟨hid, hunstarted⟩]
  rw [hsimulator] at hflag ⊢
  exact { h with
    ordinary := fun id' hid' hid₂ => (h.ordinary id' hid' hid₂).imp_right fun hrest =>
      hrest.imp_right fun hd => ⟨List.mem_cons_of_mem _ hd.1, (hflag id').mpr (.inr hd.2)⟩
    final := fun id' hid' hid₂ => (h.final id' hid' hid₂).imp_right fun hrest =>
      hrest.imp_right (List.mem_cons_of_mem _)
    cancelled := by
      intro j hj
      rcases List.mem_cons.mp hj with rfl | hj
      · rw [← hi]
        exact List.mem_map_of_mem hid
      · exact h.cancelled j hj
    flagged := by
      intro id' hid' hflagged
      rcases (hflag id').mp hflagged with heq | hflagged
      · rw [h.eq_of_impl hid' hid heq]
        exact List.mem_cons_self
      · exact List.mem_cons_of_mem _ (h.flagged id' hid' hflagged)
    dropped := by
      intro id' hid'
      rcases List.mem_cons.mp hid' with rfl | hid'
      · exact ⟨hid, hunstarted, .inl ((hflag id').mpr (.inl rfl))⟩
      · obtain ⟨hc, hu, hwhy⟩ := h.dropped id' hid'
        exact ⟨hc, hu, hwhy.imp_left fun hf => (hflag id').mpr (.inr hf)⟩ }

/-- A flagged event leaves the scheduler. -/
theorem Inv.removeEvent (L : Q.Lawful (fun a b => a.key.Lt b.key) (fun e => e.key.uid) valid holds)
    (h : Inv valid holds pending w) {e : Event} (he : holds w.simulator.events e)
    (hdropped : e.id ∈ w.dropped) (hflag : w.Flagged e.id) (n : ℤ) :
    Inv valid holds pending { w with simulator := { w.simulator with
      events := Q.remove e w.simulator.events
      unscheduledEvents := n } } :=
  { h with
    valid := L.valid_remove h.valid he
    queued := fun e' he' => h.queued e' ((L.holds_remove h.valid he e').mp he').1
    ordinary := by
      intro id hid hid₂
      rcases h.ordinary id hid hid₂ with ⟨e', he', rfl⟩ | hrest
      · by_cases heq : e' = e
        · subst heq
          exact .inr (.inr ⟨hdropped, hflag⟩)
        · exact .inl ⟨e', (L.holds_remove h.valid he e').mpr ⟨he', heq⟩, rfl⟩
      · exact .inr hrest }

theorem Inv.cancel (h : Inv valid holds pending w) {id : EventId} (hknown : w.Known id) :
    Inv valid holds pending (w.drop id (w.simulator.cancel id)) := by
  by_cases hexpired : w.simulator.isExpired id = true
  · unfold Simulator.cancel
    rw [if_pos hexpired]
    exact h.drop_expired fun hid => (h.isExpired_iff hid).mp hexpired
  · have hid : id ∈ w.created := by
      rcases hknown with hid | rfl
      · exact hid
      · exact absurd ((isExpired_ordinary (by decide)).mpr (.inr rfl)) hexpired
    unfold Simulator.cancel
    rw [if_neg hexpired]
    exact h.setCancelled hid fun hstarted => hexpired ((h.isExpired_iff hid).mpr (.inl hstarted))

/-- An event for `Destroy` is taken off the list. -/
theorem Inv.removeDestroy (h : Inv valid holds pending w) {id : EventId} (hid₂ : id.uid = 2) :
    Inv valid holds pending (w.drop id
      { w.simulator with destroyEvents := w.simulator.destroyEvents.erase id }) := by
  by_cases hwait : id ∈ w.simulator.destroyEvents
  · obtain ⟨hid, -, hunstarted⟩ := h.waiting id hwait
    have hmem : ∀ id', id' ∈ w.simulator.destroyEvents.erase id ↔
        id' ≠ id ∧ id' ∈ w.simulator.destroyEvents := fun id' => h.waiting_nodup.mem_erase_iff
    unfold drop
    rw [if_pos ⟨hid, hunstarted⟩]
    exact { h with
      ordinary := fun id' hid' hne => (h.ordinary id' hid' hne).imp_right fun hrest =>
        hrest.imp_right fun hd => ⟨List.mem_cons_of_mem _ hd.1, hd.2⟩
      waiting := fun id' hid' => h.waiting id' ((hmem id').mp hid').2
      waiting_nodup := h.waiting_nodup.erase id
      final := by
        intro id' hid' huid
        by_cases heq : id' = id
        · subst heq
          exact .inr (.inr List.mem_cons_self)
        · rcases h.final id' hid' huid with hw | hs | hd
          · exact .inl ((hmem id').mpr ⟨heq, hw⟩)
          · exact .inr (.inl hs)
          · exact .inr (.inr (List.mem_cons_of_mem _ hd))
      flagged := fun id' hid' hflag => List.mem_cons_of_mem _ (h.flagged id' hid' hflag)
      dropped := by
        intro id' hid'
        rcases List.mem_cons.mp hid' with rfl | hid'
        · exact ⟨hid, hunstarted, .inr ⟨hid₂, fun hw => ((hmem id').mp hw).1 rfl⟩⟩
        · obtain ⟨hc, hu, hwhy⟩ := h.dropped id' hid'
          exact ⟨hc, hu, hwhy.imp_right fun hgone =>
            ⟨hgone.1, fun hw => hgone.2 ((hmem id').mp hw).2⟩⟩ }
  · rw [List.erase_of_not_mem hwait]
    exact h.drop_expired fun hid => (h.final id hid hid₂).resolve_left hwait

theorem Inv.remove (L : Q.Lawful (fun a b => a.key.Lt b.key) (fun e => e.key.uid) valid holds)
    (h : Inv valid holds pending w) {id : EventId} (hknown : w.Known id) :
    Inv valid holds pending (w.drop id (w.simulator.remove Q id)) := by
  by_cases hid₂ : id.uid = 2
  · unfold Simulator.remove
    rw [if_pos hid₂]
    exact h.removeDestroy hid₂
  by_cases hexpired : w.simulator.isExpired id = true
  · unfold Simulator.remove
    rw [if_neg hid₂, if_pos hexpired]
    exact h.drop_expired fun hid => (h.isExpired_iff hid).mp hexpired
  have hid : id ∈ w.created := by
    rcases hknown with hid | rfl
    · exact hid
    · exact absurd ((isExpired_ordinary (by decide)).mpr (.inr rfl)) hexpired
  have hrest := mt (h.isExpired_iff hid).mpr hexpired
  have hunstarted : ¬ w.started id := fun hs => hrest (.inl hs)
  obtain ⟨e, he, rfl⟩ : ∃ e, holds w.simulator.events e ∧ e.id = id :=
    (h.ordinary id hid hid₂).resolve_right fun hd => hrest (hd.imp_right And.left)
  have hset := h.setCancelled hid hunstarted
  have hdropped : e.id ∈ (w.drop e.id (w.simulator.setCancelled e.id)).dropped := by
    unfold drop
    rw [if_pos ⟨hid, hunstarted⟩]
    exact List.mem_cons_self
  have hflag : (w.drop e.id (w.simulator.setCancelled e.id)).Flagged e.id :=
    (nullOrCancelled_setCancelled rfl e.id).mpr (.inl rfl)
  unfold Simulator.remove
  rw [if_neg hid₂, if_neg hexpired]
  exact hset.removeEvent L he hdropped hflag _

/-! ## Taking events -/

/-- The simulator after the event was taken from the scheduler. -/
def taken (m : Simulator σ) (next : Event) (events : σ) : Simulator σ :=
  { m with
    events := events
    unscheduledEvents := m.unscheduledEvents - 1
    eventCount := m.eventCount + 1
    currentTs := next.key.ts
    currentContext := next.key.context
    currentUid := next.key.uid }

/-- The other events in the scheduler come after the one that is taken. -/
theorem Inv.lt_of_taken
    (L : Q.Lawful (fun a b => a.key.Lt b.key) (fun e => e.key.uid) valid holds)
    (h : Inv valid holds pending w) {next e : Event} {events : σ}
    (hnext : Q.removeNext w.simulator.events = some (next, events)) (he : holds events e) :
    next.key.Lt e.key := by
  obtain ⟨hheld, hne⟩ := (L.holds_removeNext h.valid hnext e).mp he
  refine EventKey.Lt.of_not (L.next_least h.valid hnext e hheld) fun huid => hne ?_
  obtain ⟨hid, hid₂, -⟩ := h.queued e hheld
  obtain ⟨hid', -⟩ := h.queued next (L.holds_next h.valid hnext)
  exact Event.id_inj (h.distinct e.id hid next.id hid' huid hid₂)

/-- A flagged event is taken from the scheduler, and does nothing. -/
theorem Inv.takeFlagged
    (L : Q.Lawful (fun a b => a.key.Lt b.key) (fun e => e.key.uid) valid holds)
    (h : Inv valid holds pending w) {next : Event} {events : σ}
    (hnext : Q.removeNext w.simulator.events = some (next, events))
    (hflag : next.impl ∈ w.simulator.cancelled) :
    Inv valid holds pending { w with simulator := taken w.simulator next events } := by
  obtain ⟨hid, hid₂, hlater, -⟩ := h.queued next (L.holds_next h.valid hnext)
  have hflagged : w.Flagged next.id := decide_eq_true hflag
  exact { h with
    valid := L.valid_removeNext h.valid hnext
    current := ((h.uids next.id hid).resolve_left hid₂).2
    queued := by
      intro e he
      obtain ⟨hc, hne, -, hu⟩ := h.queued e ((L.holds_removeNext h.valid hnext e).mp he).1
      exact ⟨hc, hne, h.lt_of_taken L hnext he, hu⟩
    ordinary := by
      intro id hid' hne
      rcases h.ordinary id hid' hne with ⟨e, he, rfl⟩ | hrest
      · by_cases heq : e = next
        · subst heq
          exact .inr (.inr ⟨h.flagged _ hid hflagged, hflagged⟩)
        · exact .inl ⟨e, (L.holds_removeNext h.valid hnext e).mpr ⟨he, heq⟩, rfl⟩
      · exact .inr hrest
    executed := by
      intro id hex
      obtain ⟨hc, hne, hpast⟩ := h.executed id hex
      exact ⟨hc, hne, fun hlt => hpast (hlater.trans hlt)⟩ }

/-- An event starts. -/
theorem Inv.takeStarted
    (L : Q.Lawful (fun a b => a.key.Lt b.key) (fun e => e.key.uid) valid holds)
    (h : Inv valid holds pending w) {next : Event} {events : σ}
    (hnext : Q.removeNext w.simulator.events = some (next, events))
    (hflag : next.impl ∉ w.simulator.cancelled) :
    Inv valid holds pending { w with
      simulator := taken w.simulator next events
      executed := w.executed ++ [next.id] } := by
  obtain ⟨hid, hid₂, hlater, hunstarted⟩ := h.queued next (L.holds_next h.valid hnext)
  have hunflagged : ¬ w.Flagged next.id := fun hf => hflag (of_decide_eq_true hf)
  have hmem : ∀ id, id ∈ w.executed ++ [next.id] ↔ id ∈ w.executed ∨ id = next.id :=
    fun id => by simp
  have hstart : ∀ id, (id ∈ w.executed ++ [next.id] ∨ id ∈ w.destroyed) ↔
      w.started id ∨ id = next.id := by
    intro id
    rw [hmem]
    exact or_right_comm
  exact { h with
    valid := L.valid_removeNext h.valid hnext
    current := ((h.uids next.id hid).resolve_left hid₂).2
    queued := by
      intro e he
      obtain ⟨hheld, hne⟩ := (L.holds_removeNext h.valid hnext e).mp he
      obtain ⟨hc, he₂, -, hu⟩ := h.queued e hheld
      refine ⟨hc, he₂, h.lt_of_taken L hnext he, fun hs => ?_⟩
      rcases (hstart e.id).mp hs with hs | heq
      · exact hu hs
      · exact hne (Event.id_inj heq)
    ordinary := by
      intro id hid' hne
      rcases h.ordinary id hid' hne with ⟨e, he, rfl⟩ | hs | hd
      · by_cases heq : e = next
        · subst heq
          exact .inr (.inl ((hstart _).mpr (.inr rfl)))
        · exact .inl ⟨e, (L.holds_removeNext h.valid hnext e).mpr ⟨he, heq⟩, rfl⟩
      · exact .inr (.inl ((hstart id).mpr (.inl hs)))
      · exact .inr (.inr hd)
    waiting := by
      intro id hwait
      obtain ⟨hc, huid, hu⟩ := h.waiting id hwait
      refine ⟨hc, huid, fun hs => ?_⟩
      rcases (hstart id).mp hs with hs | rfl
      · exact hu hs
      · exact hid₂ huid
    final := fun id hid' huid => (h.final id hid' huid).imp_right fun hrest =>
      hrest.imp_left fun hs => (hstart id).mpr (.inl hs)
    executed := by
      intro id hex
      rcases (hmem id).mp hex with hex | rfl
      · obtain ⟨hc, hne, hpast⟩ := h.executed id hex
        exact ⟨hc, hne, fun hlt => hpast (hlater.trans hlt)⟩
      · exact ⟨hid, hid₂, EventKey.Lt.irrefl⟩
    order := by
      refine List.pairwise_append.mpr ⟨h.order, List.pairwise_singleton _ _, ?_⟩
      intro a ha b hb
      rw [List.mem_singleton] at hb
      subst hb
      exact EventKey.Lt.of_not_lt (h.executed a ha).2.2 hlater
    dropped := by
      intro id hd
      obtain ⟨hc, hu, hwhy⟩ := h.dropped id hd
      refine ⟨hc, fun hs => ?_, hwhy⟩
      rcases (hstart id).mp hs with hs | rfl
      · exact hu hs
      · rcases hwhy with hf | hgone
        · exact hunflagged hf
        · exact hid₂ hgone.1 }

/-! ## `Destroy` -/

theorem Inv.skipDestroy (h : Inv valid holds pending w) {ev : EventId} {rest : List EventId}
    (hlist : w.simulator.destroyEvents = ev :: rest) (hflag : w.Flagged ev) :
    Inv valid holds pending
      { w with simulator := { w.simulator with destroyEvents := rest } } := by
  have hwaiting := h.waiting
  have hnodup := h.waiting_nodup
  have hfinal := h.final
  have hdropped := h.dropped
  rw [hlist] at hwaiting hnodup hfinal hdropped
  exact { h with
    waiting := fun id hid => hwaiting id (List.mem_cons_of_mem _ hid)
    waiting_nodup := (List.nodup_cons.mp hnodup).2
    final := by
      intro id hid huid
      rcases hfinal id hid huid with hwait | hrest
      · rcases List.mem_cons.mp hwait with rfl | hwait
        · exact .inr (.inr (h.flagged id hid hflag))
        · exact .inl hwait
      · exact .inr hrest
    dropped := by
      intro id hd
      obtain ⟨hc, hu, hwhy⟩ := hdropped id hd
      exact ⟨hc, hu, hwhy.imp_right fun hgone =>
        ⟨hgone.1, fun hw => hgone.2 (List.mem_cons_of_mem _ hw)⟩⟩ }

theorem Inv.startDestroy (h : Inv valid holds pending w) {ev : EventId} {rest : List EventId}
    (hlist : w.simulator.destroyEvents = ev :: rest) (hflag : ¬ w.Flagged ev) :
    Inv valid holds pending
      { w with
        simulator := { w.simulator with destroyEvents := rest }
        destroyed := w.destroyed ++ [ev] } := by
  have hwaiting := h.waiting
  have hnodup := h.waiting_nodup
  have hfinal := h.final
  have hdropped := h.dropped
  rw [hlist] at hwaiting hnodup hfinal hdropped
  obtain ⟨hev, hev₂, hunstarted⟩ := hwaiting ev List.mem_cons_self
  obtain ⟨hnotin, hrest⟩ := List.nodup_cons.mp hnodup
  have hstart : ∀ id, (id ∈ w.executed ∨ id ∈ w.destroyed ++ [ev]) ↔ w.started id ∨ id = ev := by
    intro id
    rw [List.mem_append, List.mem_singleton]
    exact or_assoc.symm
  exact { h with
    queued := by
      intro e he
      obtain ⟨hc, hne, hlater, hu⟩ := h.queued e he
      refine ⟨hc, hne, hlater, fun hs => ?_⟩
      rcases (hstart e.id).mp hs with hs | heq
      · exact hu hs
      · exact hne (show e.id.uid = 2 by rw [heq, hev₂])
    ordinary := fun id hid huid => (h.ordinary id hid huid).imp_right fun hr =>
      hr.imp_left fun hs => (hstart id).mpr (.inl hs)
    waiting := by
      intro id hid
      obtain ⟨hc, huid, hu⟩ := hwaiting id (List.mem_cons_of_mem _ hid)
      refine ⟨hc, huid, fun hs => ?_⟩
      rcases (hstart id).mp hs with hs | rfl
      · exact hu hs
      · exact hnotin hid
    waiting_nodup := hrest
    final := by
      intro id hid huid
      rcases hfinal id hid huid with hwait | hs | hd
      · rcases List.mem_cons.mp hwait with rfl | hwait
        · exact .inr (.inl ((hstart id).mpr (.inr rfl)))
        · exact .inl hwait
      · exact .inr (.inl ((hstart id).mpr (.inl hs)))
      · exact .inr (.inr hd)
    destroyed := by
      intro id hid
      rcases List.mem_append.mp hid with hid | hid
      · exact h.destroyed id hid
      · rw [List.mem_singleton] at hid
        subst hid
        exact ⟨hev, hev₂⟩
    destroyed_nodup := (List.perm_append_singleton _ _).nodup_iff.mpr
      (List.nodup_cons.mpr ⟨fun hd => hunstarted (.inr hd), h.destroyed_nodup⟩)
    dropped := by
      intro id hd
      obtain ⟨hc, hu, hwhy⟩ := hdropped id hd
      refine ⟨hc, fun hs => ?_, hwhy.imp_right fun hgone =>
        ⟨hgone.1, fun hw => hgone.2 (List.mem_cons_of_mem _ hw)⟩⟩
      rcases (hstart id).mp hs with hs | rfl
      · exact hu hs
      · rcases hwhy with hf | hgone
        · exact hflag hf
        · exact hgone.2 List.mem_cons_self }

end Program

end Ns3.Core
