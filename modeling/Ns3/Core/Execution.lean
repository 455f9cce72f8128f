import Ns3.Core.EventOrder

/-!
# What a run of the simulator does

`Tidy` is kept by every step. A program that creates at most `2 ^ 32 - 4` events
uses each uid once: the first uid is 4, and the counter has 32 bits.
-/

namespace Ns3.Core

open Ns3.Lib

variable {σ : Type} {Q : PriorityQueue Event σ} {valid : σ → Prop} {holds : σ → Event → Prop}

namespace Simulator

theorem cancel_frame (m : Simulator σ) (id : EventId) :
    (m.cancel id).eventsWithContext = m.eventsWithContext ∧
      (m.cancel id).currentTs = m.currentTs := by
  unfold cancel
  split
  · exact ⟨rfl, rfl⟩
  · unfold setCancelled
    cases id.impl <;> exact ⟨rfl, rfl⟩

theorem remove_frame (Q : PriorityQueue Event σ) (m : Simulator σ) (id : EventId) :
    (m.remove Q id).eventsWithContext = m.eventsWithContext ∧
      (m.remove Q id).currentTs = m.currentTs := by
  unfold remove
  split
  · exact ⟨rfl, rfl⟩
  · split
    · exact ⟨rfl, rfl⟩
    · unfold setCancelled
      cases id.impl <;> exact ⟨rfl, rfl⟩

end Simulator

namespace Program

variable {w w' : Program σ}

/-! ## Steps -/

theorem created_operate {o : Operation} (h : w.operate Q o = some w') :
    w.created.length ≤ w'.created.length := by
  have hcreate : ∀ r, w.created.length ≤ (w.create r).created.length := by
    intro r
    show _ ≤ (w.created ++ [r.1]).length
    rw [List.length_append]
    exact Nat.le_add_right _ _
  cases o with
  | schedule delay =>
    cases h
    apply hcreate
  | scheduleWithContext context delay =>
    cases h
    apply hcreate
  | scheduleNow =>
    cases h
    apply hcreate
  | scheduleDestroy =>
    cases h
    apply hcreate
  | cancel id =>
    obtain ⟨-, ⟨⟩⟩ := Option.ite_none_right_eq_some.mp h
    exact Nat.le_refl _
  | remove id =>
    obtain ⟨-, ⟨⟩⟩ := Option.ite_none_right_eq_some.mp h
    exact Nat.le_refl _
  | stop =>
    cases h
    exact Nat.le_refl _

theorem created_processEventsWithContext (Q : PriorityQueue Event σ) (w : Program σ) :
    w.created.length ≤ (w.processEventsWithContext Q).created.length := by
  rw [(processEventsWithContext_frame Q w).1]
  exact Nat.le_add_right _ _

theorem created_invoke (Q : PriorityQueue Event σ) (w : Program σ) (next : Event)
    (m : Simulator σ) : w.created.length ≤ (w.invoke Q next m).created.length := by
  unfold invoke
  split
  · exact created_processEventsWithContext Q { w with simulator := m }
  · exact Nat.le_refl _

/-- No event is forgotten. -/
theorem created_step {e : Step} (h : w.step Q e = some w') :
    w.created.length ≤ w'.created.length := by
  cases e with
  | operation o => exact created_operate (Option.ite_none_right_eq_some.mp h).2
  | thread context delay =>
    cases h
    exact Nat.le_refl _
  | run =>
    obtain ⟨-, h⟩ := Option.ite_none_right_eq_some.mp h
    cases h
    exact created_processEventsWithContext Q w
  | next =>
    obtain ⟨-, h⟩ := Option.ite_none_right_eq_some.mp h
    split at h
    · cases h
    · cases h
      exact created_invoke Q w _ _
  | done =>
    obtain ⟨-, ⟨⟩⟩ := Option.ite_none_right_eq_some.mp h
    exact created_processEventsWithContext Q w
  | leave =>
    obtain ⟨-, ⟨⟩⟩ := Option.ite_none_right_eq_some.mp h
    exact Nat.le_refl _
  | destroy =>
    obtain ⟨-, h⟩ := Option.ite_none_right_eq_some.mp h
    split at h
    · cases h
    · dsimp only at h
      split at h <;> cases h <;> exact Nat.le_refl _

/-- `w'` is in order, and not earlier than `w`. -/
def Advances (valid : σ → Prop) (holds : σ → Event → Prop) (w w' : Program σ) : Prop :=
  w'.Tidy valid holds ∧ w.simulator.currentTs ≤ w'.simulator.currentTs

theorem Tidy.operate (L : Q.Lawful (fun a b => a.key.Lt b.key) (fun e => e.key.uid) valid holds)
    (h : w.Tidy valid holds) {o : Operation} (hstep : w.operate Q o = some w')
    (hfew : w'.created.length ≤ 2 ^ 32 - 4) : Advances valid holds w w' := by
  have hroom : ∀ r, w' = w.create r → w.created.length < 2 ^ 32 - 4 := by
    rintro r rfl
    have hlength : (w.create r).created.length = w.created.length + 1 := List.length_append
    omega
  cases o with
  | schedule delay =>
    cases hstep
    refine ⟨Inv.allocate_insertEvent L h (hroom _ rfl) _ _ ?_, Nat.le_refl _⟩
    exact Nat.le_add_left _ _
  | scheduleWithContext context delay =>
    cases hstep
    refine ⟨Inv.allocate_insertEvent L h (hroom _ rfl) _ _ ?_, Nat.le_refl _⟩
    exact Nat.le_add_left _ _
  | scheduleNow =>
    cases hstep
    exact ⟨Inv.allocate_insertEvent L h (hroom _ rfl) _ _ (Nat.le_refl _), Nat.le_refl _⟩
  | scheduleDestroy =>
    cases hstep
    exact ⟨Inv.scheduleDestroy h, Nat.le_refl _⟩
  | cancel id =>
    obtain ⟨hknown, ⟨⟩⟩ := Option.ite_none_right_eq_some.mp hstep
    obtain ⟨hevents, hts⟩ := w.simulator.cancel_frame id
    refine ⟨?_, Nat.le_of_eq hts.symm⟩
    show Inv valid holds (w.simulator.cancel id).eventsWithContext _
    rw [hevents]
    exact Inv.cancel h hknown
  | remove id =>
    obtain ⟨hknown, ⟨⟩⟩ := Option.ite_none_right_eq_some.mp hstep
    obtain ⟨hevents, hts⟩ := w.simulator.remove_frame Q id
    refine ⟨?_, Nat.le_of_eq hts.symm⟩
    show Inv valid holds (w.simulator.remove Q id).eventsWithContext _
    rw [hevents]
    exact Inv.remove L h hknown
  | stop =>
    cases hstep
    exact ⟨{ h with }, Nat.le_refl _⟩

/-- The next event starts, or was cancelled and is skipped. -/
theorem Tidy.next (L : Q.Lawful (fun a b => a.key.Lt b.key) (fun e => e.key.uid) valid holds)
    (h : w.Tidy valid holds) {next : Event} {m : Simulator σ}
    (hnext : w.simulator.takeNext Q = some (next, m))
    (hfew : (w.invoke Q next m).created.length ≤ 2 ^ 32 - 4) :
    Advances valid holds w (w.invoke Q next m) := by
  obtain ⟨events, htake, rfl⟩ : ∃ events, Q.removeNext w.simulator.events = some (next, events) ∧
      m = taken w.simulator next events := by
    unfold Simulator.takeNext at hnext
    split at hnext
    · cases hnext
    · rename_i htake
      cases hnext
      exact ⟨_, htake, rfl⟩
  have hlater : w.simulator.currentTs ≤ next.key.ts := by
    have hlt := (Inv.queued h next (L.holds_next (Inv.valid h) htake)).2.2.1
    rcases hlt with hlt | ⟨heq, -⟩
    · exact Nat.le_of_lt hlt
    · exact Nat.le_of_eq heq
  unfold invoke at hfew ⊢
  by_cases hflag : next.impl ∈ (taken w.simulator next events).cancelled
  · rw [if_pos hflag] at hfew ⊢
    have hskip : Tidy valid holds { w with simulator := taken w.simulator next events } :=
      Inv.takeFlagged L h htake hflag
    refine ⟨{ hskip.processEventsWithContext L hfew with }, ?_⟩
    exact hlater.trans (Nat.le_of_eq (processEventsWithContext_frame Q
      { w with simulator := taken w.simulator next events }).2.1.symm)
  · rw [if_neg hflag]
    exact ⟨{ Inv.takeStarted L h htake hflag with }, hlater⟩

theorem Tidy.step (L : Q.Lawful (fun a b => a.key.Lt b.key) (fun e => e.key.uid) valid holds)
    (h : w.Tidy valid holds) {e : Step} (hstep : w.step Q e = some w')
    (hfew : w'.created.length ≤ 2 ^ 32 - 4) : Advances valid holds w w' := by
  have hprocess : (w.processEventsWithContext Q).created.length ≤ 2 ^ 32 - 4 →
      Advances valid holds w (w.processEventsWithContext Q) := fun hfew =>
    ⟨h.processEventsWithContext L hfew,
      Nat.le_of_eq (processEventsWithContext_frame Q w).2.1.symm⟩
  cases e with
  | operation o => exact h.operate L (Option.ite_none_right_eq_some.mp hstep).2 hfew
  | thread context delay =>
    cases hstep
    exact ⟨Inv.scheduleFromThread h context delay, Nat.le_refl _⟩
  | run =>
    obtain ⟨-, hstep⟩ := Option.ite_none_right_eq_some.mp hstep
    cases hstep
    exact ⟨{ (hprocess hfew).1 with }, (hprocess hfew).2⟩
  | next =>
    obtain ⟨-, hstep⟩ := Option.ite_none_right_eq_some.mp hstep
    split at hstep
    · cases hstep
    · rename_i hnext
      cases hstep
      exact h.next L hnext hfew
  | done =>
    obtain ⟨-, ⟨⟩⟩ := Option.ite_none_right_eq_some.mp hstep
    exact ⟨{ (hprocess hfew).1 with }, (hprocess hfew).2⟩
  | leave =>
    obtain ⟨-, ⟨⟩⟩ := Option.ite_none_right_eq_some.mp hstep
    exact ⟨{ h with }, Nat.le_refl _⟩
  | destroy =>
    obtain ⟨-, hstep⟩ := Option.ite_none_right_eq_some.mp hstep
    split at hstep
    · cases hstep
    · rename_i ev rest hlist
      dsimp only at hstep
      split at hstep
      · rename_i hflag
        cases hstep
        exact ⟨Inv.skipDestroy h hlist hflag, Nat.le_refl _⟩
      · rename_i hflag
        cases hstep
        exact ⟨Inv.startDestroy h hlist hflag, Nat.le_refl _⟩

/-! ## Runs -/

theorem tidy_start (L : Q.Lawful (fun a b => a.key.Lt b.key) (fun e => e.key.uid) valid holds) :
    (start Q).Tidy valid holds where
  valid := L.valid_empty
  uid := rfl
  impls := List.nodup_nil
  heap x hx := by cases hx
  uids id hid := by cases hid
  distinct id hid := by cases hid
  current := by
    show (0 : BitVec 32).toNat < 4 + 0
    decide
  queued e he := absurd he (L.holds_empty e)
  ordinary id hid := by cases hid
  waiting id hid := by cases hid
  waiting_nodup := List.nodup_nil
  final id hid := by cases hid
  executed id hid := by cases hid
  order := .nil
  destroyed id hid := by cases hid
  destroyed_nodup := List.nodup_nil
  cancelled i hi := by cases hi
  flagged id hid := by cases hid
  dropped id hid := by cases hid

/-- The steps that keep the number of events in the range of the uids. -/
theorem tidy_run (L : Q.Lawful (fun a b => a.key.Lt b.key) (fun e => e.key.uid) valid holds)
    {es : List Step} (h : w.Tidy valid holds) (hrun : (system Q).Run w es w')
    (hfew : w'.created.length ≤ 2 ^ 32 - 4) : Advances valid holds w w' := by
  induction hrun with
  | nil => exact ⟨h, Nat.le_refl _⟩
  | snoc _ hstep ih =>
    obtain ⟨hmiddle, hts⟩ := ih ((created_step hstep).trans hfew)
    obtain ⟨hlast, hts'⟩ := hmiddle.step L hstep hfew
    exact ⟨hlast, hts.trans hts'⟩

/-- What a program sees of the simulator. The ids that `executed` lists are in the order in which
their events ran. -/
structure Orderly (Q : PriorityQueue Event σ) (w : Program σ) : Prop where
  ordered : w.executed.Pairwise fun a b => a.key.Lt b.key
  once : (w.executed ++ w.destroyed).Nodup
  created : ∀ id, w.started id → id ∈ w.created
  dropped : ∀ id ∈ w.dropped, ¬ w.started id
  expired : ∀ id ∈ w.created, w.simulator.isExpired id = true ↔ w.started id ∨ id ∈ w.dropped
  progress : w.phase = .loop → w.simulator.isFinished Q = false → (w.step Q .next).isSome
  finished : w.phase = .loop → w.simulator.isFinished Q = true → w.simulator.stop = false →
    ∀ id ∈ w.created, id.uid ≠ 2 → id ∈ w.executed ∨ id ∈ w.dropped

theorem Tidy.orderly (L : Q.Lawful (fun a b => a.key.Lt b.key) (fun e => e.key.uid) valid holds)
    (h : w.Tidy valid holds) : Orderly Q w where
  ordered := Inv.order h
  once := by
    refine List.nodup_append.mpr ⟨?_, Inv.destroyed_nodup h, ?_⟩
    · refine (Inv.order h).imp fun {a b} hlt heq => ?_
      rw [heq] at hlt
      exact EventKey.Lt.irrefl hlt
    · intro id hexecuted id' hdestroyed heq
      have huid := (Inv.destroyed h id' hdestroyed).2
      rw [← heq] at huid
      exact (Inv.executed h id hexecuted).2.1 huid
  created := by
    rintro id (hexecuted | hdestroyed)
    · exact (Inv.executed h id hexecuted).1
    · exact (Inv.destroyed h id hdestroyed).1
  dropped id hid := (Inv.dropped h id hid).2.1
  expired id hid := Inv.isExpired_iff h hid
  progress hloop hmore := by
    have hempty : Q.isEmpty w.simulator.events = false :=
      (Bool.or_eq_false_iff.mp hmore).1
    have hheld : ∃ e, holds w.simulator.events e := by
      by_contra hnone
      have := (L.isEmpty_iff (Inv.valid h)).mpr fun e he => hnone ⟨e, he⟩
      rw [hempty] at this
      cases this
    obtain ⟨e, he⟩ := hheld
    obtain ⟨r, hr⟩ := Option.isSome_iff_exists.mp (L.removeNext_isSome (Inv.valid h) he)
    have hnext : w.simulator.takeNext Q = some (r.1, taken w.simulator r.1 r.2) := by
      unfold Simulator.takeNext
      rw [hr]
      rfl
    rw [Program.step, if_pos ⟨hloop, hmore⟩, hnext]
    rfl
  finished _ hfinished hstop id hid huid := by
    have hempty : Q.isEmpty w.simulator.events = true := by
      unfold Simulator.isFinished at hfinished
      rw [hstop, Bool.or_false] at hfinished
      exact hfinished
    rcases Inv.ordinary h id hid huid with ⟨e, he, -⟩ | (hexecuted | hdestroyed) | ⟨hdropped, -⟩
    · exact absurd he ((L.isEmpty_iff (Inv.valid h)).mp hempty e)
    · exact .inl hexecuted
    · exact absurd (Inv.destroyed h id hdestroyed).2 huid
    · exact .inr hdropped

/-- **Events run in order, once each, unless they were cancelled or removed**, over any scheduler
that is a priority queue. -/
theorem runs_in_order
    (L : Q.Lawful (fun a b => a.key.Lt b.key) (fun e => e.key.uid) valid holds) {es : List Step}
    (h : (system Q).Reachable w) (hrun : (system Q).Run w es w')
    (hfew : w'.created.length ≤ 2 ^ 32 - 4) :
    Orderly Q w' ∧ w.simulator.currentTs ≤ w'.simulator.currentTs := by
  obtain ⟨w₀, es₀, rfl, hrun₀⟩ := h
  have hmonotone : w.created.length ≤ w'.created.length :=
    hrun.relates (P := fun _ => True) (R := fun w w' => w.created.length ≤ w'.created.length)
      (fun _ _ _ _ _ => trivial) (fun _ _ => Nat.le_refl _) (fun _ _ _ => Nat.le_trans)
      (fun _ _ _ _ hstep => created_step hstep) trivial
  obtain ⟨htidy, -⟩ := tidy_run L (tidy_start L) hrun₀ (hmonotone.trans hfew)
  obtain ⟨htidy', hts⟩ := tidy_run L htidy hrun hfew
  exact ⟨htidy'.orderly L, hts⟩

/-! ## With the list scheduler -/

/-- An event at 5, one at 3 that is cancelled, and one at 7 that is removed while the first runs. -/
def sampleSteps : List Step :=
  [.operation (.schedule 5), .operation (.schedule 3), .operation (.schedule 7),
    .operation (.cancel ⟨some 1, 3, 0xffffffff, 5⟩), .run, .next, .next,
    .operation (.remove ⟨some 2, 7, 0xffffffff, 6⟩), .done]

theorem runs_in_order_sample : ∃ w : Program (List Event),
    Orderly ListScheduler.queue w ∧ w.executed = [⟨some 0, 5, 0xffffffff, 4⟩] := by
  have hrun : (System.exec (step ListScheduler.queue) (fun _ _ => True) (start ListScheduler.queue)
      sampleSteps).map (fun w => (w.executed, w.created.length)) =
        some ([⟨some 0, 5, 0xffffffff, 4⟩], 3) := by decide +kernel
  obtain ⟨w, hw, hview⟩ := System.reachable_of_exec (S := system ListScheduler.queue)
    (fun _ _ _ => id) rfl hrun
  obtain ⟨hexecuted, hcreated⟩ := Prod.mk.inj hview
  refine ⟨w, (runs_in_order ListScheduler.lawful hw.of_restrict (.nil w) ?_).1, hexecuted⟩
  rw [hcreated]
  decide

/-- A program that schedules `n` events for the start of the simulation. -/
theorem exists_scheduled (n : ℕ) : ∃ w : Program (List Event),
    (system ListScheduler.queue).Reachable w ∧ w.phase = .main ∧ w.created.length = n ∧
      w.simulator.uid = BitVec.ofNat 32 (4 + n) ∧ w.simulator.currentTs = 0 ∧
      w.executed = [] ∧ w.destroyed = [] ∧ w.dropped = [] := by
  induction n with
  | zero => exact ⟨_, ⟨_, [], rfl, .nil _⟩, rfl, rfl, rfl, rfl, rfl, rfl, rfl⟩
  | succ n ih =>
    obtain ⟨w, hw, hmain, hlength, huid, hts, hexecuted, hdestroyed, hdropped⟩ := ih
    have hstep : (system ListScheduler.queue).step w (.operation (.schedule 0))
        (w.create (w.simulator.schedule ListScheduler.queue 0)) := by
      show (if w.phase ≠ .loop then _ else none) = _
      rw [if_pos (by rw [hmain]; decide)]
      rfl
    refine ⟨_, hw.run (.snoc (.nil _) hstep), hmain, ?_, ?_, hts, hexecuted, hdestroyed, hdropped⟩
    · show (w.created ++ [_]).length = n + 1
      rw [List.length_append, hlength]
      rfl
    · show w.simulator.uid + 1 = _
      rw [huid, ← Nat.add_assoc, BitVec.ofNat_add (4 + n)]
      rfl

/-- The uid of the event number `2 ^ 32 - 3` is 0: the event has expired before it starts. -/
theorem expired_early : ¬ ∀ w : Program (List Event),
    (system ListScheduler.queue).Reachable w → w.created.length < 2 ^ 32 →
      Orderly ListScheduler.queue w := by
  intro hall
  obtain ⟨w, hw, hmain, hlength, huid, hts, hexecuted, hdestroyed, hdropped⟩ :=
    exists_scheduled (2 ^ 32 - 4)
  have hstep : (system ListScheduler.queue).step w (.operation (.schedule 0))
      (w.create (w.simulator.schedule ListScheduler.queue 0)) := by
    show (if w.phase ≠ .loop then _ else none) = _
    rw [if_pos (by rw [hmain]; decide)]
    rfl
  have hid : (⟨some w.simulator.heap, 0 + w.simulator.currentTs, w.simulator.currentContext,
      w.simulator.uid⟩ : EventId) ∈ (w.create (w.simulator.schedule ListScheduler.queue 0)).created :=
    List.mem_append_right _ (List.mem_singleton.mpr rfl)
  have hfew : (w.create (w.simulator.schedule ListScheduler.queue 0)).created.length < 2 ^ 32 := by
    show (w.created ++ [_]).length < _
    rw [List.length_append, hlength]
    exact Nat.lt_of_lt_of_eq (Nat.add_lt_add_left (by decide : 1 < 4) _) rfl
  have horder := hall _ (hw.run (.snoc (.nil _) hstep)) hfew
  have hzero : w.simulator.uid = 0 := huid.trans (by decide)
  have hexpired : (w.create (w.simulator.schedule ListScheduler.queue 0)).simulator.isExpired
      ⟨some w.simulator.heap, 0 + w.simulator.currentTs, w.simulator.currentContext,
        w.simulator.uid⟩ = true := by
    refine (isExpired_ordinary ?_).mpr (.inl ?_)
    · show w.simulator.uid ≠ 2
      rw [hzero]
      decide
    · rintro (hlt | ⟨-, hlt⟩)
      · change w.simulator.currentTs < 0 + w.simulator.currentTs at hlt
        omega
      · change w.simulator.currentUid < w.simulator.uid at hlt
        rw [hzero, BitVec.lt_def] at hlt
        exact Nat.not_lt_zero _ hlt
  rcases (horder.expired _ hid).mp hexpired with (hmem | hmem) | hmem
  · change _ ∈ w.executed at hmem
    rw [hexecuted] at hmem
    cases hmem
  · change _ ∈ w.destroyed at hmem
    rw [hdestroyed] at hmem
    cases hmem
  · change _ ∈ w.dropped at hmem
    rw [hdropped] at hmem
    cases hmem

end Program

end Ns3.Core
