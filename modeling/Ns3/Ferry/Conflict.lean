import Ns3.Ferry.CheckHello

/-!
# Two ferries with one area

Two ferries that both patrol an area hear one hello of each other, in any
order: both hellos may be under way at once, or one ferry may answer after it
has handled the other's. A ferry leaves the area when its table has a valid
time for it earlier than its own start (`hears_spec`). Exactly one of the two
stays when the starts differ, the earlier one is not 0, and no table has an
earlier time for the area from anybody else.
-/

namespace Ns3.Ferry

open Ns3.Lib Ns3.Ferry2

variable {E C D : Type} [DecidableEq C]

/-! ## The tables -/

/-- The earlier of two times, if any. -/
abbrev earlier : Option UInt32 → Option UInt32 → Option UInt32 := Option.merge min

theorem find_recordMin (m : StdMap String UInt32) (k k' : String) (v : UInt32) :
    (recordMin m k v).find k' =
      if k' = k then earlier (m.find k) (some v) else m.find k' := by
  unfold recordMin
  cases hm : m.find k with
  | none =>
    rw [StdMap.find_insert, hm]
    rfl
  | some old =>
    by_cases hlt : v < old
    · simp only [if_pos hlt, StdMap.find_assign, earlier, Option.merge_some_some,
        min_eq_right hlt.le]
    · simp only [if_neg hlt, earlier, Option.merge_some_some, min_eq_left (not_lt.mp hlt)]
      split
      · rename_i heq
        rw [heq, hm]
      · rfl

theorem recordMin_eq_alter (m : StdMap String UInt32) (k : String) (v : UInt32) :
    recordMin m k v = m.alter k fun o => earlier o (some v) := by
  ext k' : 1
  rw [find_recordMin, StdMap.find_alter]

theorem find_mergeMin (a b : StdMap String UInt32) (k : String) :
    (mergeMin a b).find k = earlier (a.find k) (b.find k) := by
  unfold mergeMin
  simp only [recordMin_eq_alter]
  rw [StdMap.find_foldl_alter b (fun _ v o => earlier o (some v))]
  cases b.find k with
  | none => simp
  | some v => rfl

/-- The time that a hello gives its sender for the area. -/
def claimedTime (mine : String × UInt32) (area : String) : Option UInt32 :=
  if mine.1 = area then some mine.2 else none

section Merge

variable {u : FerryUser} {hello : UserData} {area : String}

/-- What a hello leaves in the table of times. -/
theorem mergePatrol_time (harea : area ≠ "") :
    (mergePatrol u hello).patrolEreaidAndTime.find area =
      earlier (earlier (u.patrolEreaidAndTime.find area) (hello.patrolEreaidAndTime.find area))
        (claimedTime hello.myPatrolEreaAndStartTime area) := by
  unfold mergePatrol claimedTime
  by_cases hmine : hello.myPatrolEreaAndStartTime.1 = area
  · simp only [hmine, harea, ne_eq, not_false_eq_true, if_true, find_recordMin, find_mergeMin]
  · by_cases hempty : hello.myPatrolEreaAndStartTime.1 = ""
    · simp [hempty, Ne.symm harea, find_mergeMin]
    · simp [hempty, hmine, Ne.symm hmine, find_recordMin, find_mergeMin]

/-- An area that the receiver or the sender knows to be taken, or that the sender has itself. -/
theorem mergePatrol_taken (harea : area ≠ "")
    (h : u.otherUAVPatrolEreaAndId.contains area ∨
      hello.otherUAVPatrolEreaAndId.contains area ∨ hello.myPatrolEreaAndStartTime.1 = area) :
    (mergePatrol u hello).otherUAVPatrolEreaAndId.contains area := by
  have hinsert : ((hello.otherUAVPatrolEreaAndId.entries.foldl (fun m a => m.insert a.1 a.2)
      u.otherUAVPatrolEreaAndId).find area) =
      (u.otherUAVPatrolEreaAndId.find area).or (hello.otherUAVPatrolEreaAndId.find area) :=
    StdMap.find_foldl_insert
  unfold mergePatrol
  by_cases hmine : hello.myPatrolEreaAndStartTime.1 = area
  · simp [hmine, harea, StdMap.contains]
  · have hknown : u.otherUAVPatrolEreaAndId.contains area ∨
        hello.otherUAVPatrolEreaAndId.contains area := by
      rcases h with h | h | h
      · exact .inl h
      · exact .inr h
      · exact absurd h hmine
    by_cases hempty : hello.myPatrolEreaAndStartTime.1 = ""
    · simpa [hempty, StdMap.contains, hinsert] using hknown
    · simpa [hempty, StdMap.contains, StdMap.find_assign, Ne.symm hmine, hinsert] using hknown

theorem mergePatrol_same (u : FerryUser) (hello : UserData) :
    (mergePatrol u hello).changerouteforUAV = u.changerouteforUAV ∧
    (mergePatrol u hello).myPatrolEreaAndStartTime = u.myPatrolEreaAndStartTime ∧
    (mergePatrol u hello).blockednodeidAndTime = u.blockednodeidAndTime := by
  unfold mergePatrol
  split <;> exact ⟨rfl, rfl, rfl⟩

end Merge

/-! ## The decision -/

/-- The ferry flies round the area, which it knows to be blocked. No area is the empty string. -/
structure Patrols (area : String) (u : FerryUser) : Prop where
  isArea : area ≠ ""
  changed : u.changerouteforUAV = true
  mine : u.myPatrolEreaAndStartTime.1 = area
  blocked : u.blockednodeidAndTime.contains area

/-- A valid time before the start. -/
def Beats (time : Option UInt32) (start : UInt32) : Prop := ∃ t, time = some t ∧ 0 < t ∧ t < start

theorem lostRace_iff {u : FerryUser} {area : String} {start : UInt32} :
    u.lostRace area start = true ↔ Beats (u.patrolEreaidAndTime.find area) start := by
  unfold FerryUser.lostRace Beats
  cases u.patrolEreaidAndTime.find area <;> simp

section Change

variable {map : RoadMap C D} {exitNodes : StdMap String UInt32} {now : ℕ} {u u' : FerryUser}
  {uses : List Use} {area : String}

/-- What a change of route leaves of an area that it gives up. -/
structure GivesUp (area : String) (u u' : FerryUser) : Prop where
  leaves : ¬ (u'.changerouteforUAV = true ∧ u'.myPatrolEreaAndStartTime.1 = area)
  stale : u'.myPatrolEreaAndStartTime.1 = area →
    u'.myPatrolEreaAndStartTime = u.myPatrolEreaAndStartTime
  times : u'.patrolEreaidAndTime = u.patrolEreaidAndTime
  other : u'.otherUAVPatrolEreaAndId = u.otherUAVPatrolEreaAndId

omit [DecidableEq C] in
theorem readStopLeft_patrol (h : u.readStopLeft exitNodes now = some (u', uses)) :
    u'.patrolData = u.patrolData := by
  simp only [FerryUser.readStopLeft, FerryUser.getExitInfoforFerry, Option.bind_eq_bind,
    Option.bind_eq_some_iff] at h
  obtain ⟨stop, -, v, ⟨space, -, old, -, hv⟩, hout⟩ := h
  cases hout
  split at hv <;> cases hv <;> rfl

theorem givesUp_of_patrolData {v : FerryUser} (h : GivesUp area u v)
    (hv : u'.patrolData = v.patrolData) : GivesUp area u u' := by
  obtain ⟨h₁, h₂, h₃, h₄⟩ := PatrolData.mk.inj hv
  refine ⟨?_, ?_, ?_, ?_⟩
  · rw [h₁, h₂]
    exact h.leaves
  · rw [h₂]
    exact h.stale
  · rw [h₄]
    exact h.times
  · rw [h₃]
    exact h.other

/-- A ferry that does not keep its area gives it up for good if another ferry has it. -/
theorem changePatrolRoute_givesUp (harea : area ≠ "") (hkeep : u.keepsArea = false)
    (htaken : u.otherUAVPatrolEreaAndId.contains area)
    (h : u.changePatrolRoute map exitNodes now .recv = some (u', uses)) : GivesUp area u u' := by
  unfold FerryUser.changePatrolRoute at h
  rw [if_neg (by simp [hkeep])] at h
  split at h
  · -- nothing to patrol
    cases h
    refine ⟨by simp [FerryUser.revertRoute], fun hmine => ?_, rfl, rfl⟩
    exact absurd hmine.symm harea
  · rename_i targetid htarget
    have hne : targetid ≠ area := by
      rintro rfl
      have := List.find?_some htarget
      simp [htaken] at this
    simp only [FerryUser.takeArea, Option.bind_eq_bind, Option.bind_eq_some_iff] at h
    obtain ⟨blockcoordinate, -, h⟩ := h
    split at h
    · -- no crossing depends on the target: back to the shelters, with the old start time
      have hrevert : GivesUp area u u.revertRoute := by
        refine ⟨by simp [FerryUser.revertRoute], fun _ => rfl, rfl, rfl⟩
      exact givesUp_of_patrolData hrevert (readStopLeft_patrol h)
    · obtain ⟨sorted, -, hout⟩ := Option.bind_eq_some_iff.mp h
      cases hout
      exact ⟨fun hc => hne hc.2, fun hmine => absurd hmine hne, rfl, rfl⟩

theorem keepsArea_iff (hu : Patrols area u) :
    u.keepsArea = true ↔ ¬ Beats (u.patrolEreaidAndTime.find area) u.myPatrolEreaAndStartTime.2 := by
  rw [← lostRace_iff]
  simp [FerryUser.keepsArea, hu.changed, hu.mine, hu.blocked]

/-- A ferry whose area another one has as well keeps it unless it comes too late. -/
theorem changePatrolRoute_stays (hu : Patrols area u)
    (htaken : u.otherUAVPatrolEreaAndId.contains area)
    (h : u.changePatrolRoute map exitNodes now .recv = some (u', uses)) :
    (Patrols area u' ↔
      ¬ Beats (u.patrolEreaidAndTime.find area) u.myPatrolEreaAndStartTime.2) ∧
    u'.patrolEreaidAndTime = u.patrolEreaidAndTime ∧
    u'.otherUAVPatrolEreaAndId = u.otherUAVPatrolEreaAndId ∧
    (u'.myPatrolEreaAndStartTime.1 = area →
      u'.myPatrolEreaAndStartTime = u.myPatrolEreaAndStartTime) := by
  rw [← keepsArea_iff hu]
  cases hkeep : u.keepsArea with
  | true =>
    rw [FerryUser.changePatrolRoute, if_pos hkeep] at h
    cases h
    exact ⟨iff_of_true hu rfl, rfl, rfl, fun _ => rfl⟩
  | false =>
    have hgives := changePatrolRoute_givesUp hu.isArea hkeep htaken h
    refine ⟨iff_of_false (fun hp => hgives.leaves ⟨hp.changed, hp.mine⟩) (by simp),
      hgives.times, hgives.other, hgives.stale⟩

end Change

/-! ## One hello -/

/-- `n` handles a hello of `m`; up to then nothing changes the user data of either. -/
inductive Hears (w : World E C D) (m n n' : Node E) : Prop
  | mk {m₁ n₁ : Node E} {cfg : Config} {time : ℕ} {source : Ipv4Address} {data : UserData}
      {hop : Hop} {out : List Message} (hm : m₁.ferry = m.ferry) (hn : n₁.ferry = n.ferry)
      (htype : n₁.nodeType = n.nodeType)
      (hsent : Message.hello source data hop ∈ (sendHello cfg time m₁).2)
      (hnew : (n₁.idCache.isDuplicate w.now source data.broadcastId).1 = false)
      (hrecv : recvHello w n₁ data hop source = some (n', out)) : Hears w m n n'

/-- The earliest time for the area that `n` knows of once it has heard `m`. -/
def heardTime (m n : FerryUser) (area : String) : Option UInt32 :=
  earlier (earlier (n.patrolEreaidAndTime.find area) (m.patrolEreaidAndTime.find area))
    (claimedTime m.myPatrolEreaAndStartTime area)

/-- A ferry after it has heard another one. -/
structure Heard (area : String) (m n n' : FerryUser) : Prop where
  stays : Patrols area n' ↔ ¬ Beats (heardTime m n area) n.myPatrolEreaAndStartTime.2
  times : n'.patrolEreaidAndTime.find area = heardTime m n area
  taken : n'.otherUAVPatrolEreaAndId.contains area
  mine : n'.myPatrolEreaAndStartTime.1 = area →
    n'.myPatrolEreaAndStartTime = n.myPatrolEreaAndStartTime

theorem sendHello_data {cfg : Config} {time : ℕ} {m : Node E} {source : Ipv4Address}
    {data : UserData} {hop : Hop} (h : Message.hello source data hop ∈ (sendHello cfg time m).2) :
    data.myPatrolEreaAndStartTime = m.ferry.myPatrolEreaAndStartTime ∧
    data.otherUAVPatrolEreaAndId = m.ferry.otherUAVPatrolEreaAndId ∧
    data.patrolEreaidAndTime = m.ferry.patrolEreaidAndTime := by
  unfold sendHello at h
  dsimp only at h
  split at h
  · cases h
  · obtain ⟨a, -, heq⟩ := List.mem_map.mp h
    cases heq
    exact ⟨rfl, rfl, rfl⟩

theorem hears_spec {w : World E C D} {m n n' : Node E} {area : String}
    (htype : n.nodeType = .ferryNode) (hn : Patrols area n.ferry)
    (hm : m.ferry.otherUAVPatrolEreaAndId.contains area ∨
      m.ferry.myPatrolEreaAndStartTime.1 = area)
    (h : Hears w m n n') : Heard area m.ferry n.ferry n'.ferry := by
  obtain @⟨m₁, n₁, cfg, time, source, data, hop, out, hm₁, hn₁, ht₁, hsent, hnew, hrecv⟩ := h
  obtain ⟨hmine, hother, htimes⟩ := sendHello_data hsent
  rw [hm₁] at hmine hother htimes
  simp only [recvHello, hnew, Bool.false_eq_true, if_false, Option.bind_eq_bind,
    Option.bind_eq_some_iff] at hrecv
  obtain ⟨n₂, hroute, hcheck⟩ := hrecv
  obtain ⟨hpatrol, hkeeps⟩ := checkHelloData_keeps hcheck
  obtain ⟨hchanged, hmine', hother', htimes'⟩ := PatrolData.mk.inj hpatrol
  unfold reconsiderRoute at hroute
  rw [if_pos (ht₁.trans htype), Option.bind_eq_bind, Option.bind_eq_some_iff] at hroute
  obtain ⟨⟨v, uses⟩, hv, hout⟩ := hroute
  cases hout
  -- what the merge makes of the receiver
  obtain ⟨hsame₁, hsame₂, hsame₃⟩ := mergePatrol_same n₁.ferry data
  have hu : Patrols area (mergePatrol n₁.ferry data) := by
    refine ⟨hn.isArea, ?_, ?_, ?_⟩
    · rw [hsame₁, hn₁, hn.changed]
    · rw [hsame₂, hn₁, hn.mine]
    · rw [hsame₃, hn₁]
      exact hn.blocked
  have htaken : (mergePatrol n₁.ferry data).otherUAVPatrolEreaAndId.contains area := by
    refine mergePatrol_taken hn.isArea (.inr ?_)
    rw [hother, hmine]
    exact hm
  have htime : (mergePatrol n₁.ferry data).patrolEreaidAndTime.find area =
      heardTime m.ferry n.ferry area := by
    rw [mergePatrol_time hn.isArea, hn₁, htimes, hmine, heardTime]
  obtain ⟨hstays, hvtimes, hvother, hvmine⟩ := changePatrolRoute_stays hu htaken hv
  rw [htime, hsame₂, hn₁] at hstays
  have hpatrols : Patrols area n'.ferry ↔ Patrols area v := by
    have hblocked : v.blockednodeidAndTime = n.ferry.blockednodeidAndTime := by
      rw [changePatrolRoute_blocked hv, hsame₃, hn₁]
    constructor
    · intro hp
      exact ⟨hp.isArea, hchanged ▸ hp.changed, hmine' ▸ hp.mine, hblocked ▸ hn.blocked⟩
    · intro hp
      exact ⟨hp.isArea, hchanged.trans hp.changed, hmine' ▸ hp.mine, hkeeps _ hp.blocked⟩
  refine ⟨hpatrols.trans hstays, ?_, ?_, fun harea => ?_⟩
  · rw [htimes']
    show v.patrolEreaidAndTime.find area = _
    rw [hvtimes, htime]
  · rw [hother']
    exact hvother ▸ htaken
  · rw [hmine'] at harea ⊢
    rw [← hn₁, ← hsame₂]
    exact hvmine harea

/-! ## Both hellos -/

/-- The orders in which two ferries can hear one hello of each other. -/
inductive HelloExchange (wa wb : World E C D) (a b a' b' : Node E) : Prop
  /-- Both hellos were sent before either was handled. -/
  | crossing (ha : Hears wa b a a') (hb : Hears wb a b b')
  /-- `a` hears `b` and sends its own hello after that. -/
  | aFirst (ha : Hears wa b a a') (hb : Hears wb a' b b')
  | bFirst (hb : Hears wb a b b') (ha : Hears wa b' a a')

/-- `o` is the least of the times in `R`, if there are any. -/
structure Earliest (o : Option UInt32) (R : UInt32 → Prop) : Prop where
  mem : ∀ m, o = some m → R m
  le : ∀ x, R x → ∃ m, o = some m ∧ m ≤ x

theorem earliest_find (o : Option UInt32) : Earliest o fun x => o = some x :=
  ⟨fun _ h => h, fun x h => ⟨x, h, le_rfl⟩⟩

theorem earliest_claimedTime (mine : String × UInt32) (area : String) :
    Earliest (claimedTime mine area) fun x => mine.1 = area ∧ x = mine.2 := by
  unfold claimedTime
  by_cases h : mine.1 = area
  · rw [if_pos h]
    exact ⟨fun m hm => ⟨h, (Option.some.inj hm).symm⟩, fun x hx => ⟨_, rfl, hx.2.ge⟩⟩
  · rw [if_neg h]
    exact ⟨fun m hm => absurd hm (by simp), fun x hx => absurd hx.1 h⟩

theorem Earliest.earlier {s t : Option UInt32} {R R' : UInt32 → Prop} (h : Earliest s R)
    (h' : Earliest t R') : Earliest (earlier s t) fun x => R x ∨ R' x := by
  constructor
  · intro m hm
    cases s with
    | none => exact .inr (h'.mem m (by simpa using hm))
    | some a =>
      cases t with
      | none => exact .inl (h.mem m (by simpa using hm))
      | some b =>
        rcases min_choice a b with hmin | hmin
        · exact .inl (h.mem m (by simpa [hmin] using hm))
        · exact .inr (h'.mem m (by simpa [hmin] using hm))
  · rintro x (hx | hx)
    · obtain ⟨a, rfl, hle⟩ := h.le x hx
      cases t with
      | none => exact ⟨a, rfl, hle⟩
      | some b => exact ⟨min a b, rfl, (min_le_left a b).trans hle⟩
    · obtain ⟨b, rfl, hle⟩ := h'.le x hx
      cases s with
      | none => exact ⟨b, rfl, hle⟩
      | some a => exact ⟨min a b, rfl, (min_le_right a b).trans hle⟩

theorem Earliest.congr {o : Option UInt32} {R R' : UInt32 → Prop} (h : Earliest o R)
    (hR : ∀ x, R x ↔ R' x) : Earliest o R' :=
  ⟨fun m hm => (hR m).mp (h.mem m hm), fun x hx => h.le x ((hR x).mpr hx)⟩

/-- All times in `R` are valid, and one is before the start. -/
def Late (R : UInt32 → Prop) (start : UInt32) : Prop :=
  (∀ x, R x → 0 < x) ∧ ∃ x, R x ∧ x < start

theorem Earliest.beats_iff {o : Option UInt32} {R : UInt32 → Prop} {start : UInt32}
    (h : Earliest o R) : Beats o start ↔ Late R start := by
  constructor
  · rintro ⟨m, hm, hpos, hlt⟩
    refine ⟨fun x hx => ?_, m, h.mem m hm, hlt⟩
    obtain ⟨m', hm', hle⟩ := h.le x hx
    obtain rfl : m = m' := Option.some.inj (hm.symm.trans hm')
    exact lt_of_lt_of_le hpos hle
  · rintro ⟨hpos, x, hx, hlt⟩
    obtain ⟨m, hm, hle⟩ := h.le x hx
    exact ⟨m, hm, hpos m (h.mem m hm), lt_of_le_of_lt hle hlt⟩

/-- The tables of `a` and `b` have the time `x` for the area. -/
def Recorded (area : String) (a b : FerryUser) (x : UInt32) : Prop :=
  a.patrolEreaidAndTime.find area = some x ∨ b.patrolEreaidAndTime.find area = some x

theorem heardTime_earliest (m n : FerryUser) (area : String) :
    Earliest (heardTime m n area) fun x => Recorded area n m x ∨
      (m.myPatrolEreaAndStartTime.1 = area ∧ x = m.myPatrolEreaAndStartTime.2) :=
  ((earliest_find _).earlier (earliest_find _)).earlier (earliest_claimedTime _ _)

/-- The condition under which one of two ferries stays: `p` and `q` are their start times. -/
def Resolved (R : UInt32 → Prop) (p q : UInt32) : Prop :=
  p ≠ q ∧ 0 < min p q ∧ ∀ x, R x → min p q ≤ x

/-- A ferry is not late for its own time. -/
theorem late_own_iff {R R' : UInt32 → Prop} {p : UInt32}
    (hR : ∀ x, R' x ↔ R x ∨ x = p) : Late R' p ↔ Late R p := by
  simp only [Late, hR]
  constructor
  · rintro ⟨hpos, x, hx, hlt⟩
    exact ⟨fun y hy => hpos y (.inl hy), x, hx.resolve_right hlt.ne, hlt⟩
  · rintro ⟨hpos, x, hx, hlt⟩
    refine ⟨?_, x, .inl hx, hlt⟩
    rintro y (hy | rfl)
    · exact hpos y hy
    · exact (hpos x hx).trans hlt

theorem resolved_comm {R : UInt32 → Prop} {p q : UInt32} : Resolved R p q ↔ Resolved R q p := by
  unfold Resolved
  rw [min_comm, ne_comm]

/-- `a` leaves for the times in `R` and the start `q` of `b`; `b` leaves for the same times, and
the start `p` of `a` if `a` still claims the area (`c`). -/
theorem one_stays_iff {R : UInt32 → Prop} {p q : UInt32} {c : Prop}
    (hc : ¬ Late (fun x => R x ∨ x = q) p → c) :
    ((¬ Late (fun x => R x ∨ x = q) p ∨ ¬ Late (fun x => (R x ∨ x = q) ∨ (c ∧ x = p)) q) ∧
      ¬ (¬ Late (fun x => R x ∨ x = q) p ∧ ¬ Late (fun x => (R x ∨ x = q) ∨ (c ∧ x = p)) q)) ↔
    Resolved R p q := by
  have ha : Late (fun x => R x ∨ x = q) p ↔
      ((∀ x, R x → 0 < x) ∧ 0 < q) ∧ ((∃ x, R x ∧ x < p) ∨ q < p) := by
    unfold Late
    grind
  have hb : Late (fun x => (R x ∨ x = q) ∨ (c ∧ x = p)) q ↔
      ((∀ x, R x → 0 < x) ∧ 0 < q ∧ (c → 0 < p)) ∧ ((∃ x, R x ∧ x < q) ∨ (c ∧ p < q)) := by
    unfold Late
    grind
  rw [ha] at hc ⊢
  rw [hb]
  unfold Resolved
  rcases lt_trichotomy p q with hlt | rfl | hlt
  · have hq : 0 < q := lt_of_le_of_lt UInt32.zero_le hlt
    have hp : ∀ x, R x → x < p → 0 < x → 0 < p := fun x _ hxp hx => hx.trans hxp
    rw [min_eq_left hlt.le]
    by_cases hclaims : c
    · grind
    · grind
  · -- nobody is first
    grind
  · have hp : 0 < p := lt_of_le_of_lt UInt32.zero_le hlt
    rw [min_eq_right hlt.le]
    grind

section Exchange

variable {wa wb : World E C D} {a b a' b' : Node E} {area : String}

/-- `a` hears `b` first. -/
theorem aFirst_iff (ha : a.nodeType = .ferryNode) (hb : b.nodeType = .ferryNode)
    (hpa : Patrols area a.ferry) (hpb : Patrols area b.ferry) (h₁ : Hears wa b a a')
    (h₂ : Hears wb a' b b') :
    ((Patrols area a'.ferry ∨ Patrols area b'.ferry) ∧
      ¬ (Patrols area a'.ferry ∧ Patrols area b'.ferry)) ↔
    Resolved (Recorded area a.ferry b.ferry) a.ferry.myPatrolEreaAndStartTime.2
      b.ferry.myPatrolEreaAndStartTime.2 := by
  have hheard := hears_spec ha hpa (.inr hpb.mine) h₁
  have hheard' := hears_spec hb hpb (.inl hheard.taken) h₂
  have hknown : Earliest (heardTime b.ferry a.ferry area) fun x =>
      Recorded area a.ferry b.ferry x ∨ x = b.ferry.myPatrolEreaAndStartTime.2 :=
    (heardTime_earliest _ _ _).congr fun x => by rw [hpb.mine, eq_self, true_and]
  have hknown' : Earliest (heardTime a'.ferry b.ferry area) fun x =>
      (Recorded area a.ferry b.ferry x ∨ x = b.ferry.myPatrolEreaAndStartTime.2) ∨
        (a'.ferry.myPatrolEreaAndStartTime.1 = area ∧
          x = a.ferry.myPatrolEreaAndStartTime.2) := by
    have htimes : Earliest (a'.ferry.patrolEreaidAndTime.find area) _ := hheard.times ▸ hknown
    refine (((earliest_find _).earlier htimes).earlier (earliest_claimedTime _ _)).congr
      fun x => ?_
    have hclaim : (a'.ferry.myPatrolEreaAndStartTime.1 = area ∧
        x = a'.ferry.myPatrolEreaAndStartTime.2) ↔
        (a'.ferry.myPatrolEreaAndStartTime.1 = area ∧ x = a.ferry.myPatrolEreaAndStartTime.2) :=
      and_congr_right fun hmine => by rw [hheard.mine hmine]
    rw [hclaim]
    unfold Recorded
    tauto
  rw [hheard.stays, hheard'.stays, hknown.beats_iff, hknown'.beats_iff]
  refine one_stays_iff fun hstays => ?_
  exact (hheard.stays.mpr fun hbeats => hstays (hknown.beats_iff.mp hbeats)).mine

/-- Both hellos are under way at once. -/
theorem crossing_iff (ha : a.nodeType = .ferryNode) (hb : b.nodeType = .ferryNode)
    (hpa : Patrols area a.ferry) (hpb : Patrols area b.ferry) (h₁ : Hears wa b a a')
    (h₂ : Hears wb a b b') :
    ((Patrols area a'.ferry ∨ Patrols area b'.ferry) ∧
      ¬ (Patrols area a'.ferry ∧ Patrols area b'.ferry)) ↔
    Resolved (Recorded area a.ferry b.ferry) a.ferry.myPatrolEreaAndStartTime.2
      b.ferry.myPatrolEreaAndStartTime.2 := by
  have hheard := hears_spec ha hpa (.inr hpb.mine) h₁
  have hheard' := hears_spec hb hpb (.inr hpa.mine) h₂
  have hknown : Earliest (heardTime b.ferry a.ferry area) fun x =>
      Recorded area a.ferry b.ferry x ∨ x = b.ferry.myPatrolEreaAndStartTime.2 :=
    (heardTime_earliest _ _ _).congr fun x => by rw [hpb.mine, eq_self, true_and]
  have hknown' : Earliest (heardTime a.ferry b.ferry area) fun x =>
      Recorded area a.ferry b.ferry x ∨ x = a.ferry.myPatrolEreaAndStartTime.2 :=
    (heardTime_earliest _ _ _).congr fun x => by
      rw [hpa.mine, eq_self, true_and]
      exact or_congr_left or_comm
  -- `b` may as well know its own start
  have hown : Late (fun x => (Recorded area a.ferry b.ferry x ∨
        x = b.ferry.myPatrolEreaAndStartTime.2) ∨
      (True ∧ x = a.ferry.myPatrolEreaAndStartTime.2)) b.ferry.myPatrolEreaAndStartTime.2 ↔
      Late (fun x => Recorded area a.ferry b.ferry x ∨
        x = a.ferry.myPatrolEreaAndStartTime.2) b.ferry.myPatrolEreaAndStartTime.2 :=
    late_own_iff fun x => by tauto
  rw [hheard.stays, hheard'.stays, hknown.beats_iff, hknown'.beats_iff, ← hown]
  exact one_stays_iff fun _ => trivial

/-- **Area conflicts.** Two ferries that patrol one area have heard one hello of each other, in
any order. Exactly one of them stays if and only if their start times differ, the earlier one is
not 0, and neither table has an earlier time for the area. -/
theorem conflict_resolved_iff (ha : a.nodeType = .ferryNode) (hb : b.nodeType = .ferryNode)
    (hpa : Patrols area a.ferry) (hpb : Patrols area b.ferry)
    (h : HelloExchange wa wb a b a' b') :
    ((Patrols area a'.ferry ∨ Patrols area b'.ferry) ∧
      ¬ (Patrols area a'.ferry ∧ Patrols area b'.ferry)) ↔
    Resolved (Recorded area a.ferry b.ferry) a.ferry.myPatrolEreaAndStartTime.2
      b.ferry.myPatrolEreaAndStartTime.2 := by
  cases h with
  | crossing h₁ h₂ => exact crossing_iff ha hb hpa hpb h₁ h₂
  | aFirst h₁ h₂ => exact aFirst_iff ha hb hpa hpb h₁ h₂
  | bFirst h₂ h₁ =>
    have hsymm := aFirst_iff hb ha hpb hpa h₂ h₁
    have hrecorded : Recorded area b.ferry a.ferry = Recorded area a.ferry b.ferry := by
      funext x
      exact propext or_comm
    rw [or_comm, @and_comm (Patrols area a'.ferry), hsymm, hrecorded, resolved_comm]

end Exchange

/-! ## One area, two starts -/

section Sample

/-- A ferry that flies round crossing 10007. -/
def samplePatrol (address : Ipv4Address) (start : UInt32) : Node Unit :=
  { sampleNode with
    nodeType := .ferryNode
    ifaces := [address]
    ferry := { sampleFerry with
      changerouteforUAV := true
      myPatrolEreaAndStartTime := ("node/10007", start) } }

theorem samplePatrol_patrols (address : Ipv4Address) (start : UInt32) :
    Patrols "node/10007" (samplePatrol address start).ferry :=
  ⟨by decide, rfl, rfl, rfl⟩

theorem samplePatrol_sent (address : Ipv4Address) (start : UInt32) :
    Message.hello address (helloData { samplePatrol address start with broadcastId := 1 })
      ⟨.empty⟩ ∈ (sendHello sampleWorld.cfg 0 (samplePatrol address start)).2 :=
  .head _

/-- With starts 10 and 20 the later ferry goes back to the shelters. -/
theorem conflict_resolved_iff_sample : ∃ a' b', HelloExchange sampleWorld sampleWorld
    (samplePatrol 0x0a000001 10) (samplePatrol 0x0a000002 20) a' b' ∧
    (Patrols "node/10007" a'.ferry ∨ Patrols "node/10007" b'.ferry) ∧
    ¬ (Patrols "node/10007" a'.ferry ∧ Patrols "node/10007" b'.ferry) := by
  obtain ⟨a', b', h⟩ : ∃ a' b', HelloExchange sampleWorld sampleWorld
      (samplePatrol 0x0a000001 10) (samplePatrol 0x0a000002 20) a' b' :=
    ⟨_, _, .crossing (.mk rfl rfl rfl (samplePatrol_sent _ _) rfl rfl)
      (.mk rfl rfl rfl (samplePatrol_sent _ _) rfl rfl)⟩
  refine ⟨a', b', h, (conflict_resolved_iff rfl rfl (samplePatrol_patrols _ _)
    (samplePatrol_patrols _ _) h).mpr ⟨by decide, by decide, ?_⟩⟩
  rintro x (hx | hx) <;> cases hx

/-- Two ferries that started in the same second both stay. -/
theorem tied_ferries_both_stay : ∃ a b a' b' : Node Unit,
    a.nodeType = .ferryNode ∧ b.nodeType = .ferryNode ∧
    Patrols "node/10007" a.ferry ∧ Patrols "node/10007" b.ferry ∧
    HelloExchange sampleWorld sampleWorld a b a' b' ∧
    Patrols "node/10007" a'.ferry ∧ Patrols "node/10007" b'.ferry :=
  ⟨samplePatrol 0x0a000001 10, samplePatrol 0x0a000002 10, _, _, rfl, rfl,
    samplePatrol_patrols _ _, samplePatrol_patrols _ _,
    .crossing (.mk rfl rfl rfl (samplePatrol_sent _ _) rfl rfl)
      (.mk rfl rfl rfl (samplePatrol_sent _ _) rfl rfl),
    ⟨by decide, rfl, rfl, rfl⟩, ⟨by decide, rfl, rfl, rfl⟩⟩

end Sample

end Ns3.Ferry
