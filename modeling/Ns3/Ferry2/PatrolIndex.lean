import Ns3.Ferry.Patrol
import Ns3.Lib.Run

/-!
# The patrol index over whole runs

`ChangePatrolRoute` replaces the route and never touches `m_currentPatrolIndex`.
The movement handler brings the index back into the route it flies, but a
hello can replace that route by a shorter one in between; and the stop just
left is looked up at `(index - 1) % size` in unsigned arithmetic, which at
index 0 is the last stop only for a route whose length divides `2^32`. In runs
whose changes of route avoid both, every use of the route is right.
-/

namespace Ns3.Ferry2

open Ns3.Lib Ns3.Ferry

variable {C D : Type} [DecidableEq C]

/-! ## The predecessor -/

theorem mod_pred_iff {k n : ℕ} (hk : 0 < k) (hn : 0 < n) : (k - 1) % n = n - 1 ↔ n ∣ k := by
  constructor
  · intro h
    have hdiv := Nat.div_add_mod (k - 1) n
    refine ⟨(k - 1) / n + 1, ?_⟩
    rw [Nat.mul_add, mul_one]
    omega
  · rintro ⟨q, rfl⟩
    cases q with
    | zero => omega
    | succ q =>
      have hsplit : n * (q + 1) - 1 = (n - 1) + n * q := by
        rw [Nat.mul_add, mul_one]
        omega
      rw [hsplit, Nat.add_mul_mod_self_left, Nat.mod_eq_of_lt (by omega)]

/-- At index 0 the wrapped subtraction finds the last stop only for the lengths that divide
`2^32`. -/
theorem leftIndex_iff {i : UInt32} {n : ℕ} (hi : i.toNat < n) :
    (i - 1).toNat % n = (i.toNat + (n - 1)) % n ↔ i ≠ 0 ∨ n ∣ 2 ^ 32 := by
  by_cases h0 : i = 0
  · subst h0
    have hpred : ((0 : UInt32) - 1).toNat = 2 ^ 32 - 1 := rfl
    have hn : 0 < n := hi
    rw [hpred, UInt32.toNat_zero, Nat.zero_add, Nat.mod_eq_of_lt (by omega : n - 1 < n),
      mod_pred_iff (by decide) hn]
    simp
  · have hpos : 1 ≤ i.toNat := by
      have : i.toNat ≠ 0 := fun h => h0 (UInt32.toNat_inj.mp h)
      omega
    have hpred : (i - 1).toNat = i.toNat - 1 := UInt32.toNat_sub_of_le _ _ hpos
    have hsum : i.toNat + (n - 1) = (i.toNat - 1) + n := by omega
    rw [hpred, hsum, Nat.add_mod_right]
    simp [h0]

/-! ## Uses of the route -/

/-- The use is in range, and the stop before the current one is its cyclic predecessor. -/
def GoodUse : Use → Prop
  | .current index length => index < length
  | .left index current length => current < length ∧ index = (current + (length - 1)) % length

/-- Between two events: a route in use has the current stop, and without an area the ferry flies
the shelter route. -/
structure OnRoute (u : FerryUser) : Prop where
  index : u.patrolRoute ≠ [] → u.currentPatrolIndex.toNat < u.patrolRoute.length
  shelters : u.changerouteforUAV = false → u.patrolRoute = u.oldPatrolRoute
  nonempty : u.oldPatrolRoute ≠ []

/-! ## What a change of route does -/

section Change

variable {map : RoadMap C D} {exitNodes : StdMap String UInt32} {now : ℕ} {source : ChangeFrom}
  {u u' : FerryUser} {uses : List Use}

/-- The ferry gives up its area, if any, and finds none that a crossing depends on. -/
def Reverts (map : RoadMap C D) (now : ℕ) (u : FerryUser) : Prop :=
  u.keepsArea = false ∧ ∀ area, u.searchTarget (changeTime now) = some area →
    ∀ c, map.coordinate area = some c → map.affectedCrossings c = []

/-- It then looks up the stop just left, unless a hello brought it to find no area at all. -/
def LooksLeft (map : RoadMap C D) (source : ChangeFrom) (now : ℕ) (u : FerryUser) : Prop :=
  Reverts map now u ∧ (source = .timer ∨ u.searchTarget (changeTime now) ≠ none)

/-- The ferry takes an area, round which the map has the given route. -/
def Takes (map : RoadMap C D) (now : ℕ) (u : FerryUser) (route : List String) : Prop :=
  u.keepsArea = false ∧ ∃ area c, u.searchTarget (changeTime now) = some area ∧
    map.coordinate area = some c ∧ map.affectedCrossings c ≠ [] ∧
    map.sortRoute (map.affectedCrossings c).length c (map.affectedCrossings c) = some route

/-- `GetExitInfoforFerry` changes no part of the route. -/
structure SameRoute (u u' : FerryUser) : Prop where
  route : u'.patrolRoute = u.patrolRoute
  old : u'.oldPatrolRoute = u.oldPatrolRoute
  index : u'.currentPatrolIndex = u.currentPatrolIndex
  changed : u'.changerouteforUAV = u.changerouteforUAV

omit [DecidableEq C] in
theorem getExitInfo_sameRoute {id : String}
    (h : u.getExitInfoforFerry exitNodes now id = some u') : SameRoute u u' := by
  simp only [FerryUser.getExitInfoforFerry, Option.bind_eq_bind, Option.bind_eq_some_iff] at h
  obtain ⟨space, -, old, -, h⟩ := h
  split at h <;> cases h <;> exact ⟨rfl, rfl, rfl, rfl⟩

/-- The use of the stop just left, on the shelter route. -/
def leftUse (u : FerryUser) : Use :=
  .left u.revertRoute.leftIndex u.currentPatrolIndex.toNat u.oldPatrolRoute.length

/-- What a change of route does to the route, and the uses it makes of it. -/
inductive RouteChange (map : RoadMap C D) (source : ChangeFrom) (now : ℕ) (u u' : FerryUser) :
    List Use → Prop
  | keep (h : u' = u) : RouteChange map source now u u' []
  | revert (hr : Reverts map now u) (h : SameRoute u.revertRoute u') :
      RouteChange map source now u u' []
  | left (hl : LooksLeft map source now u) (h : SameRoute u.revertRoute u') :
      RouteChange map source now u u' [leftUse u]
  | area {route : List String} (ht : Takes map now u route)
      (h : SameRoute { u with patrolRoute := route, changerouteforUAV := true } u') :
      RouteChange map source now u u' []

omit [DecidableEq C] in
theorem readStopLeft_spec {v : FerryUser} (h : v.readStopLeft exitNodes now = some (u', uses)) :
    SameRoute v u' ∧
      uses = [.left v.leftIndex v.currentPatrolIndex.toNat v.patrolRoute.length] := by
  simp only [FerryUser.readStopLeft, Option.bind_eq_bind, Option.bind_eq_some_iff] at h
  obtain ⟨stop, -, w, hw, hout⟩ := h
  cases hout
  exact ⟨getExitInfo_sameRoute hw, rfl⟩

theorem changePatrolRoute_cases
    (h : u.changePatrolRoute map exitNodes now source = some (u', uses)) :
    RouteChange map source now u u' uses := by
  unfold FerryUser.changePatrolRoute at h
  cases hkeep : u.keepsArea with
  | true =>
    rw [if_pos hkeep] at h
    cases h
    exact .keep rfl
  | false =>
    rw [if_neg (by simp [hkeep])] at h
    cases htarget : u.searchTarget (changeTime now) with
    | none =>
      have hr : Reverts map now u := ⟨hkeep, fun area harea => by simp [htarget] at harea⟩
      rw [htarget] at h
      unfold FerryUser.leaveArea at h
      cases source with
      | timer =>
        obtain ⟨hsame, rfl⟩ := readStopLeft_spec h
        exact .left ⟨hr, .inl rfl⟩ ⟨hsame.route, hsame.old, hsame.index, hsame.changed⟩
      | recv =>
        cases h
        exact .revert hr ⟨rfl, rfl, rfl, rfl⟩
    | some area =>
      simp only [htarget, FerryUser.takeArea, Option.bind_eq_bind, Option.bind_eq_some_iff] at h
      obtain ⟨c, hc, h⟩ := h
      by_cases hnone : map.affectedCrossings c = []
      · rw [if_pos hnone] at h
        have hr : Reverts map now u := by
          refine ⟨hkeep, fun area' harea' c' hc' => ?_⟩
          obtain rfl : area = area' := Option.some.inj (htarget.symm.trans harea')
          obtain rfl : c = c' := Option.some.inj (hc.symm.trans hc')
          exact hnone
        obtain ⟨hsame, rfl⟩ := readStopLeft_spec h
        exact .left ⟨hr, .inr (by simp [htarget])⟩ hsame
      · rw [if_neg hnone] at h
        obtain ⟨route, hroute, hout⟩ := Option.bind_eq_some_iff.mp h
        cases hout
        exact .area ⟨hkeep, area, c, htarget, hc, hnone, hroute⟩ ⟨rfl, rfl, rfl, rfl⟩

/-! ## What one event preserves -/

/-- The subtraction for the stop before the current one does not wrap, or wraps to it. -/
def LeftInRange (u : FerryUser) : Prop :=
  u.currentPatrolIndex ≠ 0 ∨ u.oldPatrolRoute.length ∣ 2 ^ 32

theorem goodUse_left (hindex : u.currentPatrolIndex.toNat < u.oldPatrolRoute.length)
    (hleft : LeftInRange u) : GoodUse (leftUse u) :=
  ⟨hindex, (leftIndex_iff hindex).mpr hleft⟩

/-- The route that a hello brings the ferry to, if any, contains the current index. -/
structure SafeChange (map : RoadMap C D) (now : ℕ) (u : FerryUser) : Prop where
  revert : Reverts map now u → u.currentPatrolIndex.toNat < u.oldPatrolRoute.length
  left : LooksLeft map .recv now u → LeftInRange u
  area : ∀ route, Takes map now u route → route ≠ [] →
    u.currentPatrolIndex.toNat < route.length

/-- A ferry without an area looks up the stop just left only when that works. -/
def SafeMove (map : RoadMap C D) (now : ℕ) (u : FerryUser) : Prop :=
  u.blockednodeidAndTime.size ≠ 0 → u.changerouteforUAV = false →
    LooksLeft map .timer now u → LeftInRange u

theorem OnRoute.sameRoute {v : FerryUser} (h : OnRoute u) (hs : SameRoute u v) : OnRoute v := by
  constructor
  · rw [hs.route, hs.index]
    exact h.index
  · rw [hs.changed, hs.route, hs.old]
    exact h.shelters
  · rw [hs.old]
    exact h.nonempty

theorem onRoute_revert (h : OnRoute u)
    (hindex : u.currentPatrolIndex.toNat < u.oldPatrolRoute.length) : OnRoute u.revertRoute :=
  ⟨fun _ => hindex, fun _ => rfl, h.nonempty⟩

/-- A change of route by a hello. -/
theorem hear_onRoute (hu : OnRoute u) (hsafe : SafeChange map now u)
    (h : u.changePatrolRoute map exitNodes now .recv = some (u', uses)) :
    OnRoute u' ∧ ∀ use ∈ uses, GoodUse use := by
  cases changePatrolRoute_cases h with
  | keep heq => exact ⟨heq ▸ hu, by simp⟩
  | revert hr hs => exact ⟨(onRoute_revert hu (hsafe.revert hr)).sameRoute hs, by simp⟩
  | left hl hs =>
    have hindex := hsafe.revert hl.1
    refine ⟨(onRoute_revert hu hindex).sameRoute hs, ?_⟩
    simpa using goodUse_left hindex (hsafe.left hl)
  | area ht hs =>
    have hnew : OnRoute { u with patrolRoute := _, changerouteforUAV := true } :=
      ⟨hsafe.area _ ht, fun hfalse => absurd hfalse (by simp), hu.nonempty⟩
    exact ⟨hnew.sameRoute hs, by simp⟩

/-- The movement handler up to the advance of the index: it may leave the ferry on any route. -/
structure Arrived (u : FerryUser) : Prop where
  shelters : u.changerouteforUAV = false → u.patrolRoute = u.oldPatrolRoute
  nonempty : u.oldPatrolRoute ≠ []

theorem OnRoute.arrived (h : OnRoute u) : Arrived u := ⟨h.shelters, h.nonempty⟩

theorem arrive_onRoute {junk : String} (hu : OnRoute u) (hroute : u.patrolRoute ≠ [])
    (hsafe : SafeMove map now u) (h : u.arrive map exitNodes now junk = some (u', uses)) :
    Arrived u' ∧ ∀ use ∈ uses, GoodUse use := by
  unfold FerryUser.arrive at h
  by_cases hblocked : u.blockednodeidAndTime.size ≠ 0
  · rw [if_pos hblocked] at h
    by_cases hflag : u.changerouteforUAV = false
    · rw [if_pos hflag] at h
      have hindex : u.currentPatrolIndex.toNat < u.oldPatrolRoute.length := by
        rw [← hu.shelters hflag]
        exact hu.index hroute
      cases changePatrolRoute_cases h with
      | keep heq => exact ⟨heq ▸ hu.arrived, by simp⟩
      | revert hr hs => exact ⟨((onRoute_revert hu hindex).sameRoute hs).arrived, by simp⟩
      | left hl hs =>
        refine ⟨((onRoute_revert hu hindex).sameRoute hs).arrived, ?_⟩
        simpa using goodUse_left hindex (hsafe hblocked hflag hl)
      | area ht hs =>
        refine ⟨⟨fun hfalse => ?_, ?_⟩, by simp⟩
        · rw [hs.changed] at hfalse
          cases hfalse
        · rw [hs.old]
          exact hu.nonempty
    · rw [if_neg hflag] at h
      cases h
      exact ⟨hu.arrived, by simp⟩
  · rw [if_neg hblocked, Option.map_eq_some_iff] at h
    obtain ⟨v, hv, hout⟩ := h
    cases hout
    exact ⟨(hu.sameRoute (getExitInfo_sameRoute hv)).arrived, by simp⟩

theorem advance_index (hroute : u.patrolRoute ≠ []) :
    u.advance.currentPatrolIndex.toNat < u.advance.patrolRoute.length := by
  have hpos : 0 < u.patrolRoute.length := List.length_pos_iff.mpr hroute
  have hlt := Nat.mod_lt (u.currentPatrolIndex + 1).toNat hpos
  have hle := Nat.mod_le (u.currentPatrolIndex + 1).toNat u.patrolRoute.length
  have hword := (u.currentPatrolIndex + 1).toNat_lt
  show (UInt32.ofNat _).toNat < u.patrolRoute.length
  rw [UInt32.toNat_ofNat_of_lt' (lt_of_le_of_lt hle hword)]
  exact hlt

/-- A movement step. -/
theorem move_onRoute {junk : String} (hu : OnRoute u) (hsafe : SafeMove map now u)
    (h : u.handleFerryNodeMovement map exitNodes now junk = some (u', uses)) :
    OnRoute u' ∧ ∀ use ∈ uses, GoodUse use := by
  unfold FerryUser.handleFerryNodeMovement at h
  by_cases hroute : u.patrolRoute = []
  · rw [if_pos hroute] at h
    cases h
    exact ⟨hu, by simp⟩
  · rw [if_neg hroute, Option.bind_eq_bind, Option.bind_eq_some_iff] at h
    obtain ⟨⟨v, vuses⟩, hv, h⟩ := h
    obtain ⟨harrived, hgood⟩ := arrive_onRoute hu hroute hsafe hv
    have hcurrent : GoodUse u.useCurrent := hu.index hroute
    dsimp only at h
    by_cases hempty : v.patrolRoute = []
    · rw [if_pos hempty] at h
      cases h
      refine ⟨⟨fun hne => absurd hempty hne, harrived.shelters, harrived.nonempty⟩, ?_⟩
      simpa using ⟨hcurrent, hgood⟩
    · rw [if_neg hempty, Option.bind_eq_bind, Option.bind_eq_some_iff] at h
      obtain ⟨c, -, hout⟩ := h
      cases hout
      have hnext := advance_index hempty
      refine ⟨⟨fun _ => hnext, harrived.shelters, harrived.nonempty⟩, ?_⟩
      intro use huse
      simp only [List.cons_append, List.mem_cons, List.mem_append, List.not_mem_nil,
        or_false] at huse
      rcases huse with rfl | huse | rfl
      · exact hcurrent
      · exact hgood use huse
      · exact hnext

end Change

/-! ## Runs -/

/-- A ferry, and the uses it has made of its route so far. -/
structure PatrolState where
  user : FerryUser
  uses : List Use

inductive PatrolEvent
  | move (now : ℕ)
  | hear (now : ℕ)
  | other

/-- The shelters' capacities (`exitNodes`) change as users arrive. -/
inductive PatrolStep (map : RoadMap C D) : PatrolState → PatrolEvent → PatrolState → Prop
  | move {s : PatrolState} {now : ℕ} {exitNodes : StdMap String UInt32} {junk : String}
      {u' : FerryUser} {uses : List Use}
      (h : s.user.handleFerryNodeMovement map exitNodes now junk = some (u', uses)) :
      PatrolStep map s (.move now) ⟨u', s.uses ++ uses⟩
  | hear {s : PatrolState} {now : ℕ} {exitNodes : StdMap String UInt32} {u' : FerryUser}
      {uses : List Use}
      (h : s.user.changePatrolRoute map exitNodes now .recv = some (u', uses)) :
      PatrolStep map s (.hear now) ⟨u', s.uses ++ uses⟩
  /-- Whatever else the handlers store: crossings, shelters, patrol tables. -/
  | other {s : PatrolState} {u' : FerryUser} (h : SameRoute s.user u') :
      PatrolStep map s .other ⟨u', s.uses⟩

/-- The driver gives a ferry the shelter route, twice, and a start on it. -/
structure PatrolInit (s : PatrolState) : Prop where
  nonempty : s.user.patrolRoute ≠ []
  old : s.user.oldPatrolRoute = s.user.patrolRoute
  index : s.user.currentPatrolIndex.toNat < s.user.patrolRoute.length
  changed : s.user.changerouteforUAV = false
  blocked : s.user.blockednodeidAndTime = .empty
  uses : s.uses = []

def ferryPatrol (map : RoadMap C D) : System PatrolState PatrolEvent where
  init := PatrolInit
  step := PatrolStep map

/-- The events that neither leave the ferry past the end of its route nor look up a wrong stop. -/
def Safe (map : RoadMap C D) (s : PatrolState) : PatrolEvent → Prop
  | .move now => SafeMove map now s.user
  | .hear now => SafeChange map now s.user
  | .other => True

/-- **The patrol index.** In runs of safe events, the index is below the length of any route in
use, and every use of the route was in range and found the stop it stands for. -/
theorem patrolIndex_run {map : RoadMap C D} {s : PatrolState}
    (h : ((ferryPatrol map).restrict (Safe map)).Reachable s) :
    (s.user.patrolRoute ≠ [] → s.user.currentPatrolIndex.toNat < s.user.patrolRoute.length) ∧
    ∀ use ∈ s.uses, GoodUse use := by
  have hinv : OnRoute s.user ∧ ∀ use ∈ s.uses, GoodUse use := by
    refine h.invariant (P := fun s => OnRoute s.user ∧ ∀ use ∈ s.uses, GoodUse use)
      (fun t h₀ => ?_) fun t e t' ht hstep => ?_
    · have h₀ : PatrolInit t := h₀
      refine ⟨⟨fun _ => h₀.index, fun _ => h₀.old.symm, ?_⟩, by simp [h₀.uses]⟩
      rw [h₀.old]
      exact h₀.nonempty
    · obtain ⟨hsafe, hstep⟩ := hstep
      obtain ⟨hroute, hgood⟩ := ht
      have happend {uses : List Use} (huses : ∀ use ∈ uses, GoodUse use) :
          ∀ use ∈ t.uses ++ uses, GoodUse use := by
        intro use huse
        rcases List.mem_append.mp huse with huse | huse
        · exact hgood use huse
        · exact huses use huse
      cases hstep with
      | move h =>
        obtain ⟨hroute', huses⟩ := move_onRoute hroute hsafe h
        exact ⟨hroute', happend huses⟩
      | hear h =>
        obtain ⟨hroute', huses⟩ := hear_onRoute hroute hsafe h
        exact ⟨hroute', happend huses⟩
      | other hs => exact ⟨hroute.sameRoute hs, hgood⟩
  exact ⟨hinv.1.index, hinv.2⟩

/-! ## A route of three stops and one of one -/

section Sample

/-- Crossing 9 depends on crossing 7, and nothing else does. -/
def sampleMap : RoadMap ℕ ℕ where
  waynodes := [⟨"node/9", true, [7]⟩]
  coordinate id := some (if id = "node/7" then 7 else 0)
  calculateDistance _ _ := 1
  far := 100
  closer a b := decide (a < b)

def sampleShelters : StdMap String UInt32 :=
  .ofList [("node/1", 10), ("node/2", 10), ("node/3", 10)]

/-- A ferry at the second of three shelters. -/
def sampleUser : FerryUser where
  blockednodeidAndTime := .empty
  aoiExitinfo := .ofList [("node/1", (10, 0)), ("node/2", (10, 0)), ("node/3", (10, 0))]
  increaseRate := .empty
  changerouteforUAV := false
  patrolRoute := ["node/1", "node/2", "node/3"]
  oldPatrolRoute := ["node/1", "node/2", "node/3"]
  currentPatrolIndex := 1
  myPatrolEreaAndStartTime := ("", 0)
  otherUAVPatrolEreaAndId := .empty
  patrolEreaidAndTime := .empty

theorem sampleUser_init : PatrolInit ⟨sampleUser, []⟩ :=
  ⟨by decide, rfl, by decide, rfl, rfl, rfl⟩

def sampleMoved : FerryUser := { sampleUser with currentPatrolIndex := 2 }

theorem sample_move : PatrolStep sampleMap ⟨sampleUser, []⟩ (.move 0)
    ⟨sampleMoved, [.current 1 3, .current 2 3]⟩ := by
  have h : sampleUser.handleFerryNodeMovement sampleMap sampleShelters 0 "" =
    some (sampleMoved, [.current 1 3, .current 2 3]) := rfl
  exact .move h

theorem patrolIndex_run_sample :
    (sampleMoved.patrolRoute ≠ [] →
      sampleMoved.currentPatrolIndex.toNat < sampleMoved.patrolRoute.length) ∧
    ∀ use ∈ [Use.current 1 3, Use.current 2 3], GoodUse use := by
  have hsafe : Safe sampleMap ⟨sampleUser, []⟩ (.move 0) := fun h => absurd rfl h
  have hreach : ((ferryPatrol sampleMap).restrict (Safe sampleMap)).Reachable
      ⟨sampleMoved, [.current 1 3, .current 2 3]⟩ :=
    ⟨_, _, sampleUser_init, .snoc (.nil _) ⟨hsafe, sample_move⟩⟩
  exact patrolIndex_run hreach

def sampleTold : FerryUser :=
  { sampleMoved with blockednodeidAndTime := .ofList [("node/7", ⟨0⟩)] }

def sampleDiverted : FerryUser :=
  { sampleTold with
    patrolRoute := ["node/9"]
    changerouteforUAV := true
    myPatrolEreaAndStartTime := ("node/7", changeTime 0) }

/-- The third shelter is next when a hello sends the ferry round a single crossing: the next
movement reads past the end of the route. -/
theorem patrol_index_past_end : ∃ s, (ferryPatrol sampleMap).Reachable s ∧
    ∃ use ∈ s.uses, ¬ GoodUse use := by
  have hother : PatrolStep sampleMap ⟨sampleMoved, [.current 1 3, .current 2 3]⟩ .other
      ⟨sampleTold, [.current 1 3, .current 2 3]⟩ := .other ⟨rfl, rfl, rfl, rfl⟩
  have hhear : PatrolStep sampleMap ⟨sampleTold, [.current 1 3, .current 2 3]⟩ (.hear 0)
      ⟨sampleDiverted, [.current 1 3, .current 2 3]⟩ := by
    have h : sampleTold.changePatrolRoute sampleMap sampleShelters 0 .recv =
      some (sampleDiverted, []) := rfl
    exact .hear h
  have hmove : PatrolStep sampleMap ⟨sampleDiverted, [.current 1 3, .current 2 3]⟩ (.move 0)
      ⟨{ sampleDiverted with currentPatrolIndex := 0 },
        [.current 1 3, .current 2 3, .current 2 1, .current 0 1]⟩ := by
    have h : sampleDiverted.handleFerryNodeMovement sampleMap sampleShelters 0 "" =
      some ({ sampleDiverted with currentPatrolIndex := 0 },
        [.current 2 1, .current 0 1]) := rfl
    exact .move h
  exact ⟨_, ⟨_, _, sampleUser_init,
    .snoc (.snoc (.snoc (.snoc (.nil _) sample_move) hother) hhear) hmove⟩,
    .current 2 1, by decide, fun h => absurd h (by decide : ¬ 2 < 1)⟩

end Sample

end Ns3.Ferry2
