import Ns3.Ferry2.ActiveUsers

/-!
# The capacity of shelters

What a shelter has left, plus the users who completed their evacuation there,
is what it had at the start. Two steps break this. A user whose route is used
up at a full shelter and whose search for another one gives up completes there
all the same, and the capacity wraps (`Stranded`). A user who enters a shelter
that it has struck off its list completes twice, because the exception comes
after the decrement (`StruckOff`).
-/

namespace Ns3.Ferry2

open Ns3.Lib World

/-! ## The books of a shelter -/

namespace Building

/-- How many users completed their evacuation at a shelter. -/
def evacuees (b : Building) (s : String) : ℕ :=
  ((b.completeTime.filter fun line => line.2 = s).map Prod.fst).dedup.length

/-- The users of the log. -/
def logged (b : Building) : List UInt32 := b.completeTime.map Prod.fst

/-- Every shelter has left what it had at the start, less the users who completed there. -/
def Balanced (b : Building) : Prop :=
  ∀ s, (b.exitNodes.find s).map (fun left => left.toNat + b.evacuees s) =
    (b.firstExitInfo.find s).map UInt32.toNat

variable {b b' : Building}

theorem length_dedup_concat {α : Type} [DecidableEq α] {l : List α} {a : α} (h : a ∉ l) :
    (l ++ [a]).dedup.length = l.dedup.length + 1 := by
  rw [← List.card_toFinset, ← List.card_toFinset, List.toFinset_append]
  rw [Finset.card_union_of_disjoint (by simpa using h)]
  rfl

/-- A user who was not in the log before is one more evacuee of its shelter. -/
theorem evacuees_complete {userId : UInt32} {id : String} {space : UInt32} (s : String)
    (hnew : userId ∉ b.logged) :
    (b.complete userId id space).evacuees s = b.evacuees s + if s = id then 1 else 0 := by
  have hlog : (b.complete userId id space).completeTime = b.completeTime ++ [(userId, id)] := rfl
  unfold evacuees
  rw [hlog, List.filter_append, List.map_append]
  by_cases he : s = id
  · have hnot : userId ∉ (b.completeTime.filter fun line => line.2 = s).map Prod.fst := by
      intro hin
      obtain ⟨line, hline, rfl⟩ := List.mem_map.mp hin
      exact hnew (List.mem_map_of_mem (List.mem_of_mem_filter hline))
    subst he
    simpa using length_dedup_concat hnot
  · simp [he, Ne.symm he]

theorem logged_complete (userId : UInt32) (id : String) (space : UInt32) :
    (b.complete userId id space).logged = b.logged ++ [userId] := List.map_append

/-- A completion at a shelter with room keeps the books. -/
theorem Balanced.complete {userId : UInt32} {id : String} {space : UInt32} (h : b.Balanced)
    (hspace : b.exitNodes.find id = some space) (hfree : space ≠ 0) (hnew : userId ∉ b.logged) :
    (b.complete userId id space).Balanced := by
  intro s
  have hexits : (b.complete userId id space).exitNodes = b.exitNodes.assign id (space - 1) := rfl
  have hfirst : (b.complete userId id space).firstExitInfo = b.firstExitInfo := rfl
  rw [hexits, hfirst, StdMap.find_assign, evacuees_complete s hnew, ← h s]
  split_ifs with he
  · have hpos : 0 < space.toNat := by
      rw [Nat.pos_iff_ne_zero]
      exact fun hzero => hfree (UInt32.toNat_inj.mp hzero)
    have hless : (space - 1).toNat = space.toNat - 1 :=
      UInt32.toNat_sub_of_le _ _ (UInt32.le_iff_toNat_le.mpr hpos)
    rw [he, hspace]
    simp only [Option.map_some, Option.some.injEq]
    omega
  · rw [Nat.add_zero]

/-- The same books. -/
structure SameBooks (b b' : Building) : Prop where
  exitNodes : b'.exitNodes = b.exitNodes
  firstExitInfo : b'.firstExitInfo = b.firstExitInfo
  completeTime : b'.completeTime = b.completeTime

theorem SameBooks.balanced (h : SameBooks b b') (hb : b.Balanced) : b'.Balanced := by
  intro s
  rw [h.exitNodes, h.firstExitInfo, ← hb s]
  unfold evacuees
  rw [h.completeTime]

theorem SameBooks.logged (h : SameBooks b b') : b'.logged = b.logged := by
  unfold Building.logged
  rw [h.completeTime]

theorem sameBooks_retarget {old new : String} (h : b.retarget old new = some b') :
    SameBooks b b' := by
  unfold Building.retarget at h
  split_ifs at h
  · cases h
    exact ⟨rfl, rfl, rfl⟩
  · simp only [Option.bind_eq_bind, Option.bind_eq_some_iff] at h
    obtain ⟨oldNum, -, newNum, -, hout⟩ := h
    cases hout
    exact ⟨rfl, rfl, rfl⟩

end Building

/-! ## The steps that break them -/

variable {C : Type} [LinearOrder C]

/-- The user enters a shelter with room on its way. -/
def Enters (b : Building) (n : MyUser C) (id : String) : Prop :=
  b.exitNodes.find id ≠ some 0 ∧ b.exitNodes.find id ≠ none ∧ n.user.shortest ≠ []

/-- It enters one that is not on its own list. -/
def StruckOff (b : Building) (n : MyUser C) (id : String) : Prop :=
  Enters b n id ∧ nodeIDstoi id ≠ none ∧ nodeIDstoi id ≠ some 0 ∧
    (nodeIDstoi id).bind n.user.exitnodeinfolist.find = none

instance (b : Building) (n : MyUser C) (id : String) : Decidable (Enters b n id) :=
  inferInstanceAs (Decidable (_ ∧ _))

instance (b : Building) (n : MyUser C) (id : String) : Decidable (StruckOff b n id) :=
  inferInstanceAs (Decidable (_ ∧ _))

theorem struckOff_mk {b : Building} {n : MyUser C} {id : String} {key space : UInt32}
    (hroute : n.route.shortest ≠ []) (hkey : nodeIDstoi id = some key) (hzero : key ≠ 0)
    (hunknown : n.user.exitnodeinfolist.find key = none)
    (hspace : b.exitNodes.find id = some space) (hfree : space ≠ 0) : StruckOff b n id := by
  refine ⟨⟨?_, ?_, hroute⟩, ?_, ?_, ?_⟩
  · simpa [hspace] using hfree
  · simp [hspace]
  · simp [hkey]
  · simpa [hkey] using hzero
  · simpa [hkey] using hunknown

variable [Zero C]

/-- Where a movement event finds a user: awake, at a node with an id. -/
def found (cfg : UserConfig) (m : RoadMap C) (now : ℕ) (n : MyUser C) :
    Option (MyUser C × WayNode C × String) := do
  let n ← beginMovement cfg m now n
  let front ← n.user.currentway.nodes.head?
  let id ← m.getIDfromCoordinate front.coordinate
  return (n, front, id)

/-- The route is used up at a full shelter, and the search for another one gives up. -/
def Stranded (m : RoadMap C) (b : Building) (n : MyUser C) (front : WayNode C) (id : String) :
    Prop :=
  b.exitNodes.find id = some 0 ∧ n.user.shortest = [] ∧ front.isCrossing = true ∧
    givesUp m (noteFull id n) front.coordinate = true

instance (m : RoadMap C) (b : Building) (n : MyUser C) (front : WayNode C) (id : String) :
    Decidable (Stranded m b n front id) := inferInstanceAs (Decidable (_ ∧ _))

/-- A step that breaks no books. -/
def Clear (cfg : UserConfig) (w : World C) : Event C → Prop
  | .move u now _ => ∀ start ∈ found cfg w.map now (w.nUser u),
      ¬ Stranded w.map w.building start.1 start.2.1 start.2.2 ∧
        ¬ StruckOff w.building start.1 start.2.2
  | .addUsers _ | .checkMovingUserNum _ | .hear _ _ | .block _ _ => True

instance (cfg : UserConfig) : DecidableRel (Clear (C := C) cfg)
  | w, .move u now _ => inferInstanceAs (Decidable (∀ start ∈ found cfg w.map now (w.nUser u), _))
  | _, .addUsers _ | _, .checkMovingUserNum _ | _, .hear _ _ | _, .block _ _ =>
    inferInstanceAs (Decidable True)

theorem Begun.found {cfg : UserConfig} {m : RoadMap C} {now : ℕ} {n n₁ : MyUser C}
    {front : WayNode C} {id : String} (h : Begun cfg m now n n₁ front id) :
    found cfg m now n = some (n₁, front, id) := by
  have hfront : n₁.route.currentway.head? = some front := by
    rw [h.route]
    exact h.hfront
  have hfront : n₁.user.currentway.nodes.head? = some front := hfront
  simp [Ferry2.found, h.begun, hfront, h.hid]

/-! ## What a clear movement event does to the books -/

/-- A user goes on, or enters a shelter with room. -/
inductive Settles (b : Building) (n : MyUser C) : Building → MyUser C → Prop
  | goesOn {b' : Building} {n' : MyUser C} (hbooks : b.SameBooks b') (hend : AtEnd n'.route) :
      Settles b n b' n'
  | completes {b₁ : Building} {n' : MyUser C} {id : String} {space : UInt32}
      (hbooks : b.SameBooks b₁) (hspace : b₁.exitNodes.find id = some space) (hfree : space ≠ 0)
      (hledger : n'.ledger = (n.ledger.aimed n'.ledger).finish) :
      Settles b n (b₁.complete n.ledger.userId id space) n'

variable {m : RoadMap C} {b b' : Building} {n n' : MyUser C} {front : WayNode C} {id : String}

theorem Sought.sameBooks (h : Sought m b n front b' n') : b.SameBooks b' := by
  cases h with
  | idle => exact ⟨rfl, rfl, rfl⟩
  | searched _ _ h =>
    cases h with
    | gaveUp => exact ⟨rfl, rfl, rfl⟩
    | found _ _ hretarget => exact Building.sameBooks_retarget hretarget

/-- A search that is over with the route used up was made at the crossing the user stands at, and
that is not a full shelter. -/
theorem Sought.arrived {pos : C} (h : Sought m b (noted b id n) front b' n')
    (hclear : ¬ Stranded m b n front id) (hfront : n.route.currentway.head? = some front)
    (hid : m.getIDfromCoordinate front.coordinate = some id) (hend : AtEnd n.route)
    (hnil : n'.route.shortest = []) (hdue : n'.isDijkstra = false)
    (hpos : n'.route.passednode.getLast? = some pos) :
    pos = front.coordinate ∧ b.exitNodes.find id ≠ some 0 := by
  have hroute : (noted b id n).route = n.route := route_eq_of_trip (trip_noted id)
  -- a route that was used up before ends here
  have hhere (hnil : n.route.shortest = []) (hpos : n.route.passednode.getLast? = some pos) :
      pos = front.coordinate := by
    rcases hend hnil with hpassed | ⟨front', hfront', -, hlast⟩
    · rw [hpassed] at hpos
      cases hpos
    · rw [hfront] at hfront'
      cases hfront'
      rw [hlast] at hpos
      exact (Option.some.inj hpos).symm
  cases h with
  | idle =>
    rw [hroute] at hnil hpos
    refine ⟨hhere hnil hpos, fun hfull => ?_⟩
    rw [(noted_of_full hfull).1] at hdue
    cases hdue
  | @searched b₁ n₁ hcross _ hsearched =>
    have hnil : n₁.route.shortest = [] := hnil
    have hpos : n₁.route.passednode.getLast? = some pos := hpos
    cases hsearched with
    | gaveUp hup =>
      rw [hroute] at hnil hpos
      refine ⟨hhere hnil hpos, fun hfull => hclear ⟨hfull, hnil, hcross, ?_⟩⟩
      unfold noted at hup
      rwa [if_pos hfull] at hup
    | found _ _ _ _ hlast hfull =>
      rw [hlast hcross hnil] at hpos
      refine ⟨(Option.some.inj hpos).symm, fun hzero => ?_⟩
      exact hfull id hid (noted_of_full hzero).2 hnil

/-- A user that walks on and has nothing left of its route is on its way to a crossing, and has
passed none. -/
theorem Sought.onTheWay (h : Sought m b n front b' n')
    (hfront : n.route.currentway.head? = some front) (hend : AtEnd n.route)
    (hnil : n'.route.shortest = []) (hdue : n'.isDijkstra = true) : n'.route.passednode = [] := by
  cases h with
  | idle hidle =>
    rcases hend hnil with hpassed | ⟨front', hfront', hcross, -⟩
    · exact hpassed
    · rw [hfront] at hfront'
      cases hfront'
      exact absurd ⟨hdue, hcross⟩ hidle
  | searched => cases hdue

theorem Finished.settles {b₁ : Building} {n₁ : MyUser C}
    (hsought : Sought m b (noted b id n) front b₁ n₁) (h : Finished m b₁ n₁ b' n')
    (hclear : ¬ Stranded m b n front id) (hfront : n.route.currentway.head? = some front)
    (hid : m.getIDfromCoordinate front.coordinate = some id) (hend : AtEnd n.route)
    (hmove : n.ledger.isMove = true) : Settles b n b' n' := by
  have htrip : (noted b id n).trip = n.trip := trip_noted id
  have hledger : n₁.ledger = n.ledger.aimed n₁.ledger := by
    rw [← ledger_eq_of_trip htrip]
    exact hsought.ledger
  cases h with
  | walks _ hon _ hnext =>
    refine .goesOn hsought.sameBooks (hnext fun hnil => ?_)
    refine hsought.onTheWay ?_ ?_ hnil (hon hnil)
    · rw [route_eq_of_trip htrip]
      exact hfront
    · rw [route_eq_of_trip htrip]
      exact hend
  | ends hstop hpos hid' hends =>
    have hmove₁ : n₁.ledger.isMove = true := by
      rw [hledger]
      exact hmove
    obtain ⟨hnil, hdue⟩ := hstop.resolve_left (by simp [hmove₁])
    obtain ⟨rfl, hroom⟩ := hsought.arrived hclear hfront hid hend hnil hdue hpos
    rw [hid] at hid'
    cases hid'
    have huser : n₁.ledger.userId = n.ledger.userId := by
      rw [hledger]
      rfl
    obtain ⟨hspace, hledger', -⟩ := hends
    rw [huser]
    refine .completes hsought.sameBooks hspace ?_ ?_
    · rintro rfl
      rw [hsought.sameBooks.exitNodes] at hspace
      exact hroom hspace
    · rw [hledger', hledger]
      rfl

theorem Moved.settles (h : Moved m b n front id b' n') (hstranded : ¬ Stranded m b n front id)
    (hstruck : ¬ StruckOff b n id) (hfront : n.route.currentway.head? = some front)
    (hid : m.getIDfromCoordinate front.coordinate = some id) (hend : AtEnd n.route)
    (hmove : n.ledger.isMove = true) : Settles b n b' n' := by
  cases h with
  | passes _ hsought hfinished =>
    exact hfinished.settles hsought hstranded hfront hid hend hmove
  | enters hfree _ hends =>
    obtain ⟨hspace, hledger, -⟩ := hends
    refine .completes ⟨rfl, rfl, rfl⟩ hspace ?_ ?_
    · rintro rfl
      exact hfree hspace
    · rw [hledger]
      rfl
  | again hroute hkey hzero hunknown hspace hfree =>
    exact absurd (struckOff_mk hroute hkey hzero hunknown hspace hfree) hstruck

/-! ## Runs -/

namespace World

variable {cfg : UserConfig} {w w' : World C}

structure Accounted (w : World C) : Prop where
  balanced : w.building.Balanced
  /-- The users of the log are done. -/
  logged : ∀ id ∈ w.building.logged, ∃ u < w.size, id = UInt32.ofNat u ∧ w.Done u
  atEnd : ∀ u < w.size, (w.nUser u).ledger.isMove = true → AtEnd (w.nUser u).route

theorem Started.accounted (h : w.Started) : w.Accounted where
  balanced s := by
    have hfirst : w.building.firstExitInfo = w.building.exitNodes := h.firstExitInfo
    have hnobody : w.building.evacuees s = 0 := by
      unfold Building.evacuees
      rw [h.completeTime]
      rfl
    rw [hfirst]
    simp [hnobody]
  logged id hid := by
    unfold Building.logged at hid
    rw [h.completeTime] at hid
    cases hid
  atEnd u hu _ _ := .inl (h.fresh u hu).passednode

/-- A user that moves is not in the log. -/
theorem Accounted.not_logged (h : w.Accounted) (hkept : w.Enrolled) {u : ℕ} (hu : u < w.size)
    (htimer : (w.nUser u).ledger.humTimer = true) : UInt32.ofNat u ∉ w.building.logged := by
  intro hin
  obtain ⟨v, hv, he, hdone⟩ := h.logged _ hin
  have hsize : w.size < UInt32.size := hkept.kept.bound
  obtain rfl := ofNat_inj (hu.trans hsize) (hv.trans hsize) he
  rw [hdone.2] at htimer
  cases htimer

/-- One user changes, and nobody else completes. -/
theorem Accounted.setUser (h : w.Accounted) {u : ℕ} {b : Building} {n : MyUser C}
    (hleaves : Leaves (UInt32.ofNat u) w.building.roll b.roll) (hbalanced : b.Balanced)
    (hlogged : ∀ id ∈ b.logged, id ∈ w.building.logged ∨ id = UInt32.ofNat u ∧ u < w.size ∧
      w.building.roll.Activated u ∧ n.ledger.humTimer = false)
    (htimer : (w.nUser u).ledger.humTimer = false → n.ledger.humTimer = false)
    (hend : n.ledger.isMove = true → AtEnd n.route) : (w.setUser b u n).Accounted where
  balanced := hbalanced
  logged id hid := by
    have hdone {v : ℕ} {n' : MyUser C} (hactive : w.building.roll.Activated v)
        (hn : (w.setUser b u n).nUser v = n') (hstop : n'.ledger.humTimer = false) :
        (w.setUser b u n).Done v := by
      refine ⟨(hleaves.activated v).mpr hactive, ?_⟩
      rw [hn]
      exact hstop
    rw [size_setUser hleaves.users.1 hleaves.users.2]
    rcases hlogged id hid with hid | ⟨rfl, hu, hactive, hstop⟩
    · obtain ⟨v, hv, rfl, hactive, hstop⟩ := h.logged id hid
      refine ⟨v, hv, rfl, ?_⟩
      by_cases he : v = u
      · subst he
        exact hdone hactive (Function.update_self ..) (htimer hstop)
      · exact hdone hactive (Function.update_of_ne he ..) hstop
    · exact ⟨u, hu, rfl, hdone hactive (Function.update_self ..) hstop⟩
  atEnd := forall_setUser (Q := fun _ n => n.ledger.isMove = true → AtEnd n.route)
    hleaves.users.1 hleaves.users.2 h.atEnd hend

theorem Accounted.activate (h : w.Accounted) (hkept : w.Enrolled)
    (hnext : w.building.nextAddUserIndex < w.building.addUsersNum) :
    (w.activate (w.building.numUsers + w.building.nextAddUserIndex)).Accounted := by
  obtain ⟨hindex, hactivated⟩ := hkept.nextIndex hnext
  refine ⟨h.balanced, fun id hid => ?_, fun v hv hmove => ?_⟩
  · obtain ⟨v, hv, he, hdone⟩ := h.logged id hid
    refine ⟨v, hv, he, (hactivated v).mpr hdone.1.le, ?_⟩
    have hne : v ≠ w.building.roll.activatedNum := Nat.ne_of_lt hdone.1
    rw [ledger_activate, hindex, if_neg hne]
    exact hdone.2
  · rw [route_activate]
    refine h.atEnd v hv ?_
    rw [ledger_activate] at hmove
    split_ifs at hmove <;> exact hmove

theorem Accounted.step {e : Event C} (h : w.Accounted) (hj : w.Journeys) (hclear : Clear cfg w e)
    (hstep : w.step cfg e = some w') : w'.Accounted := by
  cases e with
  | addUsers now =>
    cases hstep
    refine (activateReservedAddUsers_induction (P := fun w => w.Enrolled ∧ w.Accounted) now
      ⟨hj.enrolled, h⟩ fun w hw hnext => ?_).2
    exact ⟨hw.1.activate hnext, hw.2.activate hw.1 hnext⟩
  | move u now speed =>
    obtain ⟨hu, htimer, b, n, hmove, rfl⟩ := step_move hstep
    obtain ⟨n₁, front, id, hbegun, hmoved⟩ := handleUserMovement_spec hmove
    obtain ⟨hstranded, hstruck⟩ := hclear _ hbegun.found
    have htravels := hj.travels hu htimer
    have hid : n₁.ledger.userId = UInt32.ofNat u := by
      rw [hbegun.ledger]
      exact hj.enrolled.ids u hu
    have hmove₁ : n₁.ledger.isMove = true := by
      rw [hbegun.ledger]
      exact htravels.1
    have hsettles : Settles w.building n₁ b n := by
      refine hmoved.settles hstranded hstruck ?_ hbegun.hid ?_ hmove₁
      · rw [hbegun.route]
        exact hbegun.hfront
      · rw [hbegun.route]
        exact h.atEnd u hu htravels.1
    have hleaves := hmoved.leaves
    rw [hid] at hleaves
    have hrunning : (w.nUser u).ledger.humTimer = false → n.ledger.humTimer = false := by
      rw [htimer]
      intro hfalse
      cases hfalse
    cases hsettles with
    | goesOn hbooks hend =>
      refine h.setUser hleaves (hbooks.balanced h.balanced) (fun id hid => ?_) hrunning
        fun _ => hend
      rw [hbooks.logged] at hid
      exact .inl hid
    | completes hbooks hspace hfree hledger =>
      have hnew := h.not_logged hj.enrolled hu htimer
      rw [hid] at hleaves ⊢
      refine h.setUser hleaves ?_ (fun id hid => ?_) hrunning fun hmove => ?_
      · refine (hbooks.balanced h.balanced).complete hspace hfree ?_
        rwa [hbooks.logged]
      · rw [Building.logged_complete, hbooks.logged] at hid
        refine (List.mem_append.mp hid).imp_right fun hid => ⟨List.mem_singleton.mp hid, hu, ?_⟩
        refine ⟨hj.enrolled.pending u hu htimer, ?_⟩
        rw [hledger, hbegun.ledger]
        rfl
      · rw [hledger] at hmove
        cases hmove
  | checkMovingUserNum u =>
    obtain ⟨hu, -, b, n, hchecked, rfl⟩ := step_checkMovingUserNum hstep
    have hend := h.atEnd u hu
    cases hchecked <;>
      exact h.setUser (.stays _) h.balanced (fun _ => .inl) id hend
  | hear u news =>
    obtain ⟨hu, rfl⟩ := step_hear hstep
    exact h.setUser (.stays _) h.balanced (fun _ => .inl) id (h.atEnd u hu)
  | block pos flag =>
    cases hstep
    exact ⟨h.balanced, h.logged, h.atEnd⟩

end World

/-- As long as no user is stranded at a full shelter and none enters a shelter that it has struck
off its list, every shelter has left what it had at the start, less the users who completed there. -/
theorem exitNodes_balanced {cfg : UserConfig} {w : World C}
    (h : ((evacuation cfg).restrict (Clear cfg)).Reachable w) : w.building.Balanced := by
  have hboth : w.Journeys ∧ w.Accounted := by
    refine h.invariant (P := fun w => w.Journeys ∧ w.Accounted)
      (fun w (hw : w.Started) => ⟨hw.journeys, hw.accounted⟩) fun w e w' hw hstep => ?_
    exact ⟨hw.1.step hstep.2, hw.2.step hw.1 hstep.1 hstep.2⟩
  exact hboth.2.balanced

/-- The first of two users takes the only place at the shelter, the second one is on its way. -/
theorem exitNodes_balanced_sample : ∃ w : World ℕ, ((evacuation sampleSettings).restrict
    (Clear sampleSettings)).Reachable w ∧
      (w.building.exitNodes.find (nodeID 2), w.building.completeTime) =
        (some 0, [(0, nodeID 2)]) ∧ w.building.Balanced := by
  have hrun : (System.exec (World.step sampleSettings) (Clear sampleSettings) sampleEvacuation
      [.move 0 1000000000 1, .move 1 1000000000 1, .move 0 11000000000 1]).map
      (fun w => (w.building.exitNodes.find (nodeID 2), w.building.completeTime)) =
        some (some 0, [(0, nodeID 2)]) := by decide +kernel
  obtain ⟨w, hw, hview⟩ := sampleEvacuation_reachable hrun
  exact ⟨w, hw, hview, exitNodes_balanced hw⟩

/-- A user that has learnt that the other shelter is blocked, and has taken it out of its graph. -/
def sampleCutOff : MyUser ℕ :=
  let blocked := sampleCrossing 3 ["way/2"] [(1, 20)]
  { samplePerson 1 with
    user := { (samplePerson 1).user with
      graph := (updateGraphInfo sampleTown "way/1" sampleRoads blocked).getD .empty } }

/-- It comes to the full shelter second, finds no way on, and takes a place that is not there. -/
theorem exitNodes_wraps : ¬ ∀ w : World ℕ, (evacuation sampleSettings).Reachable w →
    w.building.Balanced := by
  intro hbalanced
  have hrun : (System.exec (World.step sampleSettings) (fun _ _ => True) sampleEvacuation
      [.move 0 1000000000 1, .move 1 1000000000 1, .hear 1 sampleCutOff,
        .move 0 11000000000 1, .move 1 11000000000 1]).map
      (fun w => (w.building.exitNodes.find (nodeID 2), w.building.firstExitInfo.find (nodeID 2))) =
        some (some 4294967295, some 1) := by decide +kernel
  obtain ⟨w, hw, hview⟩ := sampleEvacuation_reachable hrun
  obtain ⟨hleft, hfirst⟩ := Prod.mk.inj hview
  have hbooks := hbalanced w hw.of_restrict (nodeID 2)
  rw [hleft, hfirst] at hbooks
  have hsum : 4294967295 + w.building.evacuees (nodeID 2) = 1 := Option.some.inj hbooks
  omega

end Ns3.Ferry2
