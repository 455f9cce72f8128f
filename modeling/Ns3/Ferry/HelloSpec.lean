import Ns3.Ferry.Hello
import Ns3.Lib.Fold
import Ns3.Lib.Snapshot

/-!
# What the handlers of a hello change

Two views of a node matter to the results: the blocked crossings, together with
the snapshot `CheckHelloData` takes of them, and the patrol data. A change of
route stores no crossing, and `CheckHelloData` leaves the patrol data alone.
-/

namespace Ns3.Ferry

open Ns3.Lib Ns3.Ferry2

variable {E C D : Type} [DecidableEq C] {cfg : Config} {graph : UpdateGraph E} {now : ℕ}

/-! ## What leaves the stored crossings alone -/

section Patrol

variable {map : RoadMap C D} {exitNodes : StdMap String UInt32} {u u' : FerryUser}
  {uses : List Use}

omit [DecidableEq C] in
theorem getExitInfo_blocked {id : String}
    (h : u.getExitInfoforFerry exitNodes now id = some u') :
    u'.blockednodeidAndTime = u.blockednodeidAndTime := by
  simp only [FerryUser.getExitInfoforFerry, Option.bind_eq_bind, Option.bind_eq_some_iff] at h
  obtain ⟨space, -, old, -, h⟩ := h
  split at h <;> cases h <;> rfl

theorem readStopLeft_blocked (h : u.readStopLeft exitNodes now = some (u', uses)) :
    u'.blockednodeidAndTime = u.blockednodeidAndTime := by
  simp only [FerryUser.readStopLeft, Option.bind_eq_bind, Option.bind_eq_some_iff] at h
  obtain ⟨stop, -, v, hv, hout⟩ := h
  cases hout
  exact getExitInfo_blocked hv

/-- A change of route reads the blocked crossings and stores none. -/
theorem changePatrolRoute_blocked {source : ChangeFrom}
    (h : u.changePatrolRoute map exitNodes now source = some (u', uses)) :
    u'.blockednodeidAndTime = u.blockednodeidAndTime := by
  unfold FerryUser.changePatrolRoute at h
  split at h
  · cases h
    rfl
  split at h
  · unfold FerryUser.leaveArea at h
    cases source with
    | timer =>
      have hv := readStopLeft_blocked h
      exact hv
    | recv =>
      cases h
      rfl
  · simp only [FerryUser.takeArea, Option.bind_eq_bind, Option.bind_eq_some_iff] at h
    obtain ⟨blockcoordinate, -, h⟩ := h
    split at h
    · have hv := readStopLeft_blocked h
      exact hv
    · obtain ⟨sorted, -, hout⟩ := Option.bind_eq_some_iff.mp h
      cases hout
      rfl

end Patrol

theorem mergePatrol_blocked (u : FerryUser) (hello : UserData) :
    (mergePatrol u hello).blockednodeidAndTime = u.blockednodeidAndTime := by
  unfold mergePatrol
  split <;> rfl

theorem reconsiderRoute_blocked {map : RoadMap C D} {exitNodes : StdMap String UInt32}
    {n n' : Node E} (h : reconsiderRoute map exitNodes now n = some n') :
    n'.ferry.blockednodeidAndTime = n.ferry.blockednodeidAndTime := by
  unfold reconsiderRoute at h
  split at h
  · simp only [Option.bind_eq_bind, Option.bind_eq_some_iff] at h
    obtain ⟨⟨u, uses⟩, hu, hout⟩ := h
    cases hout
    exact changePatrolRoute_blocked hu
  · cases h
    rfl

theorem updateGraph_ferry {n n' : Node E} {id : String}
    (h : updateGraphInfoReceivedPacket graph n id = some n') : n'.ferry = n.ferry := by
  unfold updateGraphInfoReceivedPacket at h
  split at h
  · cases h
    rfl
  · simp only [Option.bind_eq_bind, Option.bind_eq_some_iff] at h
    obtain ⟨user, -, hout⟩ := h
    cases hout
    rfl

theorem sendHello_ferry (cfg : Config) (now : ℕ) (n : Node E) :
    (sendHello cfg now n).1.ferry = n.ferry := by
  unfold sendHello
  dsimp only
  split <;> rfl

/-! ## `CheckHelloData` -/

structure PatrolData where
  changerouteforUAV : Bool
  myPatrolEreaAndStartTime : String × UInt32
  otherUAVPatrolEreaAndId : StdMap String UInt32
  patrolEreaidAndTime : StdMap String UInt32

def FerryUser.patrolData (u : FerryUser) : PatrolData where
  changerouteforUAV := u.changerouteforUAV
  myPatrolEreaAndStartTime := u.myPatrolEreaAndStartTime
  otherUAVPatrolEreaAndId := u.otherUAVPatrolEreaAndId
  patrolEreaidAndTime := u.patrolEreaidAndTime

/-- The blocked crossings, stored and in the snapshot, and the patrol data. -/
structure CheckView where
  blocked : Snapshot String Binary32
  patrol : PatrolData

def CheckState.view (st : CheckState E) : CheckView where
  blocked := ⟨st.aoiBlockedData, st.node.ferry.blockednodeidAndTime⟩
  patrol := st.node.ferry.patrolData

/-- The view after the entry `e` went into the snapshot, and the snapshot into the user. -/
def CheckView.writeBack (v : CheckView) (e : String × Binary32) : CheckView :=
  { v with blocked := ⟨v.blocked.snapshot.assign e.1 e.2, v.blocked.snapshot.assign e.1 e.2⟩ }

/-- The view after the user learned of `e`. -/
def CheckView.learn (v : CheckView) (e : String × Binary32) : CheckView :=
  { v with blocked := ⟨v.blocked.snapshot, v.blocked.store.assign e.1 e.2⟩ }

theorem checkExit_view {hop : Hop} {st st' : CheckState E} {e : String × (UInt32 × UInt32)}
    (h : checkExit hop st e = some st') : st'.view = st.view := by
  simp only [checkExit, Option.bind_eq_bind, Option.bind_eq_some_iff] at h
  obtain ⟨old, -, h⟩ := h
  split at h
  · cases h
    rfl
  split at h <;> cases h <;> rfl

theorem checkMissing_view {recv : StdMap String Binary32} (st : CheckState E)
    (e : String × Binary32) : (checkMissing cfg now recv st e).view = st.view := by
  unfold checkMissing
  split
  · rfl
  split <;> rfl

theorem checkHop_view (mine : StdMap UInt32 HopInfo) (st : CheckState E)
    (e : UInt32 × HopInfo) : (checkHop mine st e).view = st.view := by
  unfold checkHop
  split
  · split
    · rfl
    split <;> rfl
  · rfl

theorem checkMissingHop_view (recv : StdMap UInt32 HopInfo) (st : CheckState E)
    (e : UInt32 × HopInfo) : (checkMissingHop recv st e).view = st.view := by
  unfold checkMissingHop
  split <;> rfl

theorem checkHops_view (cfg : Config) (mine : StdMap UInt32 HopInfo) (hop : Hop)
    (st : CheckState E) : (checkHops cfg mine hop st).view = st.view := by
  unfold checkHops
  split
  · have h₁ := foldl_view (checkHop_view (E := E) mine) hop.hop.entries st
    have h₂ := foldl_view (checkMissingHop_view (E := E) hop.hop) mine.entries
      (hop.hop.entries.foldl (checkHop mine) st)
    exact h₂.trans h₁
  · rfl

theorem learnBlocked_view {st st' : CheckState E} {e : String × Binary32}
    (h : learnBlocked graph st e = some st') : st'.view = st.view.learn e := by
  simp only [learnBlocked, StdMap.insert_erase, Option.bind_eq_bind, Option.bind_eq_some_iff] at h
  obtain ⟨node, hnode, hout⟩ := h
  cases hout
  simp only [CheckState.view, updateGraph_ferry hnode]
  rfl

theorem writeBack_view {st st' : CheckState E} {e : String × Binary32}
    (h : writeBack graph st e = some st') : st'.view = st.view.writeBack e := by
  simp only [writeBack, StdMap.insert_erase, Option.bind_eq_bind, Option.bind_eq_some_iff] at h
  obtain ⟨node, hnode, hout⟩ := h
  cases hout
  simp only [CheckState.view, updateGraph_ferry hnode]
  rfl

/-- Only the loop over the received crossings changes the view. -/
theorem checkHelloData_loop {junk : CheckJunk} {n n' : Node E} {data : UserData} {hop : Hop}
    {sender : Ipv4Address} {out : List Message}
    (h : checkHelloData cfg graph now junk n data hop sender = some (n', out)) :
    ∃ st st', st.view = (checkStart n).view ∧
      data.aoiBlockinfo.entries.foldlM (checkBlocked cfg graph now junk.oldDataAoi) st = some st' ∧
      n'.ferry.blockednodeidAndTime = st'.view.blocked.store ∧
      n'.ferry.patrolData = st'.view.patrol := by
  simp only [checkHelloData, Option.bind_eq_bind, Option.bind_eq_some_iff] at h
  obtain ⟨st₁, h₁, st₃, h₃, hout⟩ := h
  refine ⟨_, st₃, ?_, h₃, ?_⟩
  · have hexit : st₁.view = (checkStart n).view := foldlM_fixed (fun _ _ _ => checkExit_view) h₁
    exact (foldl_view checkMissing_view _ _).trans hexit
  · rw [← checkHops_view cfg n.hop hop st₃]
    split at hout
    · cases hout
      rw [sendHello_ferry]
      exact ⟨rfl, rfl⟩
    · cases hout
      exact ⟨rfl, rfl⟩

/-! ## What is kept whatever the options -/

theorem compareBlocked_cases {st st' : CheckState E} {e : String × Binary32} {old : Binary32}
    (h : compareBlocked cfg graph now st e old = some st') :
    st'.view = st.view ∨ st'.view = st.view.writeBack e := by
  unfold compareBlocked at h
  split at h
  · cases h
    exact .inl rfl
  split at h
  · simp only [Option.bind_eq_bind, Option.bind_eq_some_iff] at h
    obtain ⟨st₁, h₁, hout⟩ := h
    cases hout
    unfold whenAccepted at h₁
    split at h₁
    · have hv := writeBack_view h₁
      exact .inr hv
    · cases h₁
      exact .inl rfl
  · cases h
    exact .inl rfl

/-- A crossing is stored, and in the snapshot. -/
def CheckView.Holds (v : CheckView) (k : String) : Prop :=
  v.blocked.snapshot.contains k ∧ v.blocked.store.contains k

theorem contains_assign {m : StdMap String Binary32} {k k' : String} {v : Binary32}
    (h : m.contains k) : (m.assign k' v).contains k := by
  unfold StdMap.contains at h ⊢
  rw [StdMap.find_assign]
  split
  · rfl
  · exact h

theorem CheckView.Holds.writeBack {v : CheckView} {k : String} {e : String × Binary32}
    (h : v.Holds k) : (v.writeBack e).Holds k :=
  ⟨contains_assign h.1, contains_assign h.1⟩

theorem CheckView.Holds.learn {v : CheckView} {k : String} {e : String × Binary32}
    (h : v.Holds k) : (v.learn e).Holds k :=
  ⟨h.1, contains_assign h.2⟩

theorem compareBlocked_keeps {st st' : CheckState E} {e : String × Binary32} {old : Binary32}
    (h : compareBlocked cfg graph now st e old = some st') :
    st'.view.patrol = st.view.patrol ∧ ∀ k, st.view.Holds k → st'.view.Holds k := by
  rcases compareBlocked_cases h with hv | hv
  · rw [hv]
    exact ⟨rfl, fun _ hk => hk⟩
  · rw [hv]
    exact ⟨rfl, fun _ hk => hk.writeBack⟩

theorem checkBlocked_keeps {old : String → Binary32} {st st' : CheckState E}
    {e : String × Binary32} (h : checkBlocked cfg graph now old st e = some st') :
    st'.view.patrol = st.view.patrol ∧ ∀ k, st.view.Holds k → st'.view.Holds k := by
  unfold checkBlocked at h
  split at h
  · exact compareBlocked_keeps h
  · simp only [Option.bind_eq_bind, Option.bind_eq_some_iff] at h
    obtain ⟨st₁, h₁, h⟩ := h
    obtain ⟨hpatrol, hholds⟩ := compareBlocked_keeps h
    unfold whenAccepted at h₁
    split at h₁
    · rw [learnBlocked_view h₁] at hpatrol hholds
      exact ⟨hpatrol, fun k hk => hholds k hk.learn⟩
    · cases h₁
      exact ⟨hpatrol, hholds⟩

/-- `CheckHelloData` forgets no crossing that was stored before, and leaves the patrol alone. -/
theorem checkHelloData_keeps {junk : CheckJunk} {n n' : Node E} {data : UserData} {hop : Hop}
    {sender : Ipv4Address} {out : List Message}
    (h : checkHelloData cfg graph now junk n data hop sender = some (n', out)) :
    n'.ferry.patrolData = n.ferry.patrolData ∧
      ∀ k, n.ferry.blockednodeidAndTime.contains k → n'.ferry.blockednodeidAndTime.contains k := by
  obtain ⟨st, st', hstart, hloop, hstore, hpatrol⟩ := checkHelloData_loop h
  constructor
  · rw [hpatrol, foldlM_fixed (g := fun s : CheckState E => s.view.patrol)
      (fun _ _ _ h => (checkBlocked_keeps h).1) hloop, hstart]
    rfl
  · intro k hk
    have hholds : st.view.Holds k := by
      rw [hstart]
      exact ⟨hk, hk⟩
    rw [hstore]
    exact (foldlM_invariant (P := fun s : CheckState E => s.view.Holds k)
      (fun _ _ _ hs h => (checkBlocked_keeps h).2 k hs) hholds hloop).2

end Ns3.Ferry
