import Ns3.Ferry2.Evacuation

/-!
# The set of active users

The driver enters the user of index `i` under the number `i + 1`
(`ConfigureSetDefault`, `ActivateReservedAddUsers`), `CompleteEvacuation` takes
`m_userId` out, which is `i`. So the set is right for as long as nobody has
completed, and never again: of those who have, the one with the largest index
keeps its entry.
-/

namespace Ns3.Ferry2

open Ns3.Lib World

/-! ## The roll -/

/-- The books on who is active and who has left. -/
structure Roll where
  numUsers : UInt32
  addUsersNum : UInt32
  nextAddUserIndex : UInt32
  activeUsers : StdSet UInt32
  userIdCompletedEvacuation : List UInt32

def Building.roll (b : Building) : Roll where
  numUsers := b.numUsers
  addUsersNum := b.addUsersNum
  nextAddUserIndex := b.nextAddUserIndex
  activeUsers := b.activeUsers
  userIdCompletedEvacuation := b.userIdCompletedEvacuation

theorem ofNat_inj {u v : ℕ} (hu : u < UInt32.size) (hv : v < UInt32.size)
    (h : UInt32.ofNat u = UInt32.ofNat v) : u = v := by
  have := congrArg UInt32.toNat h
  rwa [UInt32.toNat_ofNat_of_lt' hu, UInt32.toNat_ofNat_of_lt' hv] at this

/-- The entry of the user with index `u`. -/
def entry (u : ℕ) : UInt32 := userNumber (UInt32.ofNat u)

theorem entry_eq (u : ℕ) : entry u = UInt32.ofNat (u + 1) := by
  simp [entry, userNumber, UInt32.ofNat_add]

theorem entry_inj {u v : ℕ} (hu : u < UInt32.size) (hv : v < UInt32.size)
    (h : entry u = entry v) : u = v :=
  ofNat_inj hu hv (by simpa [entry, userNumber] using h)

namespace Roll

def activatedNum (r : Roll) : ℕ := r.numUsers.toNat + r.nextAddUserIndex.toNat

/-- The users of the start, and the reserved ones up to the next index. -/
def Activated (r : Roll) (u : ℕ) : Prop := u < r.activatedNum

def Evacuated (r : Roll) (u : ℕ) : Prop := UInt32.ofNat u ∈ r.userIdCompletedEvacuation

def evacuatedNum (r : Roll) : ℕ := r.userIdCompletedEvacuation.dedup.length

/-- The set holds the entries of the active users, one for each. -/
structure Exact (r : Roll) : Prop where
  mem : ∀ id, r.activeUsers.contains id = true ↔
    ∃ u, r.Activated u ∧ ¬ r.Evacuated u ∧ id = entry u
  once : ∀ u v, r.Activated u → r.Activated v → entry u = entry v → u = v
  size : r.activeUsers.size + r.evacuatedNum = r.activatedNum

/-- `CompleteEvacuation` takes the user's own id out. -/
def leave (r : Roll) (userId : UInt32) : Roll :=
  { r with
    activeUsers := if r.activeUsers.contains userId then r.activeUsers.erase userId
      else r.activeUsers
    userIdCompletedEvacuation := r.userIdCompletedEvacuation ++ [userId] }

/-- The next reserved user is entered. -/
def activate (r : Roll) : Roll :=
  { r with
    activeUsers := addActiveUser r.activeUsers (userNumber (r.numUsers + r.nextAddUserIndex))
    nextAddUserIndex := r.nextAddUserIndex + 1 }

/-! ## The invariant -/

/-- Entries are those of activated users, and only an id that has completed can be missing. -/
structure Kept (r : Roll) : Prop where
  bound : r.numUsers.toNat + r.addUsersNum.toNat < UInt32.size
  next_le : r.nextAddUserIndex.toNat ≤ r.addUsersNum.toNat
  entered : ∀ id, r.activeUsers.contains id = true → ∃ u, r.Activated u ∧ id = entry u
  kept : ∀ u, r.Activated u →
    r.activeUsers.contains (entry u) = true ∨ entry u ∈ r.userIdCompletedEvacuation
  left : ∀ id ∈ r.userIdCompletedEvacuation, ∃ u, r.Activated u ∧ id = UInt32.ofNat u

variable {r : Roll}

theorem Kept.lt_size (h : r.Kept) {u : ℕ} (hu : r.Activated u) : u < UInt32.size := by
  have hbound := h.bound
  have hnext := h.next_le
  unfold Activated activatedNum at hu
  omega

theorem contains_leave {id userId : UInt32} :
    (r.leave userId).activeUsers.contains id = true ↔
      id ≠ userId ∧ r.activeUsers.contains id = true := by
  unfold leave
  dsimp only
  split_ifs with hin
  · exact StdMap.contains_erase
  · refine ⟨fun hid => ⟨?_, hid⟩, And.right⟩
    rintro rfl
    exact hin hid

theorem Kept.leave (h : r.Kept) {u : ℕ} (hu : r.Activated u) :
    (r.leave (UInt32.ofNat u)).Kept where
  bound := h.bound
  next_le := h.next_le
  entered id hid := h.entered id (contains_leave.mp hid).2
  kept v hv := by
    by_cases he : entry v = UInt32.ofNat u
    · right
      simp [Roll.leave, he]
    · rcases h.kept v hv with hin | hout
      · left
        exact contains_leave.mpr ⟨he, hin⟩
      · right
        exact List.mem_append_left _ hout
  left id hid := by
    rcases List.mem_append.mp hid with hid | hid
    · exact h.left id hid
    · exact ⟨u, hu, List.mem_singleton.mp hid⟩

/-- The index of the next reserved user. -/
theorem Kept.nextIndex (h : r.Kept) (hnext : r.nextAddUserIndex < r.addUsersNum) :
    r.numUsers + r.nextAddUserIndex = UInt32.ofNat r.activatedNum ∧
      r.activate.activatedNum = r.activatedNum + 1 := by
  have hbound := h.bound
  have hlt := UInt32.lt_iff_toNat_lt.mp hnext
  constructor
  · rw [activatedNum, UInt32.ofNat_add, UInt32.ofNat_toNat, UInt32.ofNat_toNat]
  · have hstep : (r.nextAddUserIndex + 1).toNat = r.nextAddUserIndex.toNat + 1 := by
      rw [UInt32.toNat_add]
      exact Nat.mod_eq_of_lt (by simp [UInt32.size] at hbound ⊢; omega)
    unfold activatedNum activate
    dsimp only
    omega

theorem Kept.activate (h : r.Kept) (hnext : r.nextAddUserIndex < r.addUsersNum) :
    r.activate.Kept := by
  obtain ⟨hindex, hnum⟩ := h.nextIndex hnext
  have hmem (id : UInt32) : r.activate.activeUsers.contains id = true ↔
      id = entry r.activatedNum ∨ r.activeUsers.contains id = true := by
    unfold entry
    rw [← hindex]
    exact StdMap.contains_insert
  have hlt := UInt32.lt_iff_toNat_lt.mp hnext
  have hbound := h.bound
  have hnew : r.activate.Activated r.activatedNum := by
    unfold Activated
    omega
  have hold (u : ℕ) (hu : r.Activated u) : r.activate.Activated u := by
    unfold Activated at hu ⊢
    omega
  refine ⟨h.bound, ?_, ?_, ?_, ?_⟩
  · unfold activatedNum at hnum
    have hsame : r.activate.numUsers = r.numUsers := rfl
    have hsame' : r.activate.addUsersNum = r.addUsersNum := rfl
    rw [hsame] at hnum
    rw [hsame']
    omega
  · intro id hid
    rcases (hmem id).mp hid with rfl | hid
    · exact ⟨_, hnew, rfl⟩
    · obtain ⟨u, hu, he⟩ := h.entered id hid
      exact ⟨u, hold u hu, he⟩
  · intro u hu
    by_cases hu' : r.Activated u
    · exact (h.kept u hu').imp_left fun hin => (hmem _).mpr (.inr hin)
    · left
      have : u = r.activatedNum := by
        unfold Activated at hu hu'
        omega
      exact (hmem _).mpr (.inl (by rw [this]))
  · intro id hid
    obtain ⟨u, hu, he⟩ := h.left id hid
    exact ⟨u, hold u hu, he⟩

/-! ## When the set is right -/

theorem Kept.size_of_nobody (h : r.Kept) (hnobody : r.userIdCompletedEvacuation = []) :
    r.activeUsers.size = r.activatedNum := by
  have hperm : r.activeUsers.keys.Perm ((List.range r.activatedNum).map entry) := by
    refine (List.perm_ext_iff_of_nodup r.activeUsers.keys_nodup ?_).mpr fun id => ?_
    · refine List.Nodup.map_on (fun u hu v hv he => ?_) List.nodup_range
      exact entry_inj (h.lt_size (List.mem_range.mp hu)) (h.lt_size (List.mem_range.mp hv)) he
    · rw [← StdMap.contains_iff_mem_keys]
      simp only [List.mem_map, List.mem_range]
      constructor
      · intro hid
        obtain ⟨u, hu, he⟩ := h.entered id hid
        exact ⟨u, hu, he.symm⟩
      · rintro ⟨u, hu, rfl⟩
        rcases h.kept u hu with hin | hout
        · exact hin
        · simp [hnobody] at hout
  simpa [StdMap.size, StdMap.keys] using hperm.length_eq

theorem Kept.exact_of_nobody (h : r.Kept) (hnobody : r.userIdCompletedEvacuation = []) :
    r.Exact where
  mem id := by
    simp only [Evacuated, hnobody, List.not_mem_nil, not_false_eq_true, true_and]
    constructor
    · exact h.entered id
    · rintro ⟨u, hu, rfl⟩
      rcases h.kept u hu with hin | hout
      · exact hin
      · simp [hnobody] at hout
  once _ _ hu hv he := entry_inj (h.lt_size hu) (h.lt_size hv) he
  size := by
    rw [h.size_of_nobody hnobody]
    simp [evacuatedNum, hnobody]

/-- In a set that is right, a user who has completed had its entry taken out by the next user. -/
theorem Kept.next_evacuated (h : r.Kept) (hexact : r.Exact) {u : ℕ} (hu : r.Activated u)
    (hleft : r.Evacuated u) : r.Activated (u + 1) ∧ r.Evacuated (u + 1) := by
  have hout : entry u ∈ r.userIdCompletedEvacuation := by
    refine (h.kept u hu).resolve_left fun hin => ?_
    obtain ⟨v, hv, hstay, he⟩ := (hexact.mem _).mp hin
    obtain rfl := hexact.once u v hu hv he
    exact hstay hleft
  obtain ⟨v, hv, he⟩ := h.left _ hout
  have hsize := h.bound
  have hnext := h.next_le
  have hsucc : u + 1 = v := by
    refine ofNat_inj ?_ (h.lt_size hv) ((entry_eq u).symm.trans he)
    unfold Activated activatedNum at hu
    omega
  subst hsucc
  refine ⟨hv, ?_⟩
  unfold Evacuated
  rwa [← entry_eq]

theorem Kept.exact_iff (h : r.Kept) : r.Exact ↔ r.userIdCompletedEvacuation = [] := by
  refine ⟨fun hexact => ?_, h.exact_of_nobody⟩
  -- from one user who has completed to the next, up to the last index
  have hnone : ∀ k u, u + k = r.activatedNum → r.Activated u → ¬ r.Evacuated u := by
    intro k
    induction k with
    | zero =>
      intro u hk hu
      unfold Activated at hu
      omega
    | succ k ih =>
      intro u hk hu hleft
      obtain ⟨hu', hleft'⟩ := h.next_evacuated hexact hu hleft
      exact ih (u + 1) (by omega) hu' hleft'
  rw [List.eq_nil_iff_forall_not_mem]
  intro id hid
  obtain ⟨u, hu, rfl⟩ := h.left id hid
  have hle : u ≤ r.activatedNum := Nat.le_of_lt hu
  exact hnone (r.activatedNum - u) u (by omega) hu hid

end Roll

/-! ## What a movement event does to the roll -/

/-- One user leaves, any number of times. -/
inductive Leaves (userId : UInt32) : Roll → Roll → Prop
  | stays (r : Roll) : Leaves userId r r
  | leaves {r r' : Roll} (h : Leaves userId r r') : Leaves userId r (r'.leave userId)

theorem Leaves.activated {userId : UInt32} {r r' : Roll} (h : Leaves userId r r') (u : ℕ) :
    r'.Activated u ↔ r.Activated u := by
  induction h with
  | stays => rfl
  | leaves _ ih => exact ih

theorem Leaves.users {userId : UInt32} {r r' : Roll} (h : Leaves userId r r') :
    r'.numUsers = r.numUsers ∧ r'.addUsersNum = r.addUsersNum := by
  induction h with
  | stays => exact ⟨rfl, rfl⟩
  | leaves _ ih => exact ih

theorem Leaves.kept {u : ℕ} {r r' : Roll} (h : Leaves (UInt32.ofNat u) r r') (hr : r.Kept)
    (hu : r.Activated u) : r'.Kept := by
  induction h with
  | stays => exact hr
  | leaves hleaves ih => exact ih.leave ((hleaves.activated u).mpr hu)

variable {b b' : Building}

theorem roll_retarget {old new : String} (h : b.retarget old new = some b') :
    b'.roll = b.roll := by
  unfold Building.retarget at h
  split_ifs at h
  · cases h
    rfl
  · simp only [Option.bind_eq_bind, Option.bind_eq_some_iff] at h
    obtain ⟨oldNum, -, newNum, -, hout⟩ := h
    cases hout
    rfl

variable {C : Type} [LinearOrder C] {n n' : MyUser C} {id : String}

theorem Ends.roll (h : Ends b n id b' n') : b'.roll = b.roll.leave n.ledger.userId := by
  cases h
  rfl

variable [Zero C] {m : RoadMap C} {front : WayNode C}

theorem Sought.roll (h : Sought m b n front b' n') : b'.roll = b.roll := by
  cases h with
  | idle => rfl
  | searched _ _ h =>
    cases h with
    | gaveUp => rfl
    | found _ _ hretarget => exact roll_retarget hretarget

theorem Finished.leaves {userId : UInt32} {r : Roll} (h : Finished m b n b' n')
    (hid : n.ledger.userId = userId) (hr : Leaves userId r b.roll) :
    Leaves userId r b'.roll := by
  subst hid
  cases h with
  | walks => exact hr
  | ends _ _ _ hends =>
    rw [hends.roll]
    exact hr.leaves

theorem Moved.leaves (h : Moved m b n front id b' n') :
    Leaves n.ledger.userId b.roll b'.roll := by
  cases h with
  | passes _ hsought hfinished =>
    have hid := congrArg Ledger.userId hsought.ledger
    have hid₀ := congrArg Ledger.userId (ledger_eq_of_trip (trip_noted (b := b) (n := n) id))
    refine hfinished.leaves (hid.trans hid₀) ?_
    rw [hsought.roll]
    exact .stays _
  | enters _ _ hends =>
    rw [hends.roll]
    exact .leaves (.stays _)
  | again _ _ _ _ _ _ htrip _ _ hsought hfinished =>
    have hid := congrArg Ledger.userId hsought.ledger
    have hid₀ := congrArg Ledger.userId (ledger_eq_of_trip htrip)
    refine hfinished.leaves (hid.trans hid₀) ?_
    rw [hsought.roll]
    exact .leaves (.stays _)

/-! ## Runs -/

namespace World

variable {cfg : UserConfig} {w w' : World C}

/-- What holds after every single activation holds after `ActivateReservedAddUsers`. -/
theorem activateReservedAddUsers_induction {P : World C → Prop} (now : ℕ) (h : P w)
    (hnext : ∀ w, P w → w.building.nextAddUserIndex < w.building.addUsersNum →
      P (w.activate (w.building.numUsers + w.building.nextAddUserIndex))) :
    P (w.activateReservedAddUsers now) := by
  have hloop (k : ℕ) : P (activateLoop k w) := by
    induction k generalizing w with
    | zero => exact h
    | succ k ih =>
      unfold activateLoop
      dsimp only
      split_ifs with hlast
      · exact h
      · exact ih (hnext w h (UInt32.not_le.mp hlast))
  unfold activateReservedAddUsers
  split_ifs
  · exact h
  · exact hloop _

/-- The roll is kept, and only activated users move. -/
structure Enrolled (w : World C) : Prop where
  kept : w.building.roll.Kept
  ids : ∀ u < w.size, (w.nUser u).userId = UInt32.ofNat u
  pending : ∀ u < w.size, (w.nUser u).user.humTimer = true → w.building.roll.Activated u

/-- One user changes, and the roll at most as its event allows. -/
theorem Enrolled.setUser (h : w.Enrolled) {b : Building} {u : ℕ} {n : MyUser C}
    (hleaves : Leaves (UInt32.ofNat u) w.building.roll b.roll)
    (hactive : b.roll = w.building.roll ∨ w.building.roll.Activated u)
    (hid : n.userId = UInt32.ofNat u)
    (hpending : n.user.humTimer = true → w.building.roll.Activated u) :
    (w.setUser b u n).Enrolled where
  kept := by
    rcases hactive with hsame | hactive
    · have hroll : (w.setUser b u n).building.roll = b.roll := rfl
      rw [hroll, hsame]
      exact h.kept
    · exact hleaves.kept h.kept hactive
  ids := forall_setUser (Q := fun v n => n.userId = UInt32.ofNat v) hleaves.users.1
    hleaves.users.2 h.ids hid
  pending := by
    refine forall_setUser (Q := fun v n => n.user.humTimer = true → b.roll.Activated v)
      hleaves.users.1 hleaves.users.2 (fun v hv htimer => ?_) fun htimer => ?_
    · exact (hleaves.activated v).mpr (h.pending v hv htimer)
    · exact (hleaves.activated u).mpr (hpending htimer)

theorem contains_initialActive (n : UInt32) (id : UInt32) :
    (initialActive n).contains id = true ↔ ∃ u < n.toNat, id = entry u := by
  unfold initialActive
  induction n.toNat with
  | zero => simp [StdMap.contains]
  | succ k ih =>
    rw [List.range_succ, List.foldl_append, List.foldl_cons, List.foldl_nil]
    unfold addActiveUser at ih ⊢
    rw [StdMap.contains_insert, ih]
    constructor
    · rintro (rfl | ⟨u, hu, rfl⟩)
      · exact ⟨k, by omega, rfl⟩
      · exact ⟨u, by omega, rfl⟩
    · rintro ⟨u, hu, rfl⟩
      rcases Nat.lt_succ_iff_lt_or_eq.mp hu with hu | rfl
      · exact .inr ⟨u, hu, rfl⟩
      · exact .inl rfl

theorem Started.enrolled (h : w.Started) : w.Enrolled := by
  have hactivated (u : ℕ) : w.building.roll.Activated u ↔ u < w.building.numUsers.toNat := by
    unfold Roll.Activated Roll.activatedNum Building.roll
    simp [h.nextAddUserIndex]
  have hactive : w.building.roll.activeUsers = initialActive w.building.numUsers := h.activeUsers
  have hnobody : w.building.roll.userIdCompletedEvacuation = [] := h.completed
  refine ⟨⟨h.bound, ?_, ?_, ?_, ?_⟩, fun u hu => (h.fresh u hu).userId, ?_⟩
  · unfold Building.roll
    simp [h.nextAddUserIndex]
  · intro id hid
    rw [hactive, contains_initialActive] at hid
    obtain ⟨u, hu, he⟩ := hid
    exact ⟨u, (hactivated u).mpr hu, he⟩
  · intro u hu
    rw [hactive, contains_initialActive]
    exact .inl ⟨u, (hactivated u).mp hu, rfl⟩
  · simp [hnobody]
  · intro u hu hpending
    rw [(h.fresh u hu).humTimer] at hpending
    exact (hactivated u).mpr (of_decide_eq_true hpending)

/-- The next reserved user is the first one not activated yet. -/
theorem Enrolled.nextIndex (h : w.Enrolled)
    (hnext : w.building.nextAddUserIndex < w.building.addUsersNum) :
    (w.building.numUsers + w.building.nextAddUserIndex).toNat = w.building.roll.activatedNum ∧
      ∀ v, w.building.roll.activate.Activated v ↔ v ≤ w.building.roll.activatedNum := by
  obtain ⟨hindex, hnum⟩ := h.kept.nextIndex hnext
  have hindex : w.building.numUsers + w.building.nextAddUserIndex =
      UInt32.ofNat w.building.roll.activatedNum := hindex
  have hbound := h.kept.bound
  have hlt : w.building.roll.nextAddUserIndex.toNat < w.building.roll.addUsersNum.toNat :=
    UInt32.lt_iff_toNat_lt.mp hnext
  constructor
  · rw [hindex, UInt32.toNat_ofNat_of_lt']
    unfold Roll.activatedNum
    omega
  · intro v
    unfold Roll.Activated
    omega

theorem ledger_activate (i : UInt32) (v : ℕ) : ((w.activate i).nUser v).ledger =
    if v = i.toNat then { (w.nUser v).ledger with humTimer := true }
    else (w.nUser v).ledger := by
  simp only [World.activate, World.setUser, Function.update_apply]
  split_ifs with he
  · rw [he]
    rfl
  · rfl

theorem userId_activate (i : UInt32) (v : ℕ) :
    ((w.activate i).nUser v).userId = (w.nUser v).userId := by
  simp only [World.activate, World.setUser, Function.update_apply]
  split_ifs with he
  · rw [he]
  · rfl

theorem route_activate (i : UInt32) (v : ℕ) :
    ((w.activate i).nUser v).route = (w.nUser v).route := by
  simp only [World.activate, World.setUser, Function.update_apply]
  split_ifs with he
  · rw [he]
    rfl
  · rfl

theorem Enrolled.activate (h : w.Enrolled)
    (hnext : w.building.nextAddUserIndex < w.building.addUsersNum) :
    (w.activate (w.building.numUsers + w.building.nextAddUserIndex)).Enrolled := by
  obtain ⟨hindex, hactivated⟩ := h.nextIndex hnext
  refine ⟨h.kept.activate hnext, fun v hv => ?_, fun v hv htimer => (hactivated v).mpr ?_⟩
  · rw [userId_activate]
    exact h.ids v hv
  · have htimer : ((w.activate _).nUser v).ledger.humTimer = true := htimer
    rw [ledger_activate, hindex] at htimer
    split_ifs at htimer with he
    · exact Nat.le_of_eq he
    · exact Nat.le_of_lt (h.pending v hv htimer)

theorem Enrolled.step {e : Event C} (h : w.Enrolled) (hstep : w.step cfg e = some w') :
    w'.Enrolled := by
  cases e with
  | addUsers now =>
    cases hstep
    exact activateReservedAddUsers_induction now h fun _ h => h.activate
  | move u now speed =>
    obtain ⟨hu, htimer, b, n, hmove, rfl⟩ := step_move hstep
    obtain ⟨n₁, front, id, hbegun, hmoved⟩ := handleUserMovement_spec hmove
    have hid : n₁.ledger.userId = UInt32.ofNat u := by
      rw [hbegun.ledger]
      exact h.ids u hu
    have hactive := h.pending u hu htimer
    refine h.setUser (hid ▸ hmoved.leaves) (.inr hactive) ?_ fun _ => hactive
    exact (handleUserMovement_ledger hmove).userId.trans (h.ids u hu)
  | checkMovingUserNum u =>
    obtain ⟨hu, -, b, n, hchecked, rfl⟩ := step_checkMovingUserNum hstep
    have hids := h.ids u hu
    have hpending := h.pending u hu
    cases hchecked <;> exact h.setUser (.stays _) (.inl rfl) hids hpending
  | hear u news =>
    obtain ⟨hu, rfl⟩ := step_hear hstep
    exact h.setUser (.stays _) (.inl rfl) (h.ids u hu) (h.pending u hu)
  | block pos flag =>
    cases hstep
    exact ⟨h.kept, h.ids, h.pending⟩

/-! ## Who is still on the way -/

/-- A user that has been activated and moves no more. -/
def Done (w : World C) (u : ℕ) : Prop :=
  w.building.roll.Activated u ∧ (w.nUser u).ledger.humTimer = false

/-- Every user is on its way, or done. -/
structure Journeys (w : World C) : Prop where
  enrolled : w.Enrolled
  stage : ∀ u < w.size, (w.nUser u).ledger.Travels ∨ w.Done u

theorem Journeys.travels (h : w.Journeys) {u : ℕ} (hu : u < w.size)
    (htimer : (w.nUser u).ledger.humTimer = true) : (w.nUser u).ledger.Travels := by
  refine (h.stage u hu).resolve_right fun hdone => ?_
  rw [hdone.2] at htimer
  cases htimer

theorem Started.journeys (h : w.Started) : w.Journeys where
  enrolled := h.enrolled
  stage u hu := .inl ⟨(h.fresh u hu).isMove, (h.fresh u hu).isExit⟩

/-- One user changes, and ends up on its way or done. -/
theorem Journeys.setUser (h : w.Journeys) {b : Building} {u : ℕ} {n : MyUser C}
    (hleaves : Leaves (UInt32.ofNat u) w.building.roll b.roll)
    (hkept : (w.setUser b u n).Enrolled)
    (hstage : n.ledger.Travels ∨ w.building.roll.Activated u ∧ n.ledger.humTimer = false) :
    (w.setUser b u n).Journeys where
  enrolled := hkept
  stage := by
    refine forall_setUser
      (Q := fun v n => n.ledger.Travels ∨ b.roll.Activated v ∧ n.ledger.humTimer = false)
      hleaves.users.1 hleaves.users.2 (fun v hv => ?_) ?_
    · rw [hleaves.activated]
      exact h.stage v hv
    · rw [hleaves.activated]
      exact hstage

/-- The next reserved user is on its way when it is activated. -/
theorem Journeys.activate (h : w.Journeys)
    (hnext : w.building.nextAddUserIndex < w.building.addUsersNum) :
    (w.activate (w.building.numUsers + w.building.nextAddUserIndex)).Journeys := by
  refine ⟨h.enrolled.activate hnext, fun v hv => ?_⟩
  obtain ⟨hindex, hactivated⟩ := h.enrolled.nextIndex hnext
  rw [Done, ledger_activate, hindex]
  split_ifs with he
  · left
    refine (h.stage v hv).resolve_right fun hdone => ?_
    exact absurd hdone.1 (by unfold Roll.Activated; omega)
  · exact (h.stage v hv).imp_right fun hdone => ⟨(hactivated v).mpr hdone.1.le, hdone.2⟩

theorem Journeys.step {e : Event C} (h : w.Journeys) (hstep : w.step cfg e = some w') :
    w'.Journeys := by
  have hkept := h.enrolled.step hstep
  cases e with
  | addUsers now =>
    cases hstep
    exact activateReservedAddUsers_induction now h fun _ h => h.activate
  | move u now speed =>
    obtain ⟨hu, htimer, b, n, hmove, rfl⟩ := step_move hstep
    obtain ⟨n₁, front, id, hbegun, hmoved⟩ := handleUserMovement_spec hmove
    have hid : n₁.ledger.userId = UInt32.ofNat u := by
      rw [hbegun.ledger]
      exact h.enrolled.ids u hu
    refine h.setUser (hid ▸ hmoved.leaves) hkept ?_
    refine ((handleUserMovement_ledger hmove).stage (h.travels hu htimer)).imp_right fun hend => ?_
    exact ⟨h.enrolled.pending u hu htimer, hend⟩
  | checkMovingUserNum u =>
    obtain ⟨hu, -, b, n, hchecked, rfl⟩ := step_checkMovingUserNum hstep
    have hstage := h.stage u hu
    cases hchecked <;> exact h.setUser (.stays _) hkept hstage
  | hear u news =>
    obtain ⟨hu, rfl⟩ := step_hear hstep
    exact h.setUser (.stays _) hkept (h.stage u hu)
  | block pos flag =>
    cases hstep
    exact ⟨hkept, h.stage⟩

theorem journeys_of_reachable (h : (evacuation cfg).Reachable w) : w.Journeys :=
  h.invariant (P := Journeys) (fun _ => Started.journeys) fun _ _ _ => Journeys.step

end World

/-- In every reachable state the set of active users is right if and only if nobody has completed
the evacuation. -/
theorem activeUsers_exact_iff {cfg : UserConfig} {w : World C}
    (h : (evacuation cfg).Reachable w) :
    w.building.roll.Exact ↔ w.building.userIdCompletedEvacuation = [] :=
  (journeys_of_reachable h).enrolled.kept.exact_iff

/-- Before anyone has left, the set is right. -/
theorem activeUsers_exact_iff_sample :
    (evacuation sampleSettings).Reachable sampleEvacuation ∧ sampleEvacuation.building.roll.Exact :=
  have h : (evacuation sampleSettings).Reachable sampleEvacuation :=
    ⟨_, _, sampleEvacuation_started, .nil _⟩
  ⟨h, (activeUsers_exact_iff h).mpr rfl⟩

/-- The first of two users enters the shelter, and both entries stay. -/
theorem activeUsers_not_exact :
    ¬ ∀ w : World ℕ, (evacuation sampleSettings).Reachable w → w.building.roll.Exact := by
  intro hexact
  have hrun : (System.exec (World.step sampleSettings) (fun _ _ => True) sampleEvacuation
      [.move 0 1000000000 1, .move 1 1000000000 1, .move 0 11000000000 1]).map
      (fun w => w.building.userIdCompletedEvacuation) = some [0] := by decide +kernel
  obtain ⟨w, hw, hleft⟩ := sampleEvacuation_reachable hrun
  have hnobody : w.building.userIdCompletedEvacuation = [] :=
    (journeys_of_reachable hw.of_restrict).enrolled.kept.exact_iff.mp (hexact w hw.of_restrict)
  rw [hleft] at hnobody
  cases hnobody

end Ns3.Ferry2
