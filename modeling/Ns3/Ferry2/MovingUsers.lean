import Ns3.Ferry2.Capacity
import Ns3.Lib.Count

/-!
# The counts of moving users

`moving_user_num` counts, for every shelter, the users that head for it. A
timer puts a user on the count once it has a target, and takes it off once it
has completed its evacuation; a search that sends it to another shelter moves it
from one count to the other. It does so for a user that is not on the count,
too, and then the count of the old shelter is one too low from there on.
-/

namespace Ns3.Ferry2

open Ns3.Lib World

/-! ## Who is counted where -/

namespace Ledger

/-- On the count of a shelter. -/
def OnCount (s : String) (l : Ledger) : Prop :=
  l.checkMoveFlag = true ∧ l.alreadycountflag = false ∧ l.exitnode = s

/-- Counted, not finished, and on the way to a shelter. -/
def CountedMoving (s : String) (l : Ledger) : Prop :=
  l.checkMoveFlag = true ∧ l.isExit = false ∧ l.exitnode = s

/-- Counted and finished, and still to be taken off by the timer. -/
def Awaits (l : Ledger) : Prop :=
  l.checkMoveFlag = true ∧ l.isExit = true ∧ l.alreadycountflag = false

instance (s : String) : DecidablePred (OnCount s) :=
  fun _ => inferInstanceAs (Decidable (_ ∧ _ ∧ _))

instance (s : String) : DecidablePred (CountedMoving s) :=
  fun _ => inferInstanceAs (Decidable (_ ∧ _ ∧ _))

instance : DecidablePred Awaits := fun _ => inferInstanceAs (Decidable (_ ∧ _ ∧ _))

/-- The target a user last moved the counts for is its target. -/
structure Consistent (moving : StdMap String UInt32) (l : Ledger) : Prop where
  off : l.alreadycountflag = true → l.checkMoveFlag = true ∧ l.isExit = true
  aim : l.targetNodeBuf = "first" ∧ l.exitnode = "" ∨
    l.targetNodeBuf = l.exitnode ∧ l.exitnode ≠ "first"
  counted : l.checkMoveFlag = true → moving.contains l.exitnode = true

end Ledger

/-! ## What a search does to the counts -/

/-- What becomes of the counts and the target of a user that is only sent to another shelter while
it is counted. -/
inductive Aims (moving : StdMap String UInt32) (l : Ledger) :
    StdMap String UInt32 → Ledger → Prop
  | keeps {l' : Ledger} (hexit : l'.exitnode = l.exitnode)
      (hbuf : l'.targetNodeBuf = l.targetNodeBuf) : Aims moving l moving l'
  | sets {l' : Ledger} (hcanon : Canonical l'.exitnode) (hbuf : l'.targetNodeBuf = l'.exitnode)
      (hsame : l'.exitnode = l.targetNodeBuf ∨ l.targetNodeBuf = "first") : Aims moving l moving l'
  | moves {l' : Ledger} {oldNum newNum : UInt32} (hcanon : Canonical l'.exitnode)
      (hbuf : l'.targetNodeBuf = l'.exitnode) (hcounted : l.checkMoveFlag = true)
      (hne : l'.exitnode ≠ l.targetNodeBuf) (hfirst : l.targetNodeBuf ≠ "first")
      (hold : moving.find l.targetNodeBuf = some oldNum)
      (hnew : moving.find l'.exitnode = some newNum) :
      Aims moving l
        ((moving.assign l.targetNodeBuf (oldNum - 1)).assign l'.exitnode (newNum + 1)) l'

theorem retarget_aims {b b' : Building} {l l' : Ledger} {old comp : String}
    (h : b.retarget old comp = some b')
    (hold : l.targetNodeBuf = old) (hcanon : Canonical comp)
    (hexit : l'.exitnode = comp) (hbuf : l'.targetNodeBuf = comp)
    (hcounted : l.checkMoveFlag = false → old ≠ "first" → comp = old) :
    Aims b.movingUserNum l b'.movingUserNum l' := by
  subst hold hexit
  unfold Building.retarget at h
  split_ifs at h with hstay
  · cases h
    exact .sets hcanon hbuf hstay
  · obtain ⟨hne, hfirst⟩ := not_or.mp hstay
    simp only [Option.bind_eq_bind, Option.bind_eq_some_iff, StdMap.insert_erase] at h
    obtain ⟨oldNum, hold, newNum, hnew, hout⟩ := h
    cases hout
    rw [StdMap.find_assign, if_neg hne] at hnew
    refine .moves hcanon hbuf ?_ hne hfirst hold hnew
    by_contra hflag
    exact hne (hcounted (by simpa using hflag) hfirst)

/-- Only the target and the flag of a user matter here. -/
theorem Aims.of_eq {moving moving' : StdMap String UInt32} {l₁ l l₁' l' : Ledger}
    (h : Aims moving l moving' l') (hflag : l₁.checkMoveFlag = l.checkMoveFlag)
    (hexit₁ : l₁.exitnode = l.exitnode) (hbuf₁ : l₁.targetNodeBuf = l.targetNodeBuf)
    (hexit : l₁'.exitnode = l'.exitnode) (hbuf : l₁'.targetNodeBuf = l'.targetNodeBuf) :
    Aims moving l₁ moving' l₁' := by
  cases h with
  | keeps hexit' hbuf' =>
    exact .keeps (hexit.trans (hexit'.trans hexit₁.symm)) (hbuf.trans (hbuf'.trans hbuf₁.symm))
  | sets hcanon hbuf' hsame =>
    rw [← hexit] at hcanon hbuf' hsame
    rw [← hbuf] at hbuf'
    rw [← hbuf₁] at hsame
    exact .sets hcanon hbuf' hsame
  | moves hcanon hbuf' hcounted hne hfirst hold hnew =>
    rw [← hexit] at hcanon hbuf' hne hnew ⊢
    rw [← hbuf] at hbuf'
    rw [← hbuf₁] at hne hfirst hold ⊢
    rw [← hflag] at hcounted
    exact .moves hcanon hbuf' hcounted hne hfirst hold hnew

variable {C : Type} [LinearOrder C] [Zero C]

/-- The search sends a user that is not on the counts from one shelter to another. -/
def Diverts (m : RoadMap C) (n : MyUser C) (front : WayNode C) : Prop :=
  n.isDijkstra = true ∧ front.isCrossing = true ∧ n.ledger.checkMoveFlag = false ∧
    n.ledger.targetNodeBuf ≠ "first" ∧
      ∃ comp ∈ newTarget m n front.coordinate, comp ≠ n.ledger.targetNodeBuf

instance (m : RoadMap C) (n : MyUser C) (front : WayNode C) : Decidable (Diverts m n front) :=
  inferInstanceAs (Decidable (_ ∧ _))

/-- A step that sends no user from one shelter to another before it is counted. A user that enters
a shelter does not search, unless the exception comes. -/
def CountedFirst (cfg : UserConfig) (w : World C) : Event C → Prop
  | .move u now _ => ∀ start ∈ found cfg w.map now (w.nUser u),
      (Enters w.building start.1 start.2.2 → StruckOff w.building start.1 start.2.2) →
        ¬ Diverts w.map (noted w.building start.2.2 start.1) start.2.1
  | .addUsers _ | .checkMovingUserNum _ | .hear _ _ | .block _ _ => True

instance (cfg : UserConfig) : DecidableRel (CountedFirst (C := C) cfg)
  | w, .move u now _ => inferInstanceAs (Decidable (∀ start ∈ found cfg w.map now (w.nUser u), _))
  | _, .addUsers _ | _, .checkMovingUserNum _ | _, .hear _ _ | _, .block _ _ =>
    inferInstanceAs (Decidable True)

variable {m : RoadMap C} {b b' : Building} {n n' : MyUser C} {front : WayNode C} {id : String}

theorem Sought.aims (h : Sought m b n front b' n') (hnot : ¬ Diverts m n front) :
    Aims b.movingUserNum n.ledger b'.movingUserNum n'.ledger := by
  cases h with
  | idle => exact .keeps rfl rfl
  | @searched b₁ n₁ hcross hdue h =>
    cases h with
    | gaveUp => exact .keeps rfl rfl
    | @found comp _ _ htarget hcomp hretarget hledger =>
      refine retarget_aims hretarget rfl hcomp (congrArg Ledger.exitnode hledger)
        (congrArg Ledger.targetNodeBuf hledger) fun hflag hfirst => ?_
      by_contra hne
      exact hnot ⟨hdue, hcross, hflag, hfirst, comp, htarget, hne⟩

/-- What comes after the search leaves the counts and the target alone. -/
theorem Finished.aims (h : Finished m b n b' n') : b'.movingUserNum = b.movingUserNum ∧
    n'.ledger.exitnode = n.ledger.exitnode ∧
      n'.ledger.targetNodeBuf = n.ledger.targetNodeBuf := by
  cases h with
  | walks _ _ hledger =>
    rw [hledger]
    exact ⟨rfl, rfl, rfl⟩
  | ends _ _ _ hends =>
    obtain ⟨-, hledger, -⟩ := hends
    rw [hledger]
    exact ⟨rfl, rfl, rfl⟩

theorem Moved.aims (h : Moved m b n front id b' n')
    (hnot : (Enters b n id → StruckOff b n id) → ¬ Diverts m (noted b id n) front) :
    Aims b.movingUserNum n.ledger b'.movingUserNum n'.ledger := by
  cases h with
  | passes hpass hsought hfinished =>
    have hledger := ledger_eq_of_trip (trip_noted (b := b) (n := n) id)
    obtain ⟨hmoving, hexit, hbuf⟩ := hfinished.aims
    rw [hmoving]
    refine (hsought.aims (hnot fun henters => ?_)).of_eq ?_ ?_ ?_ hexit hbuf
    · obtain ⟨hzero, hnone, hroute⟩ := henters
      rcases hpass with h | h | h
      · exact absurd h hzero
      · exact absurd h hroute
      · exact absurd h hnone
    · rw [hledger]
    · rw [hledger]
    · rw [hledger]
  | enters _ _ hends =>
    obtain ⟨-, hledger, -⟩ := hends
    refine .keeps ?_ ?_
    · rw [hledger]
      rfl
    · rw [hledger]
      rfl
  | again hroute hkey hzero hunknown hspace hfree htrip hdue htarget hsought hfinished =>
    have hledger := ledger_eq_of_trip htrip
    have hsame : noted b id n = n := by
      unfold noted
      rw [if_neg (by simpa [hspace] using hfree)]
    have hstruck := struckOff_mk hroute hkey hzero hunknown hspace hfree
    have hnot := hnot fun _ => hstruck
    rw [hsame] at hnot
    obtain ⟨hmoving, hexit, hbuf⟩ := hfinished.aims
    rw [hmoving]
    refine (hsought.aims fun hdiverts => hnot ?_).of_eq ?_ ?_ ?_ hexit hbuf
    · obtain ⟨hdue₀, hcross, hflag, hfirst, comp, hcomp, hne⟩ := hdiverts
      rw [hledger] at hflag hfirst hne
      rw [hdue] at hdue₀
      rw [htarget] at hcomp
      exact ⟨hdue₀, hcross, hflag, hfirst, comp, hcomp, hne⟩
    · rw [hledger]
      rfl
    · rw [hledger]
      rfl
    · rw [hledger]
      rfl

/-! ## The effect on the counts -/

/-- How the count of one shelter changes, for a user on it before (`p`) or after (`p'`). -/
inductive Shift (p p' : Prop) (num : UInt32) : UInt32 → Prop
  | same (h : p ↔ p') : Shift p p' num num
  | up (hp : ¬ p) (hp' : p') : Shift p p' num (num + 1)
  | down (hp : p) (hp' : ¬ p') : Shift p p' num (num - 1)

/-- A count that was right stays right. -/
theorem Shift.toNat {p p' : Prop} [Decidable p] [Decidable p'] {num num' : UInt32} {k k' : ℕ}
    (h : Shift p p' num num') (hnum : num.toNat = k)
    (hsum : k' + (if p then 1 else 0) = k + if p' then 1 else 0) (hbound : k' < UInt32.size) :
    num'.toNat = k' := by
  unfold UInt32.size at hbound
  cases h with
  | same h =>
    simp only [h] at hsum
    omega
  | up hp hp' =>
    rw [if_neg hp, if_pos hp'] at hsum
    rw [UInt32.toNat_add, Nat.mod_eq_of_lt]
    · have hone : (1 : UInt32).toNat = 1 := rfl
      omega
    · have hone : (1 : UInt32).toNat = 1 := rfl
      omega
  | down hp hp' =>
    rw [if_pos hp, if_neg hp'] at hsum
    have hone : (1 : UInt32).toNat = 1 := rfl
    rw [UInt32.toNat_sub_of_le _ _ (UInt32.le_iff_toNat_le.mpr (by omega))]
    omega

/-- The counts change as the user does. -/
structure Shifts (moving : StdMap String UInt32) (l : Ledger) (moving' : StdMap String UInt32)
    (l' : Ledger) : Prop where
  keys : ∀ s, moving'.contains s = moving.contains s
  counts : ∀ s num', moving'.find s = some num' → ∃ num, moving.find s = some num ∧
    Shift (l.OnCount s) (l'.OnCount s) num num'

section

variable {moving moving' : StdMap String UInt32} {l l' : Ledger}

theorem Shifts.of_same (h : ∀ s, l.OnCount s ↔ l'.OnCount s) : Shifts moving l moving l' where
  keys _ := rfl
  counts s num hnum := ⟨num, hnum, .same (h s)⟩

/-- One count changes. -/
theorem Shifts.assign {num num' : UInt32} (hnum : moving.find l.exitnode = some num)
    (hexit : l'.exitnode = l.exitnode)
    (h : Shift (l.OnCount l.exitnode) (l'.OnCount l.exitnode) num num') :
    Shifts moving l (moving.assign l.exitnode num') l' := by
  refine ⟨StdMap.contains_assign hnum, fun s other hother => ?_⟩
  rw [StdMap.find_assign] at hother
  split_ifs at hother with hs
  · cases hother
    subst hs
    exact ⟨num, hnum, h⟩
  · refine ⟨other, hother, .same ⟨fun hin => ?_, fun hin => ?_⟩⟩
    · exact absurd hin.2.2.symm hs
    · exact absurd (hin.2.2.symm.trans hexit) hs

/-- A counted user has a target, which its search goes by. -/
theorem Ledger.Consistent.aimed (h : l.Consistent moving) (hunnamed : moving.find "" = none)
    (hflag : l.checkMoveFlag = true) : l.targetNodeBuf = l.exitnode ∧ l.exitnode ≠ "first" := by
  refine h.aim.resolve_left fun ⟨_, hnone⟩ => ?_
  have hin := h.counted hflag
  rw [hnone, StdMap.contains, hunnamed] at hin
  cases hin

theorem Aims.shifts (h : Aims moving l moving' l') (hl : l.Consistent moving)
    (hunnamed : moving.find "" = none) (hflag : l'.checkMoveFlag = l.checkMoveFlag)
    (hoff : l'.alreadycountflag = l.alreadycountflag) (hon : l.alreadycountflag = false) :
    Shifts moving l moving' l' := by
  have hsame {s : String} (hexit : l.checkMoveFlag = true → l'.exitnode = l.exitnode) :
      l.OnCount s ↔ l'.OnCount s := by
    unfold Ledger.OnCount
    rw [hflag, hoff]
    refine and_congr_right fun hflag => ?_
    rw [hexit hflag]
  cases h with
  | keeps hexit => exact .of_same fun s => hsame fun _ => hexit
  | sets _ _ haim =>
    refine .of_same fun s => hsame fun hflag => ?_
    obtain ⟨hbuf, hfirst⟩ := hl.aimed hunnamed hflag
    rw [hbuf] at haim
    exact haim.resolve_right hfirst
  | @moves _ oldNum newNum _ _ hcounted hne hfirst hold hnew =>
    obtain ⟨hbuf, -⟩ := hl.aimed hunnamed hcounted
    rw [hbuf] at hne hold ⊢
    have hnew' : (moving.assign l.exitnode (oldNum - 1)).find l'.exitnode = some newNum := by
      rw [StdMap.find_assign, if_neg hne]
      exact hnew
    refine ⟨fun s => ?_, fun s num' hnum' => ?_⟩
    · rw [StdMap.contains_assign hnew', StdMap.contains_assign hold]
    · rw [StdMap.find_assign, StdMap.find_assign] at hnum'
      split_ifs at hnum' with hs hs'
      · cases hnum'
        subst hs
        exact ⟨newNum, hnew, .up (fun hin => hne hin.2.2.symm)
          ⟨hflag.trans hcounted, hoff.trans hon, rfl⟩⟩
      · cases hnum'
        subst hs'
        exact ⟨oldNum, hold, .down ⟨hcounted, hon, rfl⟩ fun hin => hs hin.2.2.symm⟩
      · refine ⟨num', hnum', .same ⟨fun hin => ?_, fun hin => ?_⟩⟩
        · exact absurd hin.2.2.symm hs'
        · exact absurd hin.2.2.symm hs

/-- The search keeps a user's target and the counts in step. -/
theorem Aims.consistent (h : Aims moving l moving' l') (hl : l.Consistent moving)
    (hunnamed : moving.find "" = none) (hflag : l'.checkMoveFlag = l.checkMoveFlag)
    (hoff : l'.alreadycountflag = false) (hkeys : ∀ s, moving'.contains s = moving.contains s) :
    l'.Consistent moving' := by
  have hcanon (hcanon : Canonical l'.exitnode) : l'.exitnode ≠ "first" := by
    intro hfirst
    obtain ⟨num, hnum, -⟩ := hcanon.wire
    have hbad : nodeIDstoi "first" = none := by decide
    rw [hfirst, hbad] at hnum
    cases hnum
  refine ⟨fun hon => ?_, ?_, fun hcounted => ?_⟩
  · rw [hoff] at hon
    cases hon
  · cases h with
    | keeps hexit hbuf =>
      rw [hexit, hbuf]
      exact hl.aim
    | sets hc hbuf => exact .inr ⟨hbuf, hcanon hc⟩
    | moves hc hbuf => exact .inr ⟨hbuf, hcanon hc⟩
  · rw [hflag] at hcounted
    rw [hkeys]
    cases h with
    | keeps hexit =>
      rw [hexit]
      exact hl.counted hcounted
    | sets _ _ haim =>
      obtain ⟨hbuf, hfirst⟩ := hl.aimed hunnamed hcounted
      rw [hbuf] at haim
      rw [haim.resolve_right hfirst]
      exact hl.counted hcounted
    | moves _ _ _ _ _ _ hnew => simp [StdMap.contains, hnew]

end

omit [Zero C] in
theorem Checked.shifts (h : Checked b n b' n') :
    Shifts b.movingUserNum n.ledger b'.movingUserNum n'.ledger := by
  cases h with
  | idle => exact .of_same fun _ => Iff.rfl
  | removes => exact .of_same fun _ => Iff.rfl
  | counts hnum _ hcheck halready =>
    refine .assign hnum rfl (.up (fun hin => ?_) ⟨rfl, halready, rfl⟩)
    rw [hin.1] at hcheck
    cases hcheck
  | discounts hnum _ hcheck halready =>
    refine .assign hnum rfl (.down ⟨hcheck, halready, rfl⟩ fun hin => ?_)
    have hoff : true = false := hin.2.1
    cases hoff

omit [Zero C] in
theorem Checked.consistent (h : Checked b n b' n') (hl : n.ledger.Consistent b.movingUserNum) :
    n'.ledger.Consistent b'.movingUserNum := by
  have hkeys := h.shifts.keys
  obtain ⟨hoff, haim, hin⟩ := hl
  cases h with
  | idle => exact ⟨hoff, haim, hin⟩
  | removes => exact ⟨hoff, haim, hin⟩
  | counts hnum _ _ halready =>
    refine ⟨fun hon => ?_, haim, fun _ => ?_⟩
    · have hon : n.ledger.alreadycountflag = true := hon
      rw [halready] at hon
      cases hon
    · rw [hkeys]
      exact StdMap.contains_iff_mem_keys.mpr (StdMap.mem_keys.mpr ⟨_, hnum⟩)
  | discounts _ hexit hcheck =>
    refine ⟨fun _ => ⟨hcheck, hexit⟩, haim, fun hflag => ?_⟩
    rw [hkeys]
    exact hin hflag

/-! ## Runs -/

namespace World

variable {cfg : UserConfig} {w w' : World C}

/-- How many users are on the count of a shelter. -/
def counted (w : World C) (s : String) : ℕ :=
  countBelow w.size (fun u => (w.nUser u).ledger) (Ledger.OnCount s)

/-- The counts are right. -/
structure Tallied (w : World C) : Prop where
  moving : ∀ s num, w.building.movingUserNum.find s = some num → num.toNat = w.counted s
  users : ∀ u < w.size, (w.nUser u).ledger.Consistent w.building.movingUserNum
  unnamed : 0 < w.size → w.building.movingUserNum.find "" = none

theorem counted_setUser {u : ℕ} {b : Building} {n : MyUser C} (hu : u < w.size)
    (hnum : b.numUsers = w.building.numUsers) (hadd : b.addUsersNum = w.building.addUsersNum)
    (s : String) :
    (w.setUser b u n).counted s + (if (w.nUser u).ledger.OnCount s then 1 else 0) =
      w.counted s + if n.ledger.OnCount s then 1 else 0 := by
  have hsize : (w.setUser b u n).size = w.size := by simp [size, setUser, hnum, hadd]
  have hledgers : (fun v => ((w.setUser b u n).nUser v).ledger) =
      Function.update (fun v => (w.nUser v).ledger) u n.ledger := by
    funext v
    simp only [setUser, Function.update_apply]
    split_ifs <;> rfl
  unfold counted
  rw [hsize, hledgers]
  exact countBelow_update hu n.ledger

/-- One user changes, and the counts with it. -/
theorem Tallied.setUser (h : w.Tallied) (hkept : w.Enrolled) {u : ℕ} {b : Building} {n : MyUser C}
    (hu : u < w.size) (hleaves : Leaves (UInt32.ofNat u) w.building.roll b.roll)
    (hshifts : Shifts w.building.movingUserNum (w.nUser u).ledger b.movingUserNum n.ledger)
    (hn : n.ledger.Consistent b.movingUserNum) : (w.setUser b u n).Tallied where
  moving s num' hnum' := by
    obtain ⟨num, hnum, hshift⟩ := hshifts.counts s num' hnum'
    have hsum := counted_setUser (n := n) hu hleaves.users.1 hleaves.users.2 s
    refine hshift.toNat (h.moving s num hnum) hsum ?_
    have hbound : w.size < UInt32.size := hkept.kept.bound
    rw [← size_setUser (u := u) (n := n) hleaves.users.1 hleaves.users.2] at hbound
    exact countBelow_le.trans_lt hbound
  users := by
    refine forall_setUser (Q := fun _ n => n.ledger.Consistent b.movingUserNum) hleaves.users.1
      hleaves.users.2 (fun v hv => ?_) hn
    obtain ⟨hoff, haim, hcounted⟩ := h.users v hv
    refine ⟨hoff, haim, fun hflag => ?_⟩
    rw [hshifts.keys]
    exact hcounted hflag
  unnamed _ := by
    have hkeys := hshifts.keys ""
    rw [StdMap.contains, StdMap.contains, h.unnamed (Nat.zero_lt_of_lt hu)] at hkeys
    have hnone : b.movingUserNum.find "" = none := by simpa using hkeys
    exact hnone

theorem counted_of_eq (hsize : w'.size = w.size) (hledger : ∀ u, ∃ timer,
    (w'.nUser u).ledger = { (w.nUser u).ledger with humTimer := timer }) (s : String) :
    w'.counted s = w.counted s := by
  unfold counted
  rw [hsize]
  refine countBelow_congr fun u _ => ?_
  obtain ⟨timer, hu⟩ := hledger u
  rw [hu]
  rfl

/-- Events that leave the target and the flags of all users alone leave the counts alone. -/
theorem Tallied.of_eq (h : w.Tallied) (hsize : w'.size = w.size)
    (hmoving : w'.building.movingUserNum = w.building.movingUserNum)
    (hledger : ∀ u, ∃ timer, (w'.nUser u).ledger =
      { (w.nUser u).ledger with humTimer := timer }) : w'.Tallied := by
  refine ⟨fun s num hnum => ?_, fun u hu => ?_, fun hpos => ?_⟩
  · rw [hmoving] at hnum
    rw [counted_of_eq hsize hledger]
    exact h.moving s num hnum
  · rw [hsize] at hu
    obtain ⟨timer, hl⟩ := hledger u
    rw [hl, hmoving]
    obtain ⟨hoff, haim, hin⟩ := h.users u hu
    exact ⟨hoff, haim, hin⟩
  · rw [hmoving]
    exact h.unnamed (hsize ▸ hpos)

/-- The users of an interval are activated: only timers are set. -/
theorem activateReservedAddUsers_spec (now : ℕ) :
    (w.activateReservedAddUsers now).size = w.size ∧
    (w.activateReservedAddUsers now).building.movingUserNum = w.building.movingUserNum ∧
    ∀ u, ∃ timer, ((w.activateReservedAddUsers now).nUser u).ledger =
      { (w.nUser u).ledger with humTimer := timer } := by
  refine activateReservedAddUsers_induction
    (P := fun w' => w'.size = w.size ∧ w'.building.movingUserNum = w.building.movingUserNum ∧
      ∀ u, ∃ timer, (w'.nUser u).ledger = { (w.nUser u).ledger with humTimer := timer })
    now ⟨rfl, rfl, fun u => ⟨_, rfl⟩⟩ fun w' hw' _ => ?_
  obtain ⟨hsize, hmoving, hledger⟩ := hw'
  refine ⟨hsize, hmoving, fun u => ?_⟩
  obtain ⟨timer, hu⟩ := hledger u
  rw [ledger_activate, hu]
  split_ifs <;> exact ⟨_, rfl⟩

theorem Started.tallied (h : w.Started) : w.Tallied := by
  have hzero {s : String} {num : UInt32} (hnum : w.building.movingUserNum.find s = some num) :
      num = 0 ∧ ∃ cap, (s, cap) ∈ w.building.exitNodes.entries := by
    rw [h.movingUserNum, initialMoving, StdMap.find_ofList] at hnum
    obtain ⟨e, he, heq⟩ := List.mem_map.mp (StdMap.mem_of_lookupL hnum)
    cases heq
    exact ⟨rfl, e.2, he⟩
  have hnew {u : ℕ} (hu : u < w.size) : (w.nUser u).ledger.checkMoveFlag ≠ true := by
    intro hflag
    have hflag : (w.nUser u).user.checkMoveFlag = true := hflag
    rw [(h.fresh u hu).checkMoveFlag] at hflag
    cases hflag
  refine ⟨fun s num hnum => ?_, fun u hu => ⟨?_, .inl ⟨?_, ?_⟩, ?_⟩, fun hpos => ?_⟩
  · rw [(hzero hnum).1]
    refine (countBelow_eq_zero fun u hu hin => ?_).symm
    exact hnew hu hin.1
  · intro hoff
    have hoff : (w.nUser u).user.alreadycountflag = true := hoff
    rw [(h.fresh u hu).alreadycountflag] at hoff
    cases hoff
  · exact (h.fresh u hu).targetNodeBuf
  · exact (h.fresh u hu).exitnode
  · exact fun hflag => absurd hflag (hnew hu)
  · rw [Option.eq_none_iff_forall_ne_some]
    intro num hnum
    obtain ⟨-, cap, hcap⟩ := hzero hnum
    have hexits := (h.fresh 0 hpos).exits
    obtain ⟨l, l', hstep⟩ := foldlM_mem hexits hcap
    simp only [Option.bind_eq_bind, Option.bind_eq_some_iff] at hstep
    obtain ⟨key, hkey, -⟩ := hstep
    have hbad : nodeIDstoi "" = none := by decide
    rw [hbad] at hkey
    cases hkey

theorem Tallied.step {e : Event C} (h : w.Tallied) (hj : w.Journeys)
    (hcounted : CountedFirst cfg w e) (hstep : w.step cfg e = some w') : w'.Tallied := by
  cases e with
  | addUsers now =>
    cases hstep
    obtain ⟨hsize, hmoving, hledger⟩ := activateReservedAddUsers_spec (w := w) now
    exact h.of_eq hsize hmoving hledger
  | move u now speed =>
    obtain ⟨hu, htimer, b, n, hmove, rfl⟩ := step_move hstep
    obtain ⟨n₁, front, id, hbegun, hmoved⟩ := handleUserMovement_spec hmove
    have htravels := hj.travels hu htimer
    have hid : n₁.ledger.userId = UInt32.ofNat u := by
      rw [hbegun.ledger]
      exact hj.enrolled.ids u hu
    have hleaves := hmoved.leaves
    rw [hid] at hleaves
    obtain ⟨hflag, hoff⟩ := (handleUserMovement_ledger hmove).flags
    have haims : Aims w.building.movingUserNum (w.nUser u).ledger b.movingUserNum n.ledger := by
      refine (hmoved.aims (hcounted _ hbegun.found)).of_eq ?_ ?_ ?_ rfl rfl <;>
        rw [hbegun.ledger] <;> rfl
    have husers := h.users u hu
    have hunnamed := h.unnamed (Nat.zero_lt_of_lt hu)
    have hon : (w.nUser u).ledger.alreadycountflag = false := by
      by_contra hout
      have hexit := (husers.off (by simpa using hout)).2
      rw [htravels.2] at hexit
      cases hexit
    have hshifts := haims.shifts husers hunnamed hflag hoff hon
    exact h.setUser hj.enrolled hu hleaves hshifts
      (haims.consistent husers hunnamed hflag (hoff.trans hon) hshifts.keys)
  | checkMovingUserNum u =>
    obtain ⟨hu, -, b, n, hchecked, rfl⟩ := step_checkMovingUserNum hstep
    have hshifts := hchecked.shifts
    have hn := hchecked.consistent (h.users u hu)
    cases hchecked <;> exact h.setUser hj.enrolled hu (.stays _) hshifts hn
  | hear u news =>
    obtain ⟨hu, rfl⟩ := step_hear hstep
    exact h.setUser hj.enrolled hu (.stays _) (.of_same fun _ => Iff.rfl) (h.users u hu)
  | block pos flag =>
    cases hstep
    exact ⟨h.moving, h.users, h.unnamed⟩

theorem tallied_of_reachable (h : ((evacuation cfg).restrict (CountedFirst cfg)).Reachable w) :
    w.Journeys ∧ w.Tallied :=
  h.invariant (P := fun w => w.Journeys ∧ w.Tallied)
    (fun w (hw : w.Started) => ⟨hw.journeys, hw.tallied⟩) fun _ _ _ hw hstep =>
      ⟨hw.1.step hstep.2, hw.2.step hw.1 hstep.1 hstep.2⟩

/-! ## The property -/

/-- Every count is the number of users that are counted, have not finished, and head for the
shelter. -/
def MovingExact (w : World C) : Prop :=
  ∀ s num, w.building.movingUserNum.find s = some num →
    num.toNat = countBelow w.size (fun u => (w.nUser u).ledger) (Ledger.CountedMoving s)

/-- No count goes down from zero, or up to it. -/
def NoWrap (w w' : World C) : Prop :=
  ∀ s num num', w.building.movingUserNum.find s = some num →
    w'.building.movingUserNum.find s = some num' →
      num.toNat ≤ num'.toNat + 1 ∧ num'.toNat ≤ num.toNat + 1

theorem Tallied.exact_iff (h : w.Tallied) :
    w.MovingExact ↔ ∀ u < w.size, ¬ (w.nUser u).ledger.Awaits := by
  have hsub {s : String} {u : ℕ} (hu : u < w.size)
      (hin : (w.nUser u).ledger.CountedMoving s) : (w.nUser u).ledger.OnCount s := by
    obtain ⟨hcheck, hexit, hs⟩ := hin
    refine ⟨hcheck, ?_, hs⟩
    by_contra hoff
    have hdone := ((h.users u hu).off (by simpa using hoff)).2
    rw [hexit] at hdone
    cases hdone
  constructor
  · rintro hexact u hu ⟨hcheck, hexit, hon⟩
    have hin := (h.users u hu).counted hcheck
    obtain ⟨num, hnum⟩ := Option.isSome_iff_exists.mp hin
    have heq := (hexact _ _ hnum).symm.trans (h.moving _ _ hnum)
    have hback := (countBelow_eq_iff fun _ hv => hsub hv).mp heq u hu ⟨hcheck, hon, rfl⟩
    have hgoing := hback.2.1
    rw [hexit] at hgoing
    cases hgoing
  · intro hnone s num hnum
    rw [h.moving s num hnum]
    refine ((countBelow_eq_iff fun _ hv => hsub hv).mpr fun u hu hin => ?_).symm
    obtain ⟨hcheck, hon, hs⟩ := hin
    refine ⟨hcheck, ?_, hs⟩
    by_contra hexit
    exact hnone u hu ⟨hcheck, by simpa using hexit, hon⟩

/-- One user changes, so no count changes by more than one. -/
theorem counted_step {e : Event C} (hstep : w.step cfg e = some w') (s : String) :
    w.counted s ≤ w'.counted s + 1 ∧ w'.counted s ≤ w.counted s + 1 := by
  have hone {u : ℕ} {b : Building} {n : MyUser C} (hu : u < w.size)
      (hnum : b.numUsers = w.building.numUsers)
      (hadd : b.addUsersNum = w.building.addUsersNum) :
      w.counted s ≤ (w.setUser b u n).counted s + 1 ∧
        (w.setUser b u n).counted s ≤ w.counted s + 1 := by
    have hsum := counted_setUser (n := n) hu hnum hadd s
    split_ifs at hsum <;> omega
  cases e with
  | addUsers now =>
    cases hstep
    obtain ⟨hsize, -, hledger⟩ := activateReservedAddUsers_spec (w := w) now
    rw [counted_of_eq hsize hledger]
    exact ⟨Nat.le_succ _, Nat.le_succ _⟩
  | move u now speed =>
    obtain ⟨hu, -, b, n, hmove, rfl⟩ := step_move hstep
    obtain ⟨n₁, front, id, -, hmoved⟩ := handleUserMovement_spec hmove
    exact hone hu hmoved.leaves.users.1 hmoved.leaves.users.2
  | checkMovingUserNum u =>
    obtain ⟨hu, -, b, n, hchecked, rfl⟩ := step_checkMovingUserNum hstep
    cases hchecked <;> exact hone hu rfl rfl
  | hear u news =>
    obtain ⟨hu, rfl⟩ := step_hear hstep
    exact hone hu rfl rfl
  | block pos flag =>
    cases hstep
    exact ⟨Nat.le_succ _, Nat.le_succ _⟩

end World

/-- As long as no user is sent from one shelter to another before it is counted, the counts are
those of the users that are counted and not taken off yet, none goes below zero, and they are those
of the users that have not finished exactly when no finished user waits to be taken off. -/
theorem movingUserNum_exact_iff {cfg : UserConfig} {w : World C}
    (h : ((evacuation cfg).restrict (CountedFirst cfg)).Reachable w) :
    (w.MovingExact ↔ ∀ u < w.size, ¬ (w.nUser u).ledger.Awaits) ∧
      (∀ s num, w.building.movingUserNum.find s = some num → num.toNat = w.counted s) ∧
      ∀ e w', CountedFirst cfg w e → w.step cfg e = some w' → w.NoWrap w' := by
  obtain ⟨hj, htallied⟩ := tallied_of_reachable h
  refine ⟨htallied.exact_iff, htallied.moving, fun e w' hcounted hstep s num num' hnum hnum' => ?_⟩
  rw [htallied.moving s num hnum, (htallied.step hj hcounted hstep).moving s num' hnum']
  exact counted_step hstep s

/-- Two users are counted, and one of them finishes and waits to be taken off. -/
theorem movingUserNum_exact_iff_sample : ∃ w : World ℕ, ((evacuation sampleSettings).restrict
    (CountedFirst sampleSettings)).Reachable w ∧
      w.building.movingUserNum.find (nodeID 2) = some 2 ∧ w.counted (nodeID 2) = 2 := by
  have hrun : (System.exec (World.step sampleSettings) (CountedFirst sampleSettings) sampleEvacuation
      [.move 0 1000000000 1, .move 1 1000000000 1, .checkMovingUserNum 0, .checkMovingUserNum 1,
        .move 0 11000000000 1]).map (fun w => w.building.movingUserNum.find (nodeID 2)) =
        some (some 2) := by decide +kernel
  obtain ⟨w, hw, hview⟩ := sampleEvacuation_reachable hrun
  exact ⟨w, hw, hview, ((movingUserNum_exact_iff hw).2.1 _ _ hview).symm⟩

/-- A user comes to a full shelter and goes on to the other one before it is counted: the count
of the first shelter goes down from zero. -/
theorem movingUserNum_wraps : ¬ ∀ w : World ℕ, (evacuation sampleSettings).Reachable w →
    w.MovingExact := by
  intro hexact
  have hrun : (System.exec (World.step sampleSettings) (fun _ _ => True) sampleEvacuation
      [.move 0 1000000000 1, .move 1 1000000000 1, .move 0 11000000000 1,
        .move 1 11000000000 1]).map
      (fun w => (w.building.movingUserNum.find (nodeID 2), w.size)) =
        some (some 4294967295, 2) := by decide +kernel
  obtain ⟨w, hw, hview⟩ := sampleEvacuation_reachable hrun
  obtain ⟨hnum, hsize⟩ := Prod.mk.inj hview
  have hcount : 4294967295 = countBelow w.size (fun u => (w.nUser u).ledger)
      (Ledger.CountedMoving (nodeID 2)) := hexact w hw.of_restrict _ _ hnum
  have hle : countBelow w.size (fun u => (w.nUser u).ledger)
      (Ledger.CountedMoving (nodeID 2)) ≤ w.size := countBelow_le
  omega

end Ns3.Ferry2
