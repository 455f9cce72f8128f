import Ns3.Ferry2.ShelterBroadcast
import Ns3.Lib.Fold
import Ns3.Lib.Run
import Mathlib.Tactic.Linarith

/-!
# How fast shelters fill up

A node that accepts newer news of a shelter computes from it, and from what it
held before, how many people a second the shelter takes in. `SetIncreaseRate`
stores the first such rate and no later one, and the difference of the two
counts wraps around when the shelter has got more room. A history of what was
accepted is kept beside the node; no code reads it.
-/

namespace Ns3.Ferry2

open Ns3.Lib

/-- News of a shelter: the room left in it, and when that was so. -/
abbrev Observation := String × (UInt32 × UInt32)

/-- The people a second a shelter took in between two observations. -/
def ratePerSecond (old new : UInt32 × UInt32) : ℚ :=
  Format.binary64.rnd (((old.1.toNat : ℤ) - new.1.toNat : ℤ) / ((new.2.toNat : ℤ) - old.2.toNat : ℤ))

/-- The rate of the two latest of some observations. -/
def lastRate (l : List (UInt32 × UInt32)) : Option ℚ := do
  let new ← l.getLast?
  let old ← l.dropLast.getLast?
  return ratePerSecond old new

theorem lastRate_concat {l : List (UInt32 × UInt32)} {old : UInt32 × UInt32}
    (h : l.getLast? = some old) (new : UInt32 × UInt32) :
    lastRate (l ++ [new]) = some (ratePerSecond old new) := by
  unfold lastRate
  rw [List.getLast?_concat, List.dropLast_concat, h]
  rfl

/-! ## The rate in `uint32_t` -/

theorem rnd_nonpos {q : ℚ} (h : q < 0) : Format.binary64.rnd q ≤ 0 := by
  have hpos := Format.rnd_nonneg (F := Format.binary64) (q := -q) (by linarith)
  unfold Format.rnd at hpos ⊢
  rw [if_neg (by linarith)] at hpos
  rw [if_pos h]
  linarith

/-- A quotient of two `uint32_t` above zero is a `double` above zero. -/
theorem rnd_div_pos {a b : ℕ} (ha : 0 < a) (hb : 0 < b) (hlt : b < 2 ^ 32) :
    0 < Format.binary64.rnd (a / b) := by
  have hleast : 0 < Format.binary64.rnd (1 / 4294967296) := by decide +kernel
  refine hleast.trans_le (Format.rnd_mono_of_nonneg (by norm_num) ?_)
  have ha' : (1 : ℚ) ≤ a := by exact_mod_cast ha
  have hb' : (b : ℚ) ≤ 4294967296 := by exact_mod_cast hlt.le
  have hb₀ : (0 : ℚ) < b := by exact_mod_cast hb
  rw [div_le_div_iff₀ (by norm_num) hb₀]
  nlinarith

/-- For a newer observation the rate is right unless the shelter has got more room. -/
theorem increaseRateOf_eq_iff {old new : UInt32 × UInt32} (h : old.2 < new.2) :
    increaseRateOf old new = ratePerSecond old new ↔ new.1 ≤ old.1 := by
  have htime : (new.2 - old.2).toNat = new.2.toNat - old.2.toNat :=
    UInt32.toNat_sub_of_le _ _ h.le
  have hlt : old.2.toNat < new.2.toNat := h
  have hnew := new.2.toNat_lt
  unfold increaseRateOf ratePerSecond
  rw [htime]
  have hden : (((new.2.toNat : ℤ) - old.2.toNat : ℤ) : ℚ) = ((new.2.toNat - old.2.toNat : ℕ) : ℚ) := by
    rw [Nat.cast_sub hlt.le]
    push_cast
    rfl
  rw [hden]
  constructor
  · intro heq
    by_contra hgt
    have hroom : old.1.toNat < new.1.toNat := not_le.mp hgt
    have hwrap : 0 < (old.1 - new.1).toNat := by
      rw [UInt32.toNat_sub]
      have := new.1.toNat_lt
      omega
    have hpos := rnd_div_pos hwrap (Nat.sub_pos_of_lt hlt) (by omega)
    rw [heq] at hpos
    refine absurd hpos (not_lt.mpr (rnd_nonpos (div_neg_of_neg_of_pos ?_ ?_)))
    · have : (old.1.toNat : ℤ) - new.1.toNat < 0 := by omega
      exact_mod_cast this
    · exact_mod_cast Nat.sub_pos_of_lt hlt
  · intro hle
    have hroom : new.1.toNat ≤ old.1.toNat := hle
    rw [UInt32.toNat_sub_of_le _ _ hle, Nat.cast_sub hroom]
    push_cast
    rfl

/-! ## One observation -/

/-- What a node stores of the shelters. -/
structure Board where
  info : StdMap String (UInt32 × UInt32)
  rates : StdMap String ℚ

/-- A newer observation replaces the one stored; a rate is only stored where there is none. -/
def Board.observe (b : Board) (e : Observation) : Board :=
  match b.info.find e.1 with
  | some old =>
    if old.2 < e.2.2 then ⟨b.info.assign e.1 e.2, b.rates.insert e.1 (increaseRateOf old e.2)⟩
    else b
  | none => b

/-- An accepted observation is the first of its shelter and finds no more room than there was, or
the rate stored is its rate as well. -/
def Board.Even (b : Board) (e : Observation) : Prop :=
  ∀ old, b.info.find e.1 = some old → old.2 < e.2.2 →
    b.rates.find e.1 = none ∧ e.2.1 ≤ old.1 ∨ b.rates.find e.1 = some (ratePerSecond old e.2)

/-- All observations of a message are, each when its turn comes. -/
def Board.AllEven (b : Board) : List Observation → Prop
  | [] => True
  | e :: es => b.Even e ∧ (b.observe e).AllEven es

/-- A board, and all that was accepted so far for each shelter. -/
structure Watch where
  board : Board
  seen : String → List (UInt32 × UInt32)

namespace Watch

def observe (w : Watch) (e : Observation) : Watch :=
  match w.board.info.find e.1 with
  | some old =>
    if old.2 < e.2.2 then ⟨w.board.observe e, Function.update w.seen e.1 (w.seen e.1 ++ [e.2])⟩
    else w
  | none => w

/-- What is stored of a shelter is what was accepted last. -/
def Sound (w : Watch) : Prop := ∀ id, w.board.info.find id = (w.seen id).getLast?

/-- The rate stored of a shelter is that of the two latest accepted observations. -/
def Right (w : Watch) : Prop := ∀ id, w.board.rates.find id = lastRate (w.seen id)

variable {w : Watch} {e : Observation}

theorem observe_of_newer {old : UInt32 × UInt32} (h : w.board.info.find e.1 = some old)
    (hlt : old.2 < e.2.2) :
    w.observe e = ⟨⟨w.board.info.assign e.1 e.2, w.board.rates.insert e.1 (increaseRateOf old e.2)⟩,
      Function.update w.seen e.1 (w.seen e.1 ++ [e.2])⟩ := by
  unfold observe Board.observe
  rw [h]
  dsimp only
  rw [if_pos hlt, if_pos hlt]

theorem observe_of_not_newer (h : ¬ ∃ old, w.board.info.find e.1 = some old ∧ old.2 < e.2.2) :
    w.observe e = w ∧ w.board.observe e = w.board := by
  unfold observe Board.observe
  cases hfind : w.board.info.find e.1 with
  | none => exact ⟨rfl, rfl⟩
  | some old =>
    dsimp only
    rw [if_neg fun hlt => h ⟨old, hfind, hlt⟩, if_neg fun hlt => h ⟨old, hfind, hlt⟩]
    exact ⟨rfl, rfl⟩

theorem board_observe (w : Watch) (e : Observation) : (w.observe e).board = w.board.observe e := by
  by_cases h : ∃ old, w.board.info.find e.1 = some old ∧ old.2 < e.2.2
  · obtain ⟨old, hold, hlt⟩ := h
    unfold observe
    rw [hold]
    dsimp only
    rw [if_pos hlt]
  · obtain ⟨hw, hb⟩ := observe_of_not_newer h
    rw [hw, hb]

theorem Sound.observe (h : w.Sound) (e : Observation) : (w.observe e).Sound := by
  by_cases hnew : ∃ old, w.board.info.find e.1 = some old ∧ old.2 < e.2.2
  · obtain ⟨old, hold, hlt⟩ := hnew
    rw [observe_of_newer hold hlt]
    intro id
    dsimp only
    rw [StdMap.find_assign, Function.update_apply]
    split_ifs with hid
    · rw [List.getLast?_concat]
    · exact h id
  · rw [(observe_of_not_newer hnew).1]
    exact h

/-- An observation leaves the rates right exactly if it is even. -/
theorem right_observe_iff (hsound : w.Sound) (hright : w.Right) :
    (w.observe e).Right ↔ w.board.Even e := by
  by_cases hnew : ∃ old, w.board.info.find e.1 = some old ∧ old.2 < e.2.2
  · obtain ⟨old, hold, hlt⟩ := hnew
    have hlast : lastRate (w.seen e.1 ++ [e.2]) = some (ratePerSecond old e.2) :=
      lastRate_concat (by rw [← hsound, hold]) e.2
    have hothers : (w.observe e).Right ↔
        (w.board.rates.insert e.1 (increaseRateOf old e.2)).find e.1 =
          some (ratePerSecond old e.2) := by
      rw [observe_of_newer hold hlt]
      constructor
      · intro h
        have := h e.1
        dsimp only at this
        rwa [Function.update_self, hlast] at this
      · intro h id
        dsimp only
        by_cases hid : id = e.1
        · rw [hid, Function.update_self, hlast, h]
        · rw [Function.update_of_ne hid, StdMap.find_insert, if_neg hid]
          exact hright id
    rw [hothers, StdMap.find_insert, if_pos rfl]
    have heven : w.board.Even e ↔ w.board.rates.find e.1 = none ∧ e.2.1 ≤ old.1 ∨
        w.board.rates.find e.1 = some (ratePerSecond old e.2) := by
      unfold Board.Even
      rw [hold]
      constructor
      · intro h
        exact h old rfl hlt
      · intro h old' hold' _
        cases hold'
        exact h
    rw [heven]
    cases hrate : w.board.rates.find e.1 with
    | none => simp [increaseRateOf_eq_iff hlt]
    | some r => simp
  · rw [(observe_of_not_newer hnew).1]
    refine iff_of_true hright fun old hold hlt => ?_
    exact absurd ⟨old, hold, hlt⟩ hnew

/-- Even observations one after the other. -/
theorem Right.foldl {es : List Observation} (hsound : w.Sound) (hright : w.Right)
    (h : w.board.AllEven es) :
    (es.foldl Watch.observe w).Sound ∧ (es.foldl Watch.observe w).Right := by
  induction es generalizing w with
  | nil => exact ⟨hsound, hright⟩
  | cons e es ih =>
    obtain ⟨heven, hes⟩ := h
    rw [← board_observe] at hes
    exact ih (hsound.observe e) ((right_observe_iff hsound hright).mpr heven) hes

theorem board_foldl (es : List Observation) (w : Watch) :
    (es.foldl Watch.observe w).board = es.foldl Board.observe w.board := by
  induction es generalizing w with
  | nil => rfl
  | cons e es ih => rw [List.foldl_cons, List.foldl_cons, ih, board_observe]

end Watch

/-! ## The two ways in -/

variable {E : Type} {cfg : Config} {ops : UserOps E} {now : ℕ} {n n' : DtnNode E}
  {out : List Datagram}

def DtnNode.board (n : DtnNode E) : Board := ⟨n.aoiExitinfo, n.increaseRate⟩

theorem board_sendHello (h : sendHello cfg now n = some (n', out)) : n'.board = n.board := by
  unfold sendHello at h
  dsimp only at h
  split_ifs at h
  · cases h
    rfl
  · obtain ⟨packet, -, h⟩ := Option.bind_eq_some_iff.mp h
    cases h
    rfl

theorem board_updateShelterData {data : ShelterInfo}
    (h : updateShelterData cfg now n data = some (n', out)) :
    n'.board = n.board.observe (nodeID data.shelterID.toNat, (data.exitNum, data.time)) := by
  obtain ⟨old, hold, h⟩ := Option.bind_eq_some_iff.mp h
  have hfind : n.board.info.find (nodeID data.shelterID.toNat) = some old := hold
  unfold Board.observe
  rw [hfind]
  dsimp only at h ⊢
  split_ifs at h ⊢ with hnew hquick
  · rw [board_sendHello h]
    unfold DtnNode.board
    rw [StdMap.insert_erase]
  · cases h
    unfold DtnNode.board
    rw [StdMap.insert_erase]
  · cases h
    rfl

theorem board_storeBlocked {st st' : RecvState E} {id : String} {recv : Binary32}
    (h : storeBlocked ops st id recv = some st') : st'.node.board = st.node.board := by
  obtain ⟨node, hnode, h⟩ := Option.bind_eq_some_iff.mp h
  cases h
  unfold updateGraphInfoReceivedPacket at hnode
  split_ifs at hnode
  · cases hnode
    rfl
  · obtain ⟨user, -, hnode⟩ := Option.bind_eq_some_iff.mp hnode
    cases hnode
    rfl

theorem board_acceptBlocked {st st' : RecvState E} {id : String} {recv : Binary32}
    (h : acceptBlocked cfg ops now st id recv = some st') : st'.node.board = st.node.board := by
  unfold acceptBlocked at h
  split_ifs at h
  · cases h
    rfl
  · exact board_storeBlocked h

theorem board_recvBlockedInfo {junk : String → Binary32} {st st' : RecvState E}
    {e : String × Binary32} (h : recvBlockedInfo cfg ops now junk st e = some st') :
    st'.node.board = st.node.board := by
  have hcompare : ∀ (st₁ : RecvState E) (old : Binary32), st₁.node.board = st.node.board →
      (if old < e.2 then acceptBlocked cfg ops now st₁ e.1 e.2 else some st₁) = some st' →
        st'.node.board = st.node.board := by
    intro st₁ old hst₁ h
    split_ifs at h
    · rw [board_acceptBlocked h, hst₁]
    · cases h
      exact hst₁
  unfold recvBlockedInfo at h
  dsimp only at h
  cases hold : st.oldAoIblockedinfo.find e.1 with
  | some old =>
    rw [hold] at h
    exact hcompare st old rfl h
  | none =>
    rw [hold] at h
    obtain ⟨st₁, h₁, h⟩ := Option.bind_eq_some_iff.mp h
    exact hcompare st₁ (junk e.1) (board_acceptBlocked h₁) h

/-- The loop over the received counts goes through a snapshot of the counts stored. -/
theorem board_recvExitInfo {st st' : RecvState E} {e : Observation}
    (hst : st.oldAoIexitinfo = st.node.aoiExitinfo) (h : recvExitInfo st e = some st') :
    st'.oldAoIexitinfo = st'.node.aoiExitinfo ∧ st'.node.board = st.node.board.observe e := by
  obtain ⟨old, hold, h⟩ := Option.bind_eq_some_iff.mp h
  have hfind : st.node.board.info.find e.1 = some old := by
    rw [← hold, hst]
    rfl
  unfold Board.observe
  rw [hfind]
  dsimp only at h ⊢
  split_ifs at h ⊢ with hnew
  · cases h
    refine ⟨rfl, ?_⟩
    unfold DtnNode.board
    dsimp only
    rw [StdMap.insert_erase, hst]
  · cases h
    exact ⟨hst, rfl⟩

theorem board_recvExitInfo_fold {es : List Observation} {st st' : RecvState E}
    (hst : st.oldAoIexitinfo = st.node.aoiExitinfo) (h : es.foldlM recvExitInfo st = some st') :
    st'.node.board = es.foldl Board.observe st.node.board := by
  induction es generalizing st with
  | nil =>
    cases h
    rfl
  | cons e es ih =>
    rw [List.foldlM_cons, Option.bind_eq_bind, Option.bind_eq_some_iff] at h
    obtain ⟨st₁, h₁, h⟩ := h
    obtain ⟨hst₁, hboard⟩ := board_recvExitInfo hst h₁
    rw [ih hst₁ h, hboard, List.foldl_cons]

/-- A message that may hold news of shelters. -/
inductive News
  | shelterData (now : ℕ) (junk : UInt32) (p : List UInt8)
  | userData (now : ℕ) (junk : RecvJunk) (p : List UInt8)

def News.handle (cfg : Config) (ops : UserOps E) (n : DtnNode E) : News → Option (Outcome E)
  | .shelterData now junk p => recvShelterDataAsBroadcast cfg now junk n p
  | .userData now junk p => recvUserDataAsUnicast cfg ops now junk n p

/-- The news of shelters in a message, in the order the node comes to them. -/
def News.observations (cfg : Config) (n : DtnNode E) : News → List Observation
  | .shelterData now junk p =>
    match checkShelterData now junk n p with
    | some (false, data, _) => [(nodeID data.shelterID.toNat, (data.exitNum, data.time))]
    | _ => []
  | .userData _ junk p =>
    match removeUserData cfg.sendHopFlag junk.data p with
    | some ((data, _), _) => data.aoiExitinfo.entries
    | none => []

/-- A message acts on the board as its news do, one after the other. -/
theorem board_handle {e : News} (h : e.handle cfg ops n = some (n', out)) :
    n'.board = (e.observations cfg n).foldl Board.observe n.board := by
  cases e with
  | shelterData now junk p =>
    obtain ⟨⟨dup, data, n₁⟩, hcheck, h⟩ := Option.bind_eq_some_iff.mp h
    have hsame : n₁.board = n.board := by
      obtain ⟨y, -, hcheck⟩ := Option.bind_eq_some_iff.mp hcheck
      cases hcheck
      rfl
    unfold News.observations
    dsimp only
    rw [hcheck]
    dsimp only at h
    cases dup with
    | true =>
      rw [if_pos rfl] at h
      cases h
      exact hsame
    | false =>
      rw [if_neg (by simp)] at h
      dsimp only
      rw [List.foldl_cons, List.foldl_nil, ← hsame]
      exact board_updateShelterData h
  | userData now junk p =>
    obtain ⟨⟨⟨data, hop⟩, rest⟩, hread, h⟩ := Option.bind_eq_some_iff.mp h
    obtain ⟨st₁, h₁, h⟩ := Option.bind_eq_some_iff.mp h
    obtain ⟨st₂, h₂, h⟩ := Option.bind_eq_some_iff.mp h
    unfold News.observations
    dsimp only
    rw [hread]
    dsimp only at h₁ h₂ h ⊢
    have hexit := board_recvExitInfo_fold (by exact rfl) h₁
    have hblocked : st₂.node.board = st₁.node.board :=
      foldlM_fixed (g := fun st : RecvState E => st.node.board)
        (fun _ _ _ => board_recvBlockedInfo) h₂
    have hboth : st₂.node.board = data.aoiExitinfo.entries.foldl Board.observe n.board := by
      rw [hblocked, hexit]
      rfl
    split_ifs at h
    · rw [board_sendHello h, ← hboth]
      rfl
    · cases h
      exact hboth

/-! ## Runs -/

/-- A node, and what it has accepted of each shelter since it was set up. -/
structure Watched (E : Type) where
  node : DtnNode E
  seen : String → List (UInt32 × UInt32)

def Watched.watch (s : Watched E) : Watch := ⟨s.node.board, s.seen⟩

def Watched.hear (cfg : Config) (ops : UserOps E) (s : Watched E) (e : News) :
    Option (Watched E) := do
  let (n, _) ← e.handle cfg ops s.node
  return ⟨n, ((e.observations cfg s.node).foldl Watch.observe s.watch).seen⟩

/-- What happens to a node: a message, or a change of anything but its board. -/
inductive Happening (E : Type)
  | news (e : News)
  | change (n' : DtnNode E)

/-- A node is set up with a count for each shelter, and with no rates. -/
def shelterNews (cfg : Config) (ops : UserOps E) : System (Watched E) (Happening E) where
  init s := s.node.increaseRate = .empty ∧ ∀ id, s.seen id = (s.node.aoiExitinfo.find id).toList
  step s e s' := match e with
    | .news e => s.hear cfg ops e = some s'
    | .change n' => n'.board = s.node.board ∧ s' = ⟨n', s.seen⟩

/-- The news of shelters in the message are even. -/
def Watched.AllEven (cfg : Config) (s : Watched E) : Happening E → Prop
  | .news e => s.node.board.AllEven (e.observations cfg s.node)
  | .change _ => True

theorem watch_hear {s s' : Watched E} {e : News} (h : s.hear cfg ops e = some s') :
    s'.watch = (e.observations cfg s.node).foldl Watch.observe s.watch := by
  obtain ⟨⟨n, out⟩, hn, h⟩ := Option.bind_eq_some_iff.mp h
  cases h
  unfold Watched.watch
  dsimp only
  rw [board_handle hn]
  have hboard := Watch.board_foldl (e.observations cfg s.node) s.watch
  exact congrArg (fun b => Watch.mk b _) hboard.symm

/-- While all news are even, every rate is that of the two latest accepted observations. -/
theorem rates_right_of_reachable {s : Watched E}
    (h : ((shelterNews cfg ops).restrict (Watched.AllEven cfg)).Reachable s) (id : String) :
    s.node.increaseRate.find id = lastRate (s.seen id) := by
  have hinv : s.watch.Sound ∧ s.watch.Right := by
    refine h.invariant (P := fun s => s.watch.Sound ∧ s.watch.Right) (fun s hs => ?_) ?_
    · obtain ⟨hrates, hseen⟩ := hs
      refine ⟨fun id => ?_, fun id => ?_⟩
      · have hid := hseen id
        unfold Watched.watch DtnNode.board
        dsimp only
        rw [hid]
        cases s.node.aoiExitinfo.find id <;> rfl
      · have hid := hseen id
        unfold Watched.watch DtnNode.board
        dsimp only
        rw [hid, hrates]
        cases s.node.aoiExitinfo.find id <;> rfl
    · rintro s e s' ⟨hsound, hright⟩ ⟨heven, hstep⟩
      cases e with
      | news e =>
        rw [watch_hear hstep]
        exact Watch.Right.foldl hsound hright heven
      | change n' =>
        obtain ⟨hboard, rfl⟩ := hstep
        unfold Watched.watch at hsound hright ⊢
        dsimp only
        rw [hboard]
        exact ⟨hsound, hright⟩
  exact hinv.2 id

/-! ## Two broadcasts of one shelter -/

instance (b : Board) (e : Observation) : Decidable (b.Even e) :=
  match h : b.info.find e.1 with
  | none => isTrue fun old hold => by
      rw [h] at hold
      cases hold
  | some old =>
    decidable_of_iff (old.2 < e.2.2 → b.rates.find e.1 = none ∧ e.2.1 ≤ old.1 ∨
        b.rates.find e.1 = some (ratePerSecond old e.2))
      ⟨fun hold old' hold' => by
        rw [h] at hold'
        cases hold'
        exact hold, fun hall => hall old h⟩

instance Board.decidableAllEven (b : Board) : (es : List Observation) → Decidable (b.AllEven es)
  | [] => isTrue trivial
  | e :: es =>
    have := Board.decidableAllEven (b.observe e) es
    inferInstanceAs (Decidable (b.Even e ∧ (b.observe e).AllEven es))

def sampleWatched : Watched Unit where
  node := sampleNode .evcUser 0x0a000001 0
  seen id := ((sampleNode .evcUser 0x0a000001 0).aoiExitinfo.find id).toList

/-- A broadcast of shelter 10004 with `room` places left at the second `time`. -/
def sampleCount (junk : UInt32) (room time : UInt8) : News :=
  .shelterData 0 junk [0x14, 0x27, 0, 0, room, 0, 0, 0, time, 0, 0, 0]

/-- A user without a graph. -/
def graphless : UserOps Unit where
  updateGraphInfo u _ := some u
  changePatrolRoute u _ _ := some u

def sampleQuiet : Config := ⟨false, false, 60, false, 0⟩

instance (cfg : Config) : DecidableRel fun (s : Watched E) (e : Happening E) => s.AllEven cfg e
  | s, .news e => inferInstanceAs (Decidable (s.node.board.AllEven (e.observations cfg s.node)))
  | _, .change _ => isTrue trivial

def Watched.hearNews (cfg : Config) (ops : UserOps E) (s : Watched E) :
    Happening E → Option (Watched E)
  | .news e => s.hear cfg ops e
  | .change _ => none

theorem step_of_hearNews {s s' : Watched E} {e : Happening E}
    (h : s.hearNews cfg ops e = some s') : (shelterNews cfg ops).step s e s' := by
  cases e with
  | news e => exact h
  | change n' => cases h

theorem sampleWatched_init : (shelterNews sampleQuiet graphless).init sampleWatched :=
  ⟨rfl, fun _ => rfl⟩

/-- One person every five seconds. -/
theorem rates_right_of_reachable_sample : ∃ s : Watched Unit,
    ((shelterNews sampleQuiet graphless).restrict (Watched.AllEven sampleQuiet)).Reachable s ∧
      s.seen (nodeID 10004) = [(100, 0), (99, 5), (98, 10)] ∧
        s.node.increaseRate.find (nodeID 10004) = lastRate (s.seen (nodeID 10004)) := by
  have hrun : (System.exec (Watched.hearNews sampleQuiet graphless) (Watched.AllEven sampleQuiet)
      sampleWatched [.news (sampleCount 0 99 5), .news (sampleCount 1 98 10)]).map
        (fun s => s.seen (nodeID 10004)) = some [(100, 0), (99, 5), (98, 10)] := by decide +kernel
  obtain ⟨s, hs, hseen⟩ := System.reachable_of_exec (S := shelterNews sampleQuiet graphless)
    (fun _ _ _ => step_of_hearNews) sampleWatched_init hrun
  exact ⟨s, hs, hseen, rates_right_of_reachable hs _⟩

/-- The second rate is not stored, and that of a shelter with more room than before wraps around. -/
theorem rates_not_right :
    (∃ s : Watched Unit, (shelterNews sampleQuiet graphless).Reachable s ∧
      s.seen (nodeID 10004) = [(100, 0), (99, 5), (89, 10)] ∧
        lastRate (s.seen (nodeID 10004)) = some 2 ∧
          (s.node.increaseRate.find (nodeID 10004)).map (fun r => decide (r < 1)) = some true) ∧
      ∃ s : Watched Unit, (shelterNews sampleQuiet graphless).Reachable s ∧
        s.seen (nodeID 10004) = [(100, 0), (105, 5)] ∧
          lastRate (s.seen (nodeID 10004)) = some (-1) ∧
            (s.node.increaseRate.find (nodeID 10004)).map (fun r => decide (800000000 < r)) =
              some true := by
  constructor
  · have hrun : (System.exec (Watched.hearNews sampleQuiet graphless) (fun _ _ => True)
        sampleWatched [.news (sampleCount 0 99 5), .news (sampleCount 1 89 10)]).map (fun s =>
          (s.seen (nodeID 10004), (s.node.increaseRate.find (nodeID 10004)).map
            fun r => decide (r < 1))) = some ([(100, 0), (99, 5), (89, 10)], some true) := by
      decide +kernel
    obtain ⟨s, hs, hview⟩ := System.reachable_of_exec (S := shelterNews sampleQuiet graphless)
      (fun _ _ _ => step_of_hearNews) sampleWatched_init hrun
    obtain ⟨hseen, hrate⟩ := Prod.ext_iff.mp hview
    dsimp only at hseen hrate
    refine ⟨s, hs.of_restrict, hseen, ?_, hrate⟩
    rw [hseen]
    decide +kernel
  · have hrun : (System.exec (Watched.hearNews sampleQuiet graphless) (fun _ _ => True)
        sampleWatched [.news (sampleCount 0 105 5)]).map (fun s =>
          (s.seen (nodeID 10004), (s.node.increaseRate.find (nodeID 10004)).map
            fun r => decide (800000000 < r))) = some ([(100, 0), (105, 5)], some true) := by
      decide +kernel
    obtain ⟨s, hs, hview⟩ := System.reachable_of_exec (S := shelterNews sampleQuiet graphless)
      (fun _ _ _ => step_of_hearNews) sampleWatched_init hrun
    obtain ⟨hseen, hrate⟩ := Prod.ext_iff.mp hview
    dsimp only at hseen hrate
    refine ⟨s, hs.of_restrict, hseen, ?_, hrate⟩
    rw [hseen]
    decide +kernel

end Ns3.Ferry2
