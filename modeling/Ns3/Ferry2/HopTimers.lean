import Ns3.Ferry2.Evacuation

/-!
# The timers of announced arrivals

`SetEraseHopTimer` goes over the announced arrivals a user holds and schedules
each to be erased when the arrival is due. The seconds left are a difference of
two `uint32_t`, so that an arrival that was due long ago is given more than a
hundred years.
-/

namespace Ns3.Ferry2

open Ns3.Lib

/-- The whole seconds since an arrival was announced. -/
def elapsed (now : ℕ) (info : HopInfo) : ℤ :=
  truncate (Format.binary64.rnd (nowSeconds now - info.2.toNat))

theorem toNat_ofInt (e : ℤ) : ((UInt32.ofInt e).toNat : ℤ) = e % 4294967296 := by
  have hlt : e % 4294967296 < 4294967296 := Int.emod_lt_of_pos e (by decide)
  have hle : 0 ≤ e % 4294967296 := Int.emod_nonneg e (by decide)
  rw [UInt32.ofInt, UInt32.toNat_ofNat_of_lt']
  · exact Int.toNat_of_nonneg hle
  · show (e % 4294967296).toNat < 4294967296
    omega

/-- The seconds until an arrival wrap around. -/
theorem toNat_expectedArrivalTime (now : ℕ) (info : HopInfo) :
    ((expectedArrivalTime now info).toNat : ℤ) =
      ((info.1.2.toNat : ℤ) - elapsed now info) % 4294967296 := by
  have hconv : toUInt32 (Format.binary64.rnd (nowSeconds now - info.2.toNat)) =
      UInt32.ofInt (elapsed now info) := rfl
  have hlt := (UInt32.ofInt (elapsed now info)).toNat_lt
  have hconv' := toNat_ofInt (elapsed now info)
  unfold expectedArrivalTime
  rw [hconv, UInt32.toNat_sub]
  omega

/-- They are right when the announcement is not from the future, and not overdue. -/
theorem expectedArrivalTime_eq_iff {now : ℕ} {info : HopInfo} :
    ((expectedArrivalTime now info).toNat ≤ info.1.2.toNat ∧
        ((expectedArrivalTime now info).toNat : ℤ) = info.1.2.toNat - elapsed now info) ↔
      0 ≤ elapsed now info ∧ elapsed now info ≤ info.1.2.toNat := by
  have hwrap := toNat_expectedArrivalTime now info
  have hlt := info.1.2.toNat_lt
  constructor
  · rintro ⟨hle, heq⟩
    omega
  · rintro ⟨hlo, hhi⟩
    rw [Int.emod_eq_of_lt (by omega) (by omega)] at hwrap
    omega

/-! ## The whole table -/

variable {C : Type} [LinearOrder C] {now : ℕ} {n : MyUser C} {key : UInt32} {info : HopInfo}

/-- The loop over the table, seen by the table itself and by the timers. -/
theorem setEraseHopTimer_foldl (now : ℕ) (l : List (UInt32 × HopInfo)) (n : MyUser C) :
    let n' := l.foldl (fun n a =>
      if a.2.1.2 = 0 then
        { n with
          hop := n.hop.erase a.1
          user := { n.user with hopTimers := n.user.hopTimers.erase a.1 } }
      else
        { n with user := { n.user with
          hopTimers := n.user.hopTimers.assign a.1 (expectedArrivalTime now a.2) } }) n
    n'.hop = l.foldl (fun h a => h.alter a.1 fun o => if a.2.1.2 = 0 then none else o) n.hop ∧
      n'.user.hopTimers = l.foldl (fun t a => t.alter a.1 fun _ =>
        if a.2.1.2 = 0 then none else some (expectedArrivalTime now a.2)) n.user.hopTimers := by
  induction l generalizing n with
  | nil => exact ⟨rfl, rfl⟩
  | cons a l ih =>
    dsimp only [List.foldl_cons]
    obtain ⟨hhop, htimers⟩ := ih (if a.2.1.2 = 0 then
      { n with
        hop := n.hop.erase a.1
        user := { n.user with hopTimers := n.user.hopTimers.erase a.1 } }
      else
        { n with user := { n.user with
          hopTimers := n.user.hopTimers.assign a.1 (expectedArrivalTime now a.2) } })
    rw [hhop, htimers]
    by_cases hzero : a.2.1.2 = 0
    · simp only [hzero, if_true]
      exact ⟨rfl, rfl⟩
    · simp only [hzero, if_false]
      refine ⟨?_, rfl⟩
      congr 1
      refine StdMap.ext fun k => ?_
      rw [StdMap.find_alter]
      split_ifs with hk
      · rw [hk]
      · rfl

/-- An arrival announced with no time left is erased with its timer, and any other gets one. -/
theorem setEraseHopTimer_find (now : ℕ) (h : n.hop.find key = some info) :
    (setEraseHopTimer now n).hop.find key = (if info.1.2 = 0 then none else some info) ∧
      (setEraseHopTimer now n).user.hopTimers.find key =
        if info.1.2 = 0 then none else some (expectedArrivalTime now info) := by
  obtain ⟨hhop, htimers⟩ := setEraseHopTimer_foldl now n.hop.entries n
  unfold setEraseHopTimer
  rw [hhop, htimers]
  refine ⟨?_, ?_⟩
  · rw [StdMap.find_foldl_alter n.hop fun _ v o => if v.1.2 = 0 then none else o, h]
  · rw [StdMap.find_foldl_alter n.hop fun _ v _ =>
      if v.1.2 = 0 then none else some (expectedArrivalTime now v), h]

/-- After `SetEraseHopTimer`, the announced arrival is erased when it is due: its timer runs for no
more than the required time, and for the seconds left if there are any; without, it is gone. -/
def ErasedWhenDue (now : ℕ) (n : MyUser C) (key : UInt32) (info : HopInfo) : Prop :=
  let n' := setEraseHopTimer now n
  (∀ delay, n'.user.hopTimers.find key = some delay →
      delay.toNat ≤ info.1.2.toNat ∧
        (0 ≤ (info.1.2.toNat : ℤ) - elapsed now info →
          (delay.toNat : ℤ) = info.1.2.toNat - elapsed now info)) ∧
    (0 < info.1.2.toNat → 0 ≤ (info.1.2.toNat : ℤ) - elapsed now info →
      n'.user.hopTimers.find key ≠ none) ∧
    ((info.1.2.toNat : ℤ) - elapsed now info < 0 →
      n'.hop.find key = none ∧ n'.user.hopTimers.find key = none)

/-- An announced arrival is erased when due exactly if it has no time required, or was announced no
later than now and no longer ago than its required time. -/
theorem erasedWhenDue_iff (h : n.hop.find key = some info) :
    ErasedWhenDue now n key info ↔
      info.1.2 = 0 ∨ 0 ≤ elapsed now info ∧ elapsed now info ≤ info.1.2.toNat := by
  obtain ⟨hhop, htimer⟩ := setEraseHopTimer_find now h
  have hwrap := toNat_expectedArrivalTime now info
  unfold ErasedWhenDue
  dsimp only
  rw [hhop, htimer]
  split_ifs with hzero
  · simp [hzero]
  · have hpos : 0 < info.1.2.toNat := by
      rw [Nat.pos_iff_ne_zero]
      exact fun h0 => hzero (UInt32.toNat_inj.mp h0)
    rw [← expectedArrivalTime_eq_iff]
    constructor
    · rintro ⟨hdelay, -, hover⟩
      obtain ⟨hle, heq⟩ := hdelay _ rfl
      have hleft : 0 ≤ (info.1.2.toNat : ℤ) - elapsed now info := by
        by_contra hneg
        exact absurd (hover (by omega)).1 (by simp)
      exact .inr ⟨hle, heq hleft⟩
    · rintro (h0 | ⟨hle, heq⟩)
      · exact absurd h0 hzero
      · refine ⟨fun delay hd => ?_, fun _ _ => by simp, fun hneg => ?_⟩
        · cases hd
          exact ⟨hle, fun _ => heq⟩
        · omega

/-- A user that was told, eight seconds ago, of an arrival in five. -/
def sampleHost : MyUser ℕ := { samplePerson 0 with hop := .ofList [(7, ((nodeID 2, 5), 2))] }

theorem erasedWhenDue_iff_sample : ErasedWhenDue 5000000000 sampleHost 7 ((nodeID 2, 5), 2) ↔
    (5 : UInt32) = 0 ∨ 0 ≤ elapsed 5000000000 ((nodeID 2, 5), 2) ∧
      elapsed 5000000000 ((nodeID 2, 5), 2) ≤ (5 : UInt32).toNat :=
  erasedWhenDue_iff (by decide)

theorem overdue_kept : sampleHost.hop.find 7 = some ((nodeID 2, 5), 2) ∧
    elapsed 10000000000 ((nodeID 2, 5), 2) = 8 ∧
      (setEraseHopTimer 10000000000 sampleHost).user.hopTimers.find 7 = some 4294967293 ∧
        (setEraseHopTimer 10000000000 sampleHost).hop.find 7 = some ((nodeID 2, 5), 2) ∧
          ¬ ErasedWhenDue 10000000000 sampleHost 7 ((nodeID 2, 5), 2) := by
  have htimer : (setEraseHopTimer 10000000000 sampleHost).user.hopTimers.find 7 =
      some 4294967293 := by decide +kernel
  refine ⟨by decide, by decide +kernel, htimer, by decide +kernel, fun h => ?_⟩
  exact absurd (h.1 _ htimer).1 (by decide)

end Ns3.Ferry2
