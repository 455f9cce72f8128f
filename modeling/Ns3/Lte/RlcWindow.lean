import Ns3.Lte.RlcLink

/-!
# The reordering window

What an entity receives when PDUs are lost, repeated and displaced. Numbers are
absolute here, as the sender counts its PDUs; the receiver has 10 bits of them.
As long as no PDU is 512 or more ahead of VR(UR), or more than 512 behind the
highest one, these bits tell which PDU it is: the window does not move past
VR(UR), so that nothing is ever reassembled from outside of it.
-/

namespace Ns3.Lte

open Ns3.Lib LteRlcUm

/-! ## Numbers around the window -/

/-- The base of all comparisons while VR(UH) is `uh`. -/
def windowBase (uh : ℕ) : BitVec 10 := BitVec.ofNat 10 uh - BitVec.ofNat 10 windowSize

/-- Numbers from one window before VR(UH) to one after it are told apart. -/
theorem ofNat_sub_windowBase {uh y : ℕ} (hlow : uh ≤ y + 512) (hhigh : y < uh + 512) :
    (BitVec.ofNat 10 y - windowBase uh).toNat = y + 512 - uh := by
  unfold windowBase windowSize
  simp only [BitVec.toNat_sub, BitVec.toNat_ofNat]
  omega

theorem ofNat_inj_of_lt {x y : ℕ} (hle : x ≤ y) (hlt : y < x + 1024)
    (h : BitVec.ofNat 10 x = BitVec.ofNat 10 y) : x = y := by
  have hnat := congrArg BitVec.toNat h
  simp only [BitVec.toNat_ofNat] at hnat
  omega

/-- A number with the base of VR(UH). -/
def numbered (uh y : ℕ) : SequenceNumber10 := ⟨BitVec.ofNat 10 y, windowBase uh⟩

section Numbered

variable {uh x y : ℕ}

theorem numbered_toNat (uh y : ℕ) : (numbered uh y).value.toNat = y % 1024 :=
  BitVec.toNat_ofNat y 10

theorem numbered_add (uh y : ℕ) : (numbered uh y).add 1 = numbered uh (y + 1) := by
  unfold SequenceNumber10.add numbered
  rw [BitVec.ofNat_add]

theorem numbered_gt (hx : uh ≤ x + 512) (hx' : x < uh + 512) (hy : uh ≤ y + 512)
    (hy' : y < uh + 512) : (numbered uh x).Gt (numbered uh y) ↔ y < x := by
  rw [SequenceNumber10.gt_iff (by rfl)]
  show (BitVec.ofNat 10 y - windowBase uh).toNat < (BitVec.ofNat 10 x - windowBase uh).toNat ↔ _
  rw [ofNat_sub_windowBase hx hx', ofNat_sub_windowBase hy hy']
  omega

theorem numbered_lt (hx : uh ≤ x + 512) (hx' : x < uh + 512) (hy : uh ≤ y + 512)
    (hy' : y < uh + 512) : (numbered uh x).Lt (numbered uh y) ↔ x < y := by
  rw [SequenceNumber10.lt_iff (by rfl)]
  show (BitVec.ofNat 10 x - windowBase uh).toNat < (BitVec.ofNat 10 y - windowBase uh).toNat ↔ _
  rw [ofNat_sub_windowBase hx hx', ofNat_sub_windowBase hy hy']
  omega

theorem numbered_le (hx : uh ≤ x + 512) (hx' : x < uh + 512) (hy : uh ≤ y + 512)
    (hy' : y < uh + 512) : (numbered uh x).Le (numbered uh y) ↔ x ≤ y := by
  unfold SequenceNumber10.Le
  rw [numbered_gt hx hx' hy hy', Nat.not_lt]

/-- The lower end of the window is below every number. -/
theorem end_le_numbered (uh x : ℕ) : ((numbered uh uh).sub windowSize).Le (numbered uh x) := by
  rw [SequenceNumber10.le_iff (by rfl)]
  show (windowBase uh - windowBase uh).toNat ≤ _
  rw [sub_self]
  exact Nat.zero_le _

end Numbered

namespace LteRlcUm

/-- Which numbers are inside of the window. -/
theorem isInside_numbered {s : LteRlcUm} {a : SequenceNumber10} {uh x : ℕ}
    (huh : s.vrUh.value = BitVec.ofNat 10 uh) (ha : a.value = BitVec.ofNat 10 x)
    (hx : uh ≤ x + 512) (hx' : x < uh + 512) :
    s.isInsideReorderingWindow a = (decide (x < uh), { s with vrUh := numbered uh uh }) := by
  have hvrUh : s.vrUh.setModulusBase (s.vrUh.sub windowSize) = numbered uh uh := by
    unfold SequenceNumber10.setModulusBase SequenceNumber10.sub numbered windowBase
    rw [huh]
  have hnumber : a.setModulusBase ((numbered uh uh).sub windowSize) = numbered uh x := by
    unfold SequenceNumber10.setModulusBase SequenceNumber10.sub numbered windowBase
    rw [ha]
  unfold isInsideReorderingWindow
  dsimp only
  rw [hvrUh, hnumber]
  congr 1
  rw [decide_eq_decide, numbered_lt hx hx' (Nat.le_add_right _ _) (by omega)]
  exact and_iff_right (end_le_numbered uh x)

/-! ## Searching for the first number that is missing -/

theorem firstMissing_spec (rxBuffer : StdMap ℕ (List UInt8)) (fuel k : ℕ) :
    ∃ n ≤ fuel, firstMissing rxBuffer fuel k = k + n ∧
      (∀ i < n, rxBuffer.contains (k + i) = true) ∧
      (n < fuel → rxBuffer.contains (k + n) = false) := by
  induction fuel generalizing k with
  | zero => exact ⟨0, Nat.le_refl 0, rfl, fun i hi => absurd hi (Nat.not_lt_zero i),
      fun h => absurd h (Nat.lt_irrefl 0)⟩
  | succ fuel ih =>
    unfold firstMissing
    by_cases hk : rxBuffer.contains k = true
    · obtain ⟨n, hn, hmissing, hthere, hstop⟩ := ih (k + 1)
      rw [if_pos hk]
      refine ⟨n + 1, Nat.succ_le_succ hn, by rw [hmissing]; omega, fun i hi => ?_, fun h => ?_⟩
      · cases i with
        | zero => exact hk
        | succ i =>
          have hnext := hthere i (Nat.lt_of_succ_lt_succ hi)
          rwa [Nat.add_assoc, Nat.add_comm 1] at hnext
      · have hnext := hstop (Nat.lt_of_succ_lt_succ h)
        rwa [Nat.add_assoc, Nat.add_comm 1] at hnext
    · rw [if_neg hk]
      exact ⟨0, Nat.zero_le _, rfl, fun i hi => absurd hi (Nat.not_lt_zero i),
        fun _ => Bool.eq_false_iff.mpr hk⟩

theorem firstMissingAround_spec {rxBuffer : StdMap ℕ (List UInt8)} (uh : ℕ) {y : ℕ} (fuel n : ℕ)
    (hn : n < fuel) (hstop : rxBuffer.contains ((y + n) % 1024) = false) :
    ∃ m ≤ n, firstMissingAround rxBuffer fuel (numbered uh y) = some (numbered uh (y + m)) ∧
      (∀ i < m, rxBuffer.contains ((y + i) % 1024) = true) ∧
      rxBuffer.contains ((y + m) % 1024) = false := by
  induction fuel generalizing y n with
  | zero => exact absurd hn (Nat.not_lt_zero n)
  | succ fuel ih =>
    unfold firstMissingAround
    rw [numbered_toNat]
    by_cases hy : rxBuffer.contains (y % 1024) = true
    · rw [if_pos hy, numbered_add]
      cases n with
      | zero =>
        rw [Nat.add_zero, hy] at hstop
        cases hstop
      | succ n =>
        obtain ⟨m, hm, hmissing, hthere, hnot⟩ := ih (y := y + 1) n (Nat.lt_of_succ_lt_succ hn)
          (by rwa [Nat.add_assoc, Nat.add_comm 1])
        rw [Nat.add_assoc, Nat.add_comm 1] at hmissing hnot
        refine ⟨m + 1, Nat.succ_le_succ hm, hmissing, fun i hi => ?_, hnot⟩
        cases i with
        | zero => exact hy
        | succ i =>
          have hnext := hthere i (Nat.lt_of_succ_lt_succ hi)
          rwa [Nat.add_assoc, Nat.add_comm 1] at hnext
    · rw [if_neg hy]
      exact ⟨0, Nat.zero_le n, rfl, fun i hi => absurd hi (Nat.not_lt_zero i),
        Bool.eq_false_iff.mpr hy⟩

/-! ## Reassembly over an interval -/

/-- What is known of the PDUs that have been received. -/
structure Received (pdu : ℕ → List UInt8) (F : ℕ → List (Piece UInt8)) (i : ℕ) : Prop where
  carries : Carries (pdu i) (BitVec.ofNat 10 i) (F i)
  begins : ∀ p ∈ (F i).head?, p.first = (Joined.upTo F i).held.isNone

/-- Nothing came from the number that is expected up to `y`. -/
def Expects (s : LteRlcUm) (F : ℕ → List (Piece UInt8)) (got : ℕ → Bool) (uh y : ℕ) : Prop :=
  ∃ e ≤ y, uh ≤ e + 512 ∧ s.expectedSeqNumber.value = BitVec.ofNat 10 e ∧
    (∀ i, e ≤ i → i < y → got i = false) ∧ s.Holds (Joined.through F got e).held

/-- What reassembly leaves alone. -/
structure SameWindow (s s' : LteRlcUm) : Prop where
  vrUr : s'.vrUr = s.vrUr
  vrUx : s'.vrUx = s.vrUx
  vrUh : s'.vrUh = s.vrUh
  timer : s'.reorderingTimer = s.reorderingTimer

/-- The PDUs numbered from `y` on and below `z` are taken out. -/
def Erased (rx rx' : StdMap ℕ (List UInt8)) (y z : ℕ) : Prop :=
  ∀ k v, rx'.find k = some v ↔ rx.find k = some v ∧ ∀ i, y ≤ i → i < z → k ≠ i % 1024

theorem Erased.refl (rx : StdMap ℕ (List UInt8)) (y : ℕ) : Erased rx rx y y := fun _ _ =>
  ⟨fun h => ⟨h, fun _ hi hlt => absurd (Nat.lt_of_le_of_lt hi hlt) (Nat.lt_irrefl _)⟩, And.left⟩

theorem Erased.cons {rx rx₁ rx' : StdMap ℕ (List UInt8)} {y z : ℕ}
    (hy : rx₁ = rx.erase (y % 1024) ∨ rx.find (y % 1024) = none ∧ rx₁ = rx)
    (h : Erased rx₁ rx' (y + 1) z) (hlt : y < z) : Erased rx rx' y z := by
  intro k v
  have hfirst : rx₁.find k = some v ↔ rx.find k = some v ∧ k ≠ y % 1024 := by
    rcases hy with rfl | ⟨hnone, rfl⟩
    · rw [StdMap.find_erase]
      split
      · rename_i heq
        simp [heq]
      · rename_i hne
        exact (and_iff_left hne).symm
    · refine (and_iff_left_of_imp ?_).symm
      rintro hk rfl
      rw [hnone] at hk
      cases hk
  rw [h k v, hfirst, and_assoc]
  refine and_congr_right fun _ => ⟨fun ⟨hne, hrest⟩ i hi hi' => ?_, fun hall =>
    ⟨hall y (Nat.le_refl y) hlt, fun i hi => hall i (Nat.le_of_succ_le hi)⟩⟩
  rcases Nat.lt_or_eq_of_le hi with hgt | rfl
  · exact hrest i hgt hi'
  · exact hne

variable {pdu : ℕ → List UInt8} {F : ℕ → List (Piece UInt8)} {got : ℕ → Bool}

/-- The PDU `y` after the gap. -/
theorem reassembleAndDeliver_expects {s : LteRlcUm} {uh y : ℕ} (hpdu : Received pdu F y)
    (hgot : got y = true) (hs : s.sdusBuffer = []) (hexpects : s.Expects F got uh y)
    (hy : y < uh + 512) :
    ∃ s' out, s.reassembleAndDeliver (pdu y) = some (s', out) ∧ SameWindow s s' ∧
      s'.rxBuffer = s.rxBuffer ∧ s'.sdusBuffer = [] ∧
      s'.expectedSeqNumber.value = BitVec.ofNat 10 (y + 1) ∧
      s'.Holds (Joined.through F got (y + 1)).held ∧
      (Joined.through F got (y + 1)).delivered = (Joined.through F got y).delivered ++ out := by
  obtain ⟨e, hle, huh, hexpected, hgap, hheld⟩ := hexpects
  have heq : BitVec.ofNat 10 y ≠ s.expectedSeqNumber.value ↔ e ≠ y := by
    rw [hexpected]
    exact not_congr ⟨fun h => ofNat_inj_of_lt hle (by omega) h.symm, fun h => by rw [h]⟩
  have hthrough : (Joined.through F got y).held =
      if BitVec.ofNat 10 y ≠ s.expectedSeqNumber.value then none
      else (Joined.through F got e).held := by
    rw [Joined.through_gap hle hgap, if_congr heq rfl rfl]
    by_cases hey : e = y
    · rw [if_pos hey, if_neg (not_not_intro hey)]
    · rw [if_neg hey, if_pos hey]
      rfl
  have hfirst : BitVec.ofNat 10 y = s.expectedSeqNumber.value →
      (Joined.through F got e).held ≠ none → ∀ p ∈ (F y).head?, p.first = false := by
    intro hsame hsome p hp
    have hey : e = y := not_not.mp (mt heq.mpr (not_not_intro hsame))
    rw [hpdu.begins p hp]
    subst hey
    rcases (Joined.behind_through F got e).2 with hnone | hall
    · exact absurd hnone hsome
    · rw [← hall]
      exact Option.isNone_eq_false_iff.mpr (Option.isSome_iff_ne_none.mpr hsome)
  obtain ⟨state, keep, expected, hdeliver, hvalue, hholds⟩ :=
    reassembleAndDeliver_joins hpdu.carries hs hheld hfirst
  have hnext : Joined.through F got (y + 1) = (Joined.through F got y).join (F y) := by
    rw [Joined.through, if_pos hgot]
  rw [← hthrough] at hdeliver hholds
  rw [hnext, Joined.join_eq]
  exact ⟨_, _, hdeliver, ⟨rfl, rfl, rfl, rfl⟩, rfl, rfl, by rw [hvalue, BitVec.ofNat_add]; rfl,
    hholds.congr rfl rfl, rfl⟩

/-- **Reassembly over an interval** of `n` numbers from `y` on. -/
theorem reassembleSnInterval_spec {uh : ℕ} (n fuel y : ℕ) (s : LteRlcUm) (hfuel : n < fuel)
    (hlow : uh ≤ y + 512) (hhigh : y + n < uh + 512)
    (hpdu : ∀ i, y ≤ i → i < y + n → got i = true → Received pdu F i)
    (hfind : ∀ i, y ≤ i → i < y + n →
      s.rxBuffer.find (i % 1024) = if got i = true then some (pdu i) else none)
    (hs : s.sdusBuffer = []) (hexpects : s.Expects F got uh y) :
    ∃ s' out, reassembleSnInterval fuel (numbered uh y) (numbered uh (y + n)) s = some (s', out) ∧
      SameWindow s s' ∧ s'.sdusBuffer = [] ∧ s'.Expects F got uh (y + n) ∧
      (Joined.through F got (y + n)).delivered = (Joined.through F got y).delivered ++ out ∧
      Erased s.rxBuffer s'.rxBuffer y (y + n) := by
  induction n generalizing fuel y s with
  | zero =>
    obtain ⟨fuel, rfl⟩ := Nat.exists_eq_succ_of_ne_zero (Nat.ne_of_gt hfuel)
    rw [reassembleSnInterval, if_neg (fun h => h.2 rfl)]
    exact ⟨s, [], rfl, ⟨rfl, rfl, rfl, rfl⟩, hs, hexpects, (List.append_nil _).symm,
      Erased.refl _ y⟩
  | succ n ih =>
    obtain ⟨fuel, rfl⟩ := Nat.exists_eq_succ_of_ne_zero (Nat.ne_of_gt (Nat.zero_lt_of_lt hfuel))
    have hy : y < y + (n + 1) := Nat.lt_add_of_pos_right (Nat.succ_pos n)
    have hlt : (numbered uh y).Lt (numbered uh (y + (n + 1))) :=
      (numbered_lt hlow (by omega) (by omega) hhigh).mpr hy
    have hnext : y + (n + 1) = y + 1 + n := by omega
    have hpdu' : ∀ i, y + 1 ≤ i → i < y + 1 + n → got i = true → Received pdu F i :=
      fun i hi hi' => hpdu i (Nat.le_of_succ_le hi) (by omega)
    rw [reassembleSnInterval, if_pos hlt, numbered_toNat, numbered_add, hfind y (Nat.le_refl y) hy,
      hnext]
    by_cases hgot : got y = true
    · rw [if_pos hgot]
      dsimp only
      obtain ⟨s₁, out₁, hdeliver, hsame, hrx, hsdus, hexpected, hholds, hthrough⟩ :=
        reassembleAndDeliver_expects (hpdu y (Nat.le_refl y) hy hgot) hgot hs hexpects (by omega)
      have hother {i : ℕ} (hi : y + 1 ≤ i) (hi' : i < y + 1 + n) : i % 1024 ≠ y % 1024 := by omega
      obtain ⟨s', out, hrest, hsame', hsdus', hexpects', hthrough', hrx'⟩ :=
        ih fuel (y + 1) { s₁ with rxBuffer := s₁.rxBuffer.erase (y % 1024) } (by omega) (by omega)
          (by omega) hpdu' (fun i hi hi' => by
            show (s₁.rxBuffer.erase (y % 1024)).find (i % 1024) = _
            rw [StdMap.find_erase, if_neg (hother hi hi'), hrx]
            exact hfind i (Nat.le_of_succ_le hi) (by omega)) hsdus
          ⟨y + 1, Nat.le_refl _, by omega, hexpected,
            fun i hi hi' => absurd (Nat.lt_of_le_of_lt hi hi') (Nat.lt_irrefl _),
            hholds.congr rfl rfl⟩
      refine ⟨s', out₁ ++ out, ?_, ⟨hsame'.vrUr.trans hsame.vrUr, hsame'.vrUx.trans hsame.vrUx,
        hsame'.vrUh.trans hsame.vrUh, hsame'.timer.trans hsame.timer⟩, hsdus', hexpects', ?_, ?_⟩
      · rw [hdeliver, Option.bind_eq_bind, Option.bind_some]
        dsimp only
        rw [hrest, Option.bind_some]
        rfl
      · rw [hthrough', hthrough, List.append_assoc]
      · refine Erased.cons (.inl ?_) hrx' (by omega)
        show s₁.rxBuffer.erase (y % 1024) = _
        rw [hrx]
    · rw [if_neg hgot]
      dsimp only
      have hmissing : got y = false := Bool.eq_false_iff.mpr hgot
      obtain ⟨e, hle, huh, hexpected, hgap, hheld⟩ := hexpects
      obtain ⟨s', out, hrest, hsame', hsdus', hexpects', hthrough', hrx'⟩ :=
        ih fuel (y + 1) s (by omega) (by omega) (by omega) hpdu'
          (fun i hi hi' => hfind i (Nat.le_of_succ_le hi) (by omega)) hs
          ⟨e, Nat.le_succ_of_le hle, huh, hexpected, fun i hi hi' => by
            rcases Nat.lt_succ_iff_lt_or_eq.mp hi' with hlt | rfl
            · exact hgap i hi hlt
            · exact hmissing, hheld⟩
      refine ⟨s', out, hrest, hsame', hsdus', hexpects', ?_,
        Erased.cons (.inr ⟨?_, rfl⟩) hrx' (by omega)⟩
      · rw [hthrough', Joined.through, if_neg hgot]
        rfl
      · rw [hfind y (Nat.le_refl y) hy, if_neg hgot]

/-! ## The parts of `DoReceivePdu` -/

/-- The reception buffer has PDUs from `ur` on and below `uh`. -/
def Buffered (rx : StdMap ℕ (List UInt8)) (pdu : ℕ → List UInt8) (ur uh : ℕ) : Prop :=
  ∀ k p, rx.find k = some p → ∃ y, ur ≤ y ∧ y < uh ∧ k = y % 1024 ∧ p = pdu y

theorem Buffered.find {rx : StdMap ℕ (List UInt8)} {ur uh y : ℕ} (h : Buffered rx pdu ur uh)
    (hwindow : uh ≤ ur + 512) (hlow : ur ≤ y) (hhigh : y < ur + 512) :
    rx.find (y % 1024) = if rx.contains (y % 1024) = true then some (pdu y) else none := by
  unfold StdMap.contains
  cases hfind : rx.find (y % 1024) with
  | none => rfl
  | some p =>
    obtain ⟨y', hlow', hhigh', hmod, rfl⟩ := h _ p hfind
    have hyy : y = y' := by omega
    rw [hyy]
    rfl

theorem Buffered.lt {rx : StdMap ℕ (List UInt8)} {ur uh y : ℕ} (h : Buffered rx pdu ur uh)
    (hwindow : uh ≤ ur + 512) (hlow : ur ≤ y) (hhigh : y ≤ ur + 512)
    (hy : rx.contains (y % 1024) = true) : y < uh := by
  obtain ⟨p, hp⟩ := Option.isSome_iff_exists.mp hy
  obtain ⟨y', hlow', hhigh', hmod, -⟩ := h _ p hp
  omega

theorem Buffered.erased {rx rx' : StdMap ℕ (List UInt8)} {ur ur' uh : ℕ}
    (h : Buffered rx pdu ur uh) (herased : Erased rx rx' ur ur') : Buffered rx' pdu ur' uh := by
  intro k p hk
  obtain ⟨hk', hne⟩ := (herased k p).mp hk
  obtain ⟨y, hlow, hhigh, hmod, hp⟩ := h k p hk'
  exact ⟨y, Nat.le_of_not_lt fun hlt => hne y hlow hlt hmod, hhigh, hmod, hp⟩

theorem Erased.contains {rx rx' : StdMap ℕ (List UInt8)} {ur ur' y : ℕ} (h : Erased rx rx' ur ur')
    (hlow : ur' ≤ y) (hhigh : y ≤ ur + 512) :
    rx'.contains (y % 1024) = rx.contains (y % 1024) := by
  rw [Bool.eq_iff_iff]
  unfold StdMap.contains
  simp only [Option.isSome_iff_exists]
  exact exists_congr fun p => (h _ p).trans (and_iff_left fun i hi hi' => by omega)

/-- **Moving the window** up to a PDU that is less than 512 ahead: VR(UR) stays in it, and so does
all that waits. -/
theorem moveWindow_spec {s : LteRlcUm} {a : SequenceNumber10} {ur uh x : ℕ}
    (hvrUr : s.vrUr.value = BitVec.ofNat 10 ur) (hvrUh : s.vrUh.value = BitVec.ofNat 10 uh)
    (ha : a.value = BitVec.ofNat 10 x) (hle : ur ≤ uh) (hwindow : uh ≤ ur + 512) (hlow : ur ≤ x)
    (hhigh : x < ur + 512) (hbuffered : Buffered s.rxBuffer pdu ur (max uh (x + 1))) :
    s.moveWindow a =
      some ({ s with vrUh := numbered (max uh (x + 1)) (max uh (x + 1)) }, []) := by
  unfold moveWindow
  rw [isInside_numbered hvrUh ha (by omega) (by omega)]
  dsimp only
  by_cases hx : x < uh
  · rw [if_pos (decide_eq_true hx), Nat.max_eq_left hx]
  · rw [if_neg (by rw [decide_eq_true_eq]; exact hx)]
    rw [Nat.max_eq_right (Nat.le_succ_of_le (Nat.le_of_not_lt hx))] at hbuffered ⊢
    have hnext : (a.add 1).value = BitVec.ofNat 10 (x + 1) := by
      show a.value + _ = _
      rw [ha, BitVec.ofNat_add]
    obtain ⟨vrUh, hvalue, hstop⟩ : ∃ vrUh : SequenceNumber10, vrUh.value = BitVec.ofNat 10 (x + 1) ∧
        reassembleOutsideWindow s.rxBuffer.entries { s with vrUh := a.add 1 } =
          some ({ s with vrUh := vrUh }, []) := by
      cases hentries : s.rxBuffer.entries with
      | nil => exact ⟨_, hnext, rfl⟩
      | cons e entries =>
        obtain ⟨k, p⟩ := e
        obtain ⟨y, hy, hy', hmod, -⟩ := hbuffered k p
          (StdMap.mem_entries.mp (by rw [hentries]; exact List.mem_cons_self))
        have hk : (SequenceNumber10.ofNat k).value = BitVec.ofNat 10 y := by
          refine BitVec.eq_of_toNat_eq ?_
          show (BitVec.ofNat 10 k).toNat = _
          rw [BitVec.toNat_ofNat, BitVec.toNat_ofNat]
          omega
        refine ⟨numbered (x + 1) (x + 1), rfl, ?_⟩
        unfold reassembleOutsideWindow
        rw [isInside_numbered (s := { s with vrUh := a.add 1 }) hnext hk (by omega) (by omega)]
        dsimp only
        rw [if_pos (decide_eq_true hy')]
    rw [hstop, Option.bind_eq_bind, Option.bind_some]
    dsimp only
    rw [isInside_numbered (s := { s with vrUh := vrUh }) hvalue hvrUr (by omega) (by omega)]
    dsimp only
    rw [if_pos (decide_eq_true (Nat.lt_succ_of_le hlow))]
    rfl

/-- There are fewer consecutive keys than entries. -/
theorem lt_size_of_consecutive {rx : StdMap ℕ (List UInt8)} {k n : ℕ}
    (h : ∀ i ≤ n, rx.contains (k + i) = true) : n < rx.size := by
  have hsub : (List.range' k (n + 1)) ⊆ rx.keys := fun j hj => by
    obtain ⟨i, hi, rfl⟩ := List.mem_range'.mp hj
    rw [Nat.one_mul]
    exact StdMap.contains_iff_mem_keys.mp (h i (Nat.le_of_lt_succ hi))
  have hlen := ((List.nodup_range' 1).subperm hsub).length_le
  rw [List.length_range'] at hlen
  exact Nat.lt_of_succ_le (hlen.trans_eq (List.length_map _))

/-- **Delivering in order** from VR(UR) on, up to the first PDU that is missing or the next one with
the number 0. -/
theorem deliverInOrder_spec {s : LteRlcUm} {base ur uh : ℕ} (hvrUr : s.vrUr = numbered base ur)
    (hbase : base ≤ ur + 512) (hle : ur ≤ uh) (hwindow : uh ≤ ur + 512)
    (hroom : s.rxBuffer.contains (ur % 1024) = true → uh < base + 512)
    (hbuffered : Buffered s.rxBuffer pdu ur uh) (hpdu : ∀ i < uh, Received pdu F i)
    (hs : s.sdusBuffer = []) (hexpected : s.expectedSeqNumber.value = BitVec.ofNat 10 ur)
    (hholds : s.Holds (Joined.through F got ur).held) (hgot : ∀ i, ur ≤ i → got i = true) :
    ∃ ur' s' out, s.deliverInOrder = some (s', out) ∧ ur ≤ ur' ∧ ur' ≤ uh ∧
      SameWindow { s with vrUr := numbered base ur' } s' ∧ s'.sdusBuffer = [] ∧
      s'.expectedSeqNumber.value = BitVec.ofNat 10 ur' ∧ s'.Holds (Joined.through F got ur').held ∧
      (Joined.through F got ur').delivered = (Joined.through F got ur).delivered ++ out ∧
      Erased s.rxBuffer s'.rxBuffer ur ur' ∧
      (s'.rxBuffer.contains (ur' % 1024) = true → ur' % 1024 = 0) := by
  have hkey : s.vrUr.value.toNat = ur % 1024 := by rw [hvrUr, numbered_toNat]
  unfold deliverInOrder
  rw [hkey]
  by_cases hnext : s.rxBuffer.contains (ur % 1024) = true
  · rw [if_pos hnext]
    obtain ⟨n, hn, hmissing, hthere, hstop⟩ :=
      firstMissing_spec s.rxBuffer s.rxBuffer.size (ur % 1024 + 1)
    have hrun : ∀ i ≤ n, s.rxBuffer.contains (ur % 1024 + i) = true := fun i hi => by
      cases i with
      | zero => exact hnext
      | succ i =>
        have hi' := hthere i hi
        rwa [Nat.add_assoc, Nat.add_comm 1] at hi'
    have hstop' := hstop (lt_size_of_consecutive hrun)
    -- no key is larger than the largest number
    have hkeys {k : ℕ} (hk : s.rxBuffer.contains k = true) : k < 1024 := by
      obtain ⟨p, hp⟩ := Option.isSome_iff_exists.mp hk
      obtain ⟨y, -, -, rfl, -⟩ := hbuffered k p hp
      exact Nat.mod_lt y (by decide)
    have hlast : ur % 1024 + n < 1024 := hkeys (hrun n (Nat.le_refl n))
    have hin : ∀ i ≤ n, s.rxBuffer.contains ((ur + i) % 1024) = true := fun i hi => by
      have hmod : (ur + i) % 1024 = ur % 1024 + i := by omega
      rw [hmod]
      exact hrun i hi
    have hsteps : ∀ i ≤ n, ur + i < uh := fun i => by
      induction i with
      | zero => exact fun _ => hbuffered.lt hwindow (Nat.le_refl ur) (Nat.le_add_right _ _) hnext
      | succ i ih =>
        intro hi
        have hbefore := ih (Nat.le_of_succ_le hi)
        exact hbuffered.lt hwindow (Nat.le_add_right _ _) (by omega) (hin (i + 1) hi)
    have hend : ur + n < uh := hsteps n (Nat.le_refl n)
    have hvalue : BitVec.ofNat 10 (ur % 1024 + 1 + n) = BitVec.ofNat 10 (ur + (n + 1)) := by
      refine BitVec.eq_of_toNat_eq ?_
      rw [BitVec.toNat_ofNat, BitVec.toNat_ofNat]
      omega
    have hvrUr' : { s.vrUr with value := BitVec.ofNat 10 (ur % 1024 + 1 + n) } =
        numbered base (ur + (n + 1)) := by
      rw [hvrUr, hvalue]
      rfl
    have huh := hroom hnext
    obtain ⟨s', out, hrest, hsame, hsdus, hexpects, hthrough, herased⟩ :=
      reassembleSnInterval_spec (n + 1) snRounds ur
        { s with vrUr := numbered base (ur + (n + 1)) } (by show n + 1 < 1025; omega) hbase
        (by omega) (fun i _ hi' _ => hpdu i (by omega)) (fun i hi hi' => by
          obtain ⟨j, rfl⟩ := Nat.exists_eq_add_of_le hi
          have hfind := hbuffered.find hwindow hi (by omega)
          rw [if_pos (hin j (by omega))] at hfind
          rw [hgot _ hi, if_pos rfl]
          exact hfind) hs
        ⟨ur, Nat.le_refl ur, hbase, hexpected,
          fun i hi hi' => absurd (Nat.lt_of_le_of_lt hi hi') (Nat.lt_irrefl _),
          hholds.congr rfl rfl⟩
    obtain ⟨e, hele, hebase, hexpected', hgap, hheld⟩ := hexpects
    have he : e = ur + (n + 1) := by
      by_contra hne
      have hlost := hgap (ur + n) (by omega) (Nat.lt_succ_self _)
      rw [hgot _ (Nat.le_add_right ur n)] at hlost
      cases hlost
    subst he
    dsimp only
    rw [hmissing, hvrUr']
    refine ⟨ur + (n + 1), s', out, ?_, Nat.le_add_right _ _, hend, hsame, hsdus, hexpected', hheld,
      hthrough, herased, ?_⟩
    · rw [hvrUr]
      exact hrest
    · rw [herased.contains (Nat.le_refl _) (by omega)]
      intro hthere'
      by_contra hne
      have hmod : (ur + (n + 1)) % 1024 = ur % 1024 + 1 + n := by omega
      rw [hmod, hstop'] at hthere'
      cases hthere'
  · rw [if_neg hnext]
    exact ⟨ur, s, [], rfl, Nat.le_refl ur, hle, ⟨hvrUr, rfl, rfl, rfl⟩, hs, hexpected, hholds,
      (List.append_nil _).symm, Erased.refl _ ur, fun h => absurd h hnext⟩

/-- The timer runs for VR(UX): its PDU before is there. -/
def Waits (s : LteRlcUm) (ur uh : ℕ) : Prop :=
  ∃ ux, ur < ux ∧ ux ≤ uh ∧ s.vrUr = numbered uh ur ∧ s.vrUx = numbered uh ux ∧
    s.vrUh = numbered uh uh ∧ s.rxBuffer.contains ((ux - 1) % 1024) = true

/-- The timer is started where something is missing. -/
theorem restart (s : LteRlcUm) {ur uh : ℕ} (hstopped : s.reorderingTimer = false)
    (hvrUr : s.vrUr = numbered uh ur) (hvrUh : s.vrUh = numbered uh uh)
    (hgt : (numbered uh uh).Gt (numbered uh ur) ↔ ur < uh)
    (hhighest : ur < uh → s.rxBuffer.contains ((uh - 1) % 1024) = true) :
    ∃ vrUx, (if s.reorderingTimer = false ∧ s.vrUh.Gt s.vrUr then
        { s with reorderingTimer := true, vrUx := s.vrUh }
      else s) = { s with vrUx := vrUx, reorderingTimer := decide (ur < uh) } ∧
      (ur < uh → Waits { s with vrUx := vrUx } ur uh) := by
  rw [← hvrUr, ← hvrUh] at hgt
  by_cases hlt : ur < uh
  · rw [if_pos ⟨hstopped, hgt.mpr hlt⟩, decide_eq_true hlt]
    exact ⟨_, rfl, fun _ => ⟨uh, hlt, Nat.le_refl uh, hvrUr, hvrUh, hvrUh, hhighest hlt⟩⟩
  · rw [if_neg fun h => hlt (hgt.mp h.2), decide_eq_false hlt, ← hstopped]
    exact ⟨s.vrUx, rfl, fun h => absurd h hlt⟩

/-- The timer runs afterwards exactly when something is missing. -/
theorem updateReorderingTimer_spec {s : LteRlcUm} {ur uh : ℕ} (hle : ur ≤ uh)
    (hwindow : uh ≤ ur + 512) (hvrUr : s.vrUr.value = BitVec.ofNat 10 ur)
    (hvrUh : s.vrUh.value = BitVec.ofNat 10 uh)
    (hhighest : ur < uh → s.rxBuffer.contains ((uh - 1) % 1024) = true)
    (htimer : s.reorderingTimer = true → ∃ ux, uh ≤ ux + 512 ∧ ux ≤ uh ∧
      s.vrUx.value = BitVec.ofNat 10 ux ∧
      (ur < ux → s.rxBuffer.contains ((ux - 1) % 1024) = true)) :
    ∃ vrUx, s.updateReorderingTimer = { s with
        vrUr := numbered uh ur
        vrUx := vrUx
        vrUh := numbered uh uh
        reorderingTimer := decide (ur < uh) } ∧
      (ur < uh → Waits { s with
        vrUr := numbered uh ur
        vrUx := vrUx
        vrUh := numbered uh uh } ur uh) := by
  have hvrUr' : s.vrUr.setModulusBase (s.vrUh.sub windowSize) = numbered uh ur := by
    unfold SequenceNumber10.setModulusBase SequenceNumber10.sub numbered windowBase
    rw [hvrUr, hvrUh]
  have hvrUh' : s.vrUh.setModulusBase (s.vrUh.sub windowSize) = numbered uh uh := by
    unfold SequenceNumber10.setModulusBase SequenceNumber10.sub numbered windowBase
    rw [hvrUh]
  have hgt : (numbered uh uh).Gt (numbered uh ur) ↔ ur < uh :=
    numbered_gt (by omega) (by omega) (by omega) (by omega)
  unfold updateReorderingTimer
  dsimp only
  rw [hvrUr', hvrUh']
  by_cases hrunning : s.reorderingTimer = true
  · obtain ⟨ux, huxlow, huxhigh, hvrUx, hbefore⟩ := htimer hrunning
    have hvrUx' : s.vrUx.setModulusBase (s.vrUh.sub windowSize) = numbered uh ux := by
      unfold SequenceNumber10.setModulusBase SequenceNumber10.sub numbered windowBase
      rw [hvrUx, hvrUh]
    have hle' : (numbered uh ux).Le (numbered uh ur) ↔ ux ≤ ur :=
      numbered_le huxlow (by omega) (by omega) (by omega)
    rw [hvrUx']
    have hstop : (s.reorderingTimer = true ∧ ((numbered uh ux).Le (numbered uh ur) ∨
        ({ s with
          vrUr := numbered uh ur
          vrUx := numbered uh ux
          vrUh := numbered uh uh }.isInsideReorderingWindow (numbered uh ux)).1 = false ∧
          (numbered uh ux).value ≠ (numbered uh uh).value)) ↔ ux ≤ ur := by
      rw [and_iff_right hrunning, hle', isInside_numbered rfl rfl huxlow (by omega),
        decide_eq_false_iff_not, or_iff_left]
      rintro ⟨houtside, hne⟩
      rw [Nat.le_antisymm huxhigh (Nat.le_of_not_lt houtside)] at hne
      exact hne rfl
    simp only [hstop]
    by_cases hux : ux ≤ ur
    · rw [if_pos hux]
      exact restart { s with
        vrUr := numbered uh ur
        vrUx := numbered uh ux
        vrUh := numbered uh uh
        reorderingTimer := false } rfl rfl rfl hgt hhighest
    · have hlt : ur < ux := Nat.lt_of_not_le hux
      rw [if_neg hux]
      dsimp only
      rw [if_neg (by rw [hrunning]; exact fun h => Bool.noConfusion h.1), hrunning]
      have hmissing : ur < uh := Nat.lt_of_lt_of_le hlt huxhigh
      rw [decide_eq_true hmissing]
      exact ⟨_, rfl, fun _ => ⟨ux, hlt, huxhigh, rfl, rfl, rfl, hbefore hlt⟩⟩
  · have hstopped : s.reorderingTimer = false := Bool.eq_false_iff.mpr hrunning
    have hidle {P : Prop} [Decidable P] {t t' : LteRlcUm} :
        (if s.reorderingTimer = true ∧ P then t else t') = t' := if_neg fun h => hrunning h.1
    rw [hidle]
    exact restart { s with
      vrUr := numbered uh ur
      vrUx := s.vrUx.setModulusBase (s.vrUh.sub windowSize)
      vrUh := numbered uh uh } hstopped rfl rfl hgt hhighest

/-! ## The handlers -/

/-- The receiver between two events, in absolute numbers. VR(UR) may have been received already if
it is a number 0, where the search for the first missing one ends. -/
structure Windowed (s : LteRlcUm) (pdu : ℕ → List UInt8) (ur uh : ℕ) : Prop where
  le : ur ≤ uh
  window : uh ≤ ur + 512
  vrUr : s.vrUr.value = BitVec.ofNat 10 ur
  vrUh : s.vrUh.value = BitVec.ofNat 10 uh
  expected : s.expectedSeqNumber.value = BitVec.ofNat 10 ur
  sdusBuffer : s.sdusBuffer = []
  buffered : Buffered s.rxBuffer pdu ur uh
  highest : ur < uh → s.rxBuffer.contains ((uh - 1) % 1024) = true
  first : s.rxBuffer.contains (ur % 1024) = true → ur % 1024 = 0
  timer : s.reorderingTimer = decide (ur < uh)
  waits : ur < uh → s.Waits ur uh

theorem windowed_new (maxTxBufferSize : UInt32) (pdu : ℕ → List UInt8) :
    (new maxTxBufferSize).Windowed pdu 0 0 where
  le := Nat.le_refl 0
  window := Nat.zero_le _
  vrUr := rfl
  vrUh := rfl
  expected := rfl
  sdusBuffer := rfl
  buffered k p h := by cases h
  highest h := absurd h (Nat.lt_irrefl 0)
  first h := by cases h
  timer := rfl
  waits h := absurd h (Nat.lt_irrefl 0)

theorem Windowed.congr {s : LteRlcUm} {pdu pdu' : ℕ → List UInt8} {ur uh : ℕ}
    (h : s.Windowed pdu ur uh) (hpdu : ∀ i < uh, pdu' i = pdu i) : s.Windowed pdu' ur uh where
  __ := h
  buffered k p hk := by
    obtain ⟨y, hlow, hhigh, hmod, hp⟩ := h.buffered k p hk
    exact ⟨y, hlow, hhigh, hmod, hp.trans (hpdu y hhigh).symm⟩

theorem Buffered.assign {rx : StdMap ℕ (List UInt8)} {ur uh x : ℕ} (h : Buffered rx pdu ur uh)
    (hx : ur ≤ x) : Buffered (rx.assign (x % 1024) (pdu x)) pdu ur (max uh (x + 1)) := by
  intro k p hk
  rw [StdMap.find_assign] at hk
  split at hk
  · rename_i heq
    exact ⟨x, hx, Nat.lt_of_lt_of_le (Nat.lt_succ_self x) (Nat.le_max_right _ _), heq,
      (Option.some.inj hk).symm⟩
  · obtain ⟨y, hlow, hhigh, hy⟩ := h k p hk
    exact ⟨y, hlow, Nat.lt_of_lt_of_le hhigh (Nat.le_max_left _ _), hy⟩

theorem contains_assign_of {rx : StdMap ℕ (List UInt8)} {j k : ℕ} {p : List UInt8}
    (hk : k = j ∨ rx.contains k = true) : (rx.assign j p).contains k = true := by
  unfold StdMap.contains
  rw [StdMap.find_assign]
  split
  · rfl
  · rename_i hne
    exact hk.resolve_left hne

/-- From VR(UR) to its new value, what is put together is delivered. -/
def Advances (F : ℕ → List (Piece UInt8)) (got : ℕ → Bool) (ur ur' : ℕ) (s' : LteRlcUm)
    (out : List (List UInt8)) : Prop :=
  ur ≤ ur' ∧ s'.Holds (Joined.through F got ur').held ∧
    (Joined.through F got ur').delivered = (Joined.through F got ur).delivered ++ out

/-- **A PDU is received**: it is old or known already, or it is placed in the reception buffer. -/
theorem receivePdu_spec {s : LteRlcUm} {ur uh x : ℕ} (hs : s.Windowed pdu ur uh)
    (hholds : s.Holds (Joined.through F got ur).held) (hgot : ∀ i, ur ≤ i → got i = true)
    (hlow : uh ≤ x + 512) (hhigh : x < ur + 512)
    (hpdu : ∀ i < max uh (x + 1), Received pdu F i) :
    ∃ ur' s' out, s.receivePdu (pdu x) = some (s', out) ∧ s'.Windowed pdu ur' (max uh (x + 1)) ∧
      Advances F got ur ur' s' out := by
  obtain ⟨hle, hwindow, hvrUr, hvrUh, hexpected, hsdus, hbuffered, hhighest, hfirst, htimer,
    hwaits⟩ := hs
  have hx : x < uh + 512 := by omega
  obtain ⟨header, hheader, hsn⟩ : ∃ header, peekHeader (pdu x) = some header ∧
      header.sequenceNumber.value = BitVec.ofNat 10 x := by
    obtain ⟨header, first, last, contents, hpdu, hvalid, -, hsn, -⟩ :=
      (hpdu x (Nat.lt_of_lt_of_le (Nat.lt_succ_self x) (Nat.le_max_right _ _))).carries
    exact ⟨header, by rw [hpdu]; exact peekHeader_append hvalid _, hsn⟩
  have hvrUr' : s.vrUr.setModulusBase (s.vrUh.sub windowSize) = numbered uh ur := by
    unfold SequenceNumber10.setModulusBase SequenceNumber10.sub numbered windowBase
    rw [hvrUr, hvrUh]
  have hvrUh' : s.vrUh.setModulusBase (s.vrUh.sub windowSize) = numbered uh uh := by
    unfold SequenceNumber10.setModulusBase SequenceNumber10.sub numbered windowBase
    rw [hvrUh]
  have hnumber : header.sequenceNumber.setModulusBase ((numbered uh uh).sub windowSize) =
      numbered uh x := by
    unfold SequenceNumber10.setModulusBase SequenceNumber10.sub numbered windowBase
    rw [hsn]
  have hdiscard : ((numbered uh ur).Lt (numbered uh x) ∧ (numbered uh x).Lt (numbered uh uh) ∧
      s.rxBuffer.contains (x % 1024) = true ∨
      ((numbered uh uh).sub windowSize).Le (numbered uh x) ∧ (numbered uh x).Lt (numbered uh ur)) ↔
      ur < x ∧ x < uh ∧ s.rxBuffer.contains (x % 1024) = true ∨ x < ur := by
    rw [numbered_lt (by omega) (by omega) hlow hx, numbered_lt hlow hx (by omega) (by omega),
      numbered_lt hlow hx (by omega) (by omega), and_iff_right (end_le_numbered uh x)]
  unfold receivePdu
  rw [hheader, Option.bind_eq_bind, Option.bind_some]
  dsimp only
  rw [hvrUr', hvrUh', hnumber, numbered_toNat]
  by_cases hold : ur < x ∧ x < uh ∧ s.rxBuffer.contains (x % 1024) = true ∨ x < ur
  · rw [if_pos (hdiscard.mpr hold)]
    have hmax : max uh (x + 1) = uh := by omega
    rw [hmax]
    refine ⟨ur, _, [], rfl, ⟨hle, hwindow, rfl, rfl, hexpected, hsdus, hbuffered, hhighest, hfirst,
      htimer, fun hlt => ?_⟩, Nat.le_refl ur, hholds.congr rfl rfl, (List.append_nil _).symm⟩
    obtain ⟨ux, hux, hux', -, hvrUx, -, hbefore⟩ := hwaits hlt
    exact ⟨ux, hux, hux', rfl, hvrUx, rfl, hbefore⟩
  · rw [if_neg fun h => hold (hdiscard.mp h)]
    have hplace : ur ≤ x := by omega
    have hwindow' : max uh (x + 1) ≤ ur + 512 := by omega
    let placed : LteRlcUm := { s with
      vrUr := numbered uh ur
      vrUh := numbered uh uh
      rxBuffer := s.rxBuffer.assign (x % 1024) (pdu x) }
    have hbuffered' : Buffered placed.rxBuffer pdu ur (max uh (x + 1)) := hbuffered.assign hplace
    have hmove : placed.moveWindow (numbered uh x) =
        some ({ placed with vrUh := numbered (max uh (x + 1)) (max uh (x + 1)) }, []) :=
      moveWindow_spec rfl rfl rfl hle hwindow hplace hhigh hbuffered'
    obtain ⟨ur', s', out, hdeliver, hur, hur', hsame, hsdus', hexpected', hholds', hthrough,
      herased, hfirst'⟩ := deliverInOrder_spec
        (s := { placed with vrUh := numbered (max uh (x + 1)) (max uh (x + 1)) }) rfl hwindow
        (hle.trans (Nat.le_max_left _ _)) hwindow' (fun hthere => by
          -- if nothing waits, what is placed is the PDU numbered VR(UR)
          rcases Nat.lt_or_eq_of_le hle with hlt | rfl
          · omega
          · obtain ⟨p, hp⟩ := Option.isSome_iff_exists.mp hthere
            change (s.rxBuffer.assign (x % 1024) (pdu x)).find (ur % 1024) = some p at hp
            rw [StdMap.find_assign] at hp
            split at hp
            · omega
            · obtain ⟨y, hy, hy', -⟩ := hbuffered _ p hp
              exact absurd hy' (Nat.not_lt.mpr hy)) hbuffered' hpdu hsdus hexpected
        (hholds.congr rfl rfl) hgot
    have hcontains {y : ℕ} (hy : ur' ≤ y) (hy' : y ≤ ur + 512) :
        s'.rxBuffer.contains (y % 1024) = placed.rxBuffer.contains (y % 1024) :=
      herased.contains hy hy'
    have hkept {k : ℕ} (hk : k = x % 1024 ∨ s.rxBuffer.contains k = true) :
        placed.rxBuffer.contains k = true := contains_assign_of hk
    have hhighest' (hlt : ur' < max uh (x + 1)) :
        s'.rxBuffer.contains ((max uh (x + 1) - 1) % 1024) = true := by
      rw [hcontains (by omega) (by omega)]
      refine hkept ?_
      rcases Nat.lt_or_ge x uh with hxuh | hxuh
      · rw [Nat.max_eq_left hxuh]
        exact .inr (hhighest (Nat.lt_of_le_of_lt hplace hxuh))
      · rw [Nat.max_eq_right (Nat.le_succ_of_le hxuh)]
        exact .inl rfl
    obtain ⟨vrUx, hupdate, hwaits'⟩ := updateReorderingTimer_spec (s := s') hur' (by omega)
      (by rw [hsame.vrUr]; rfl) (by rw [hsame.vrUh]; rfl) hhighest' (fun hrunning => by
        rw [hsame.timer] at hrunning
        obtain ⟨ux, hux, hux', -, hvrUx, -, hbefore⟩ :=
          hwaits (of_decide_eq_true (htimer.symm.trans hrunning))
        refine ⟨ux, by omega, hux'.trans (Nat.le_max_left _ _), ?_, fun hlt => ?_⟩
        · rw [hsame.vrUx]
          show s.vrUx.value = _
          rw [hvrUx]
          rfl
        · rw [hcontains (Nat.le_sub_one_of_lt hlt) (by omega)]
          exact hkept (.inr hbefore))
    refine ⟨ur', { s' with
      vrUr := numbered (max uh (x + 1)) ur'
      vrUx := vrUx
      vrUh := numbered (max uh (x + 1)) (max uh (x + 1))
      reorderingTimer := decide (ur' < max uh (x + 1)) }, out, ?_, ⟨hur', by omega, rfl, rfl,
        hexpected', hsdus', hbuffered'.erased herased, hhighest', hfirst', rfl, hwaits'⟩, hur,
      hholds'.congr rfl rfl, hthrough⟩
    show (placed.moveWindow (numbered uh x)).bind _ = _
    rw [hmove, Option.bind_some]
    dsimp only
    rw [hdeliver, Option.bind_eq_bind, Option.bind_some]
    dsimp only
    rw [hupdate]
    rfl

/-- **The reordering timer expires**: VR(UR) goes past what is missing below VR(UX). -/
theorem expireReorderingTimer_spec {s : LteRlcUm} {ur uh : ℕ} (hs : s.Windowed pdu ur uh)
    (hholds : s.Holds (Joined.through F got ur).held) (hmissing : ur < uh)
    (hgot : ∀ i, ur ≤ i → i < uh → got i = s.rxBuffer.contains (i % 1024))
    (hpdu : ∀ i < uh, Received pdu F i) :
    ∃ ur' s' out, s.expireReorderingTimer = some (s', out) ∧ s'.Windowed pdu ur' uh ∧
      Advances F got ur ur' s' out := by
  obtain ⟨hle, hwindow, -, -, hexpected, hsdus, hbuffered, hhighest, -, -, hwaits⟩ := hs
  obtain ⟨ux, hux, hux', hvrUr, hvrUx, hvrUh, hbefore⟩ := hwaits hmissing
  have hend : s.rxBuffer.contains ((ux + (uh - ux)) % 1024) = false := by
    rw [Nat.add_sub_cancel' hux', Bool.eq_false_iff]
    exact fun h => absurd (hbuffered.lt hwindow hle hwindow h) (Nat.lt_irrefl uh)
  obtain ⟨m, hm, hnew, hthere, hnot⟩ := firstMissingAround_spec uh snRounds (uh - ux)
    (by show uh - ux < 1025; omega) hend
  have hur' : ur + (ux + m - ur) = ux + m := by omega
  obtain ⟨s', out, hinterval, hsame, hsdus', hexpects, hthrough, herased⟩ :=
    reassembleSnInterval_spec (ux + m - ur) snRounds ur { s with
        reorderingTimer := false
        vrUr := numbered uh (ux + m) } (by show _ < 1025; omega) hwindow (by omega)
      (fun i _ hi _ => hpdu i (by omega)) (fun i hi hi' => by
        rw [hgot i hi (by omega)]
        exact hbuffered.find hwindow hi (by omega)) hsdus
      ⟨ur, Nat.le_refl ur, hwindow, hexpected,
        fun i hi hi' => absurd (Nat.lt_of_le_of_lt hi hi') (Nat.lt_irrefl _), hholds.congr rfl rfl⟩
  rw [hur'] at hinterval hexpects hthrough herased
  -- the PDU before the new VR(UR) was there, so that the next one is expected
  have hlast : s.rxBuffer.contains ((ux + m - 1) % 1024) = true := by
    cases m with
    | zero => exact hbefore
    | succ m => exact hthere m (Nat.lt_succ_self m)
  obtain ⟨e, hele, hebase, hexpected', hgap, hheld⟩ := hexpects
  have he : e = ux + m := by
    by_contra hne
    have hlost := hgap (ux + m - 1) (by omega) (by omega)
    rw [hgot _ (by omega) (by omega), hlast] at hlost
    cases hlost
  subst he
  have hbuffered' : Buffered s'.rxBuffer pdu (ux + m) uh := hbuffered.erased herased
  have hhighest' (hlt : ux + m < uh) : s'.rxBuffer.contains ((uh - 1) % 1024) = true := by
    rw [herased.contains (by omega) (by omega)]
    exact hhighest hmissing
  have hfirst : s'.rxBuffer.contains ((ux + m) % 1024) = true → (ux + m) % 1024 = 0 := by
    rw [herased.contains (Nat.le_refl _) (by omega)]
    show s.rxBuffer.contains _ = true → _
    rw [hnot]
    exact fun h => Bool.noConfusion h
  have hvrUr' : s'.vrUr = numbered uh (ux + m) := hsame.vrUr
  have hvrUh' : s'.vrUh = numbered uh uh := hsame.vrUh.trans hvrUh
  have hgt : s'.vrUh.Gt s'.vrUr ↔ ux + m < uh := by
    rw [hvrUr', hvrUh']
    exact numbered_gt (by omega) (by omega) (by omega) (by omega)
  have hresult : s.expireReorderingTimer = some (if s'.vrUh.Gt s'.vrUr then { s' with
      reorderingTimer := true
      vrUx := s'.vrUh } else s', out) := by
    rw [← hvrUx] at hnew
    rw [← hvrUr] at hinterval
    unfold expireReorderingTimer
    rw [hnew, Option.bind_eq_bind, Option.bind_some, hinterval, Option.bind_eq_bind,
      Option.bind_some]
    rfl
  rw [hresult]
  by_cases hlt : ux + m < uh
  · rw [if_pos (hgt.mpr hlt)]
    exact ⟨ux + m, { s' with reorderingTimer := true, vrUx := s'.vrUh }, out, rfl,
      ⟨by omega, by omega, by rw [hvrUr']; rfl, by rw [hvrUh']; rfl, hexpected', hsdus', hbuffered',
        hhighest', hfirst, (decide_eq_true hlt).symm,
        fun _ => ⟨uh, hlt, Nat.le_refl uh, hvrUr', hvrUh', hvrUh', hhighest' hlt⟩⟩,
      by omega, hheld.congr rfl rfl, hthrough⟩
  · rw [if_neg fun h => hlt (hgt.mp h)]
    exact ⟨ux + m, s', out, rfl,
      ⟨by omega, by omega, by rw [hvrUr']; rfl, by rw [hvrUh']; rfl, hexpected', hsdus', hbuffered',
        hhighest', hfirst, hsame.timer.trans (decide_eq_false hlt).symm,
        fun h => absurd h hlt⟩,
      by omega, hheld, hthrough⟩

end LteRlcUm

end Ns3.Lte
