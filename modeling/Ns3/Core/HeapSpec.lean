import Ns3.Core.HeapScheduler

/-!
# The operations of `HeapScheduler`

The heap is seen as a function on positions (`Heap.at`), where the rules of
`BinaryHeap` are about exchanges. Each operation has one specification, which
says when the heap is in order afterwards and which events it holds.
-/

namespace Ns3.Core

open Ns3.Lib
open BinaryHeap

namespace HeapScheduler

variable {h h' : Heap} {ev e : Event} {i j k : ℕ}

/-- The position of an event in the order. -/
def rank (e : Event) : ℕ ×ₗ ℕ := e.key.order

theorem isLessStrictly_iff : IsLessStrictly h i j ↔ rank (h.at i) < rank (h.at j) :=
  EventKey.lt_iff_order

/-! ## The heap as a function on positions -/

theorem size_exch : (exch h i j).size = h.size := by
  unfold exch
  rw [Array.size_setIfInBounds, Array.size_setIfInBounds]

theorem at_exch (hi : i < h.size) (hj : j < h.size) : (exch h i j).at = swapped h.at i j := by
  funext k
  unfold exch Heap.at
  rcases eq_or_ne k j with rfl | hkj
  · rw [swapped_right, Array.getD_eq_getD_getElem?, Array.getElem?_setIfInBounds_self_of_lt]
    · rfl
    · rwa [Array.size_setIfInBounds]
  rw [Array.getD_eq_getD_getElem?, Array.getElem?_setIfInBounds_ne hkj.symm]
  rcases eq_or_ne k i with rfl | hki
  · rw [swapped_left, Array.getElem?_setIfInBounds_self_of_lt hi]
    rfl
  · rw [swapped_of_ne hki hkj, Array.getElem?_setIfInBounds_ne hki.symm,
      Array.getD_eq_getD_getElem?]

theorem at_push_self : Heap.at (h.push ev) h.size = ev := by
  unfold Heap.at
  rw [Array.getD_eq_getD_getElem?, Array.getElem?_push_size]
  rfl

theorem at_push_lt (hi : i < h.size) : Heap.at (h.push ev) i = h.at i := by
  unfold Heap.at
  rw [Array.getD_eq_getD_getElem?, Array.getElem?_push_lt hi, Array.getD_eq_getD_getElem?,
    Array.getElem?_eq_getElem hi]

theorem at_pop (hi : i < h.size - 1) : Heap.at h.pop i = h.at i := by
  unfold Heap.at
  rw [Array.getD_eq_getD_getElem?, Array.getElem?_pop, if_pos hi, Array.getD_eq_getD_getElem?]

/-- No element of the array is less than its parent. -/
def InOrder (h : Heap) : Prop := Ordered rank h.at h.size

def Contains (h : Heap) (e : Event) : Prop := Holds h.size h.at e

def DifferentUids (h : Heap) : Prop := Distinct (fun e => e.key.uid) h.size h.at

/-- The same events in another order. -/
structure Sifted (h h' : Heap) : Prop where
  size : h'.size = h.size
  rearranged : Rearranged h.size h.at h'.at

theorem Sifted.refl : Sifted h h := ⟨rfl, .refl⟩

theorem Sifted.trans {h'' : Heap} (hs : Sifted h h') (hs' : Sifted h' h'') : Sifted h h'' :=
  ⟨hs'.size.trans hs.size, hs.rearranged.trans (hs.size ▸ hs'.rearranged)⟩

theorem Sifted.exch (hi : 1 ≤ i) (hih : i < h.size) (hj : 1 ≤ j) (hjh : j < h.size) :
    Sifted h (exch h i j) := by
  refine ⟨size_exch, ?_⟩
  rw [at_exch hih hjh]
  exact .swapped hi hih hj hjh

theorem Sifted.contains_iff (hs : Sifted h h') : Contains h' e ↔ Contains h e := by
  unfold Contains
  rw [hs.size]
  exact hs.rearranged.holds_iff

theorem Sifted.differentUids (hs : Sifted h h') (hd : DifferentUids h) : DifferentUids h' := by
  unfold DifferentUids
  rw [hs.size]
  exact hs.rearranged.distinct hd

/-! ## Loops -/

theorem bottomUpLoop_spec (fuel : ℕ) (hk : 1 ≤ k) (hkh : k < h.size) (hfuel : k ≤ fuel)
    (hup : UpOrder rank h.at h.size k) :
    Sifted h (bottomUpLoop fuel k h) ∧ InOrder (bottomUpLoop fuel k h) := by
  induction fuel generalizing k h with
  | zero => omega
  | succ fuel ih =>
    unfold bottomUpLoop
    split
    · rename_i hcond
      obtain ⟨hroot, hless⟩ := hcond
      have hk2 : 2 ≤ k := by
        unfold root at hroot
        omega
      have hpk : parent k = k / 2 := rfl
      rw [isLessStrictly_iff, hpk] at hless
      rw [hpk]
      have hmove := hup.move hk2 hkh hless
      rw [← at_exch hkh (by omega), ← size_exch (h := h) (i := k) (j := k / 2)] at hmove
      have hstep := ih (by omega) (by rw [size_exch]; omega) (by omega) hmove
      exact ⟨(Sifted.exch hk hkh (by omega) (by omega)).trans hstep.1, hstep.2⟩
    · rename_i hcond
      refine ⟨.refl, hup.finish fun hk2 => le_of_not_gt fun hlt => hcond ⟨?_, ?_⟩⟩
      · unfold root
        omega
      · exact isLessStrictly_iff.mpr hlt

/-- The lesser of two children. -/
theorem rank_smallest : rank (h.at (smallest h i j)) ≤ rank (h.at i) ∧
    rank (h.at (smallest h i j)) ≤ rank (h.at j) := by
  unfold smallest
  split
  · rename_i hless
    exact ⟨le_rfl, (isLessStrictly_iff.mp hless).le⟩
  · rename_i hnot
    exact ⟨le_of_not_gt fun hlt => hnot (isLessStrictly_iff.mpr hlt), le_rfl⟩

theorem smallest_cases : smallest h i j = i ∨ smallest h i j = j := by
  unfold smallest
  split
  · exact .inl rfl
  · exact .inr rfl

theorem topDownLoop_spec (fuel : ℕ) (hk : 1 ≤ k) (hfuel : h.size ≤ k + fuel)
    (hdown : DownOrder rank h.at h.size k) :
    Sifted h (topDownLoop fuel k h) ∧ InOrder (topDownLoop fuel k h) := by
  induction fuel generalizing k h with
  | zero =>
    refine ⟨.refl, hdown.finish fun i h2 hi hpi => ?_⟩
    omega
  | succ fuel ih =>
    unfold topDownLoop
    have hleft : leftChild k = 2 * k := Nat.mul_comm k 2
    have hright : rightChild k = 2 * k + 1 := by
      unfold rightChild
      omega
    rw [hleft, hright]
    split
    · rename_i hbr
      unfold IsBottom at hbr
      split
      · rename_i hbi
        unfold IsBottom at hbi
        refine ⟨.refl, hdown.finish fun i h2 hi hpi => ?_⟩
        omega
      split
      · rename_i hbl
        unfold IsBottom at hbl
        refine ⟨.refl, hdown.finish fun i h2 hi hpi => ?_⟩
        omega
      rename_i hki hbl
      unfold IsBottom at hki hbl
      -- the left child is the last element, and the only child
      have honly : ∀ i, i < h.size → i / 2 = k → i = 2 * k := by
        intro i hi hpi
        omega
      split
      · rename_i hless
        refine ⟨.refl, hdown.finish fun i h2 hi hpi => ?_⟩
        rw [honly i hi hpi]
        exact (isLessStrictly_iff.mp hless).le
      · rename_i hless
        have hle : rank (h.at (2 * k)) ≤ rank (h.at k) :=
          le_of_not_gt fun hlt => hless (isLessStrictly_iff.mpr hlt)
        have hmove := hdown.move hk (c := 2 * k) (by omega) (by omega)
          (fun i _ hi hpi => by rw [honly i hi hpi]) hle
        rw [← at_exch (by omega) (by omega), ← size_exch (h := h) (i := k) (j := 2 * k)] at hmove
        refine ⟨Sifted.exch hk (by omega) (by omega) (by omega), hmove.finish fun i h2 hi hpi => ?_⟩
        rw [size_exch] at hi
        omega
    · rename_i hbr
      unfold IsBottom at hbr
      dsimp only
      obtain ⟨hlel, hler⟩ := rank_smallest (h := h) (i := 2 * k) (j := 2 * k + 1)
      have hcases := smallest_cases (h := h) (i := 2 * k) (j := 2 * k + 1)
      generalize smallest h (2 * k) (2 * k + 1) = c at hlel hler hcases
      have hleast : ∀ i, 2 ≤ i → i < h.size → i / 2 = k → rank (h.at c) ≤ rank (h.at i) := by
        intro i h2 hi hpi
        have hi2 : i = 2 * k ∨ i = 2 * k + 1 := by omega
        rcases hi2 with rfl | rfl
        · exact hlel
        · exact hler
      split
      · rename_i hless
        refine ⟨.refl, hdown.finish fun i h2 hi hpi => ?_⟩
        exact (isLessStrictly_iff.mp hless).le.trans (hleast i h2 hi hpi)
      · rename_i hless
        have hle : rank (h.at c) ≤ rank (h.at k) :=
          le_of_not_gt fun hlt => hless (isLessStrictly_iff.mpr hlt)
        have hmove := hdown.move hk (c := c) (by omega) (by omega) hleast hle
        rw [← at_exch (by omega) (by omega), ← size_exch (h := h) (i := k) (j := c)] at hmove
        have hstep := ih (by omega) (by rw [size_exch]; omega) hmove
        exact ⟨(Sifted.exch hk (by omega) (by omega) (by omega)).trans hstep.1, hstep.2⟩

/-! ## Insert -/

theorem insert_spec (ev : Event) (hsize : 1 ≤ h.size) (hord : InOrder h) :
    Sifted (h.push ev) (insert ev h) ∧ InOrder (insert ev h) := by
  have hlast : last (h.push ev) = h.size := by
    unfold last
    rw [Array.size_push, Nat.add_sub_cancel]
  unfold insert bottomUp
  rw [hlast]
  apply bottomUpLoop_spec h.size hsize
  · rw [Array.size_push]
    exact Nat.lt_succ_self _
  · exact le_rfl
  -- only the new element may be less than its parent, and it has no children
  constructor
  · intro i h2 hi hne
    rw [Array.size_push] at hi
    rw [at_push_lt (by omega), at_push_lt (by omega)]
    exact hord i h2 (by omega)
  · intro _ i hi hpi
    rw [Array.size_push] at hi
    omega

theorem contains_push (hsize : 1 ≤ h.size) : Contains (h.push ev) e ↔ e = ev ∨ Contains h e := by
  constructor
  · rintro ⟨i, h1, hi, rfl⟩
    rw [Array.size_push] at hi
    rcases Nat.lt_succ_iff_lt_or_eq.mp hi with hlt | rfl
    · exact .inr ⟨i, h1, hlt, (at_push_lt hlt).symm⟩
    · exact .inl at_push_self
  · rintro (rfl | ⟨i, h1, hi, rfl⟩)
    · exact ⟨h.size, hsize, by rw [Array.size_push]; exact Nat.lt_succ_self _, at_push_self⟩
    · exact ⟨i, h1, by rw [Array.size_push]; exact hi.trans (Nat.lt_succ_self _), at_push_lt hi⟩

theorem differentUids_push (hd : DifferentUids h)
    (hnew : ∀ e, Contains h e → e.key.uid ≠ ev.key.uid) : DifferentUids (h.push ev) := by
  intro i j hi hih hj hjh heq
  rw [Array.size_push] at hih hjh
  rcases Nat.lt_succ_iff_lt_or_eq.mp hih with hlti | rfl
  · rw [at_push_lt hlti] at heq
    rcases Nat.lt_succ_iff_lt_or_eq.mp hjh with hltj | rfl
    · rw [at_push_lt hltj] at heq
      exact hd i j hi hlti hj hltj heq
    · rw [at_push_self] at heq
      exact absurd heq (hnew _ ⟨i, hi, hlti, rfl⟩)
  · rw [at_push_self] at heq
    rcases Nat.lt_succ_iff_lt_or_eq.mp hjh with hltj | rfl
    · rw [at_push_lt hltj] at heq
      exact absurd heq.symm (hnew _ ⟨j, hj, hltj, rfl⟩)
    · rfl

/-! ## Removal of the element at a position -/

/-- The last element takes the place of the one at `i`, as in `RemoveNext` and `Remove`. -/
def fill (h : Heap) (i : ℕ) : Heap := (exch h i (last h)).pop

theorem size_fill : (fill h i).size = h.size - 1 := by
  unfold fill
  rw [Array.size_pop, size_exch]

theorem at_fill_self (hi : i < h.size - 1) : (fill h i).at i = h.at (last h) := by
  have hlast : last h < h.size := by
    unfold last
    omega
  unfold fill
  rw [at_pop (by rwa [size_exch]), at_exch (by omega) hlast, swapped_left]

theorem at_fill_ne (hih : i < h.size) (hk : k < h.size - 1) (hne : k ≠ i) :
    (fill h i).at k = h.at k := by
  have hlast : last h < h.size := by
    unfold last
    omega
  have hkl : k ≠ last h := by
    unfold last
    omega
  unfold fill
  rw [at_pop (by rwa [size_exch]), at_exch hih hlast, swapped_of_ne hne hkl]

theorem contains_fill (hd : DifferentUids h) (hi : 1 ≤ i) (hih : i < h.size) :
    Contains (fill h i) e ↔ Contains h e ∧ e ≠ h.at i := by
  have hl : last h = h.size - 1 := rfl
  constructor
  · rintro ⟨k, h1, hk, rfl⟩
    rw [size_fill] at hk
    rcases eq_or_ne k i with rfl | hne
    · rw [at_fill_self hk]
      refine ⟨⟨last h, by omega, by omega, rfl⟩, fun heq => ?_⟩
      have hsame := hd (last h) k (by omega) (by omega) h1 hih (congrArg (fun e => e.key.uid) heq)
      omega
    · rw [at_fill_ne hih hk hne]
      exact ⟨⟨k, h1, by omega, rfl⟩,
        fun heq => hne (hd k i h1 (by omega) hi hih (congrArg (fun e => e.key.uid) heq))⟩
  · rintro ⟨⟨k, h1, hk, rfl⟩, hne⟩
    have hki : k ≠ i := by
      rintro rfl
      exact hne rfl
    rcases eq_or_ne k (last h) with rfl | hkl
    · exact ⟨i, hi, by rw [size_fill]; omega, at_fill_self (by omega)⟩
    · exact ⟨k, h1, by rw [size_fill]; omega, at_fill_ne hih (by omega) hki⟩

theorem differentUids_fill (hd : DifferentUids h) (hi : 1 ≤ i) (hih : i < h.size) :
    DifferentUids (fill h i) := by
  have hl : last h = h.size - 1 := rfl
  intro j k hj hjh hk hkh heq
  rw [size_fill] at hjh hkh
  rcases eq_or_ne j i with rfl | hji
  · rcases eq_or_ne k j with rfl | hkj
    · rfl
    rw [at_fill_self hjh, at_fill_ne hih hkh hkj] at heq
    have hsame := hd _ _ (by omega) (by omega) hk (by omega) heq
    omega
  · rw [at_fill_ne hih hjh hji] at heq
    rcases eq_or_ne k i with rfl | hki
    · rw [at_fill_self hkh] at heq
      have hsame := hd _ _ hj (by omega) (by omega) (by omega) heq
      omega
    · rw [at_fill_ne hih hkh hki] at heq
      exact hd j k hj (by omega) hk (by omega) heq

/-- The last element is less than the parent that it gets at `i`. -/
def Misplaced (h : Heap) (i : ℕ) : Prop :=
  1 < i ∧ i < last h ∧ IsLessStrictly h (last h) (parent i)

instance (h : Heap) (i : ℕ) : Decidable (Misplaced h i) := inferInstanceAs (Decidable (_ ∧ _))

theorem topDown_fill (hord : InOrder h) (hi : 1 ≤ i) (hih : i < h.size) (hm : ¬ Misplaced h i) :
    Sifted (fill h i) (topDown (fill h i) i) ∧ InOrder (topDown (fill h i) i) := by
  apply topDownLoop_spec _ hi (by omega)
  refine Ordered.downOrder (f := h.at) (hord.mono (by rw [size_fill]; omega)) ?_ hi ?_
  · intro k hk hne
    rw [size_fill] at hk
    exact at_fill_ne hih hk hne
  · intro h2 hfill
    rw [size_fill] at hfill
    rw [at_fill_self hfill]
    refine le_of_not_gt fun hlt => hm ⟨h2, hfill, isLessStrictly_iff.mpr hlt⟩

theorem topDownLoop_of_lt {fuel : ℕ}
    (hless : ∀ i, i < h.size → i / 2 = k → rank (h.at k) < rank (h.at i)) :
    topDownLoop fuel k h = h := by
  have hleft : leftChild k = 2 * k := Nat.mul_comm k 2
  have hright : rightChild k = 2 * k + 1 := by
    unfold rightChild
    omega
  cases fuel with
  | zero => rfl
  | succ fuel =>
    unfold topDownLoop
    rw [hleft, hright]
    split
    · split
      · rfl
      split
      · rfl
      rename_i hbl
      unfold IsBottom at hbl
      exact if_pos (isLessStrictly_iff.mpr (hless (2 * k) (by omega) (by omega)))
    · rename_i hbr
      unfold IsBottom at hbr
      refine if_pos (isLessStrictly_iff.mpr ?_)
      rcases smallest_cases (h := h) (i := 2 * k) (j := 2 * k + 1) with hc | hc
      · rw [hc]
        exact hless (2 * k) (by omega) (by omega)
      · rw [hc]
        exact hless (2 * k + 1) (by omega) (by omega)

/-- Sifting it down leaves it where it is, below a greater element. -/
theorem not_inOrder_of_misplaced (hord : InOrder h) (hm : Misplaced h i) :
    ¬ InOrder (topDown (fill h i) i) := by
  obtain ⟨hi, hilast, hless⟩ := hm
  have hl : last h = h.size - 1 := rfl
  have hparent : parent i = i / 2 := rfl
  rw [isLessStrictly_iff, hparent] at hless
  have hstays : topDown (fill h i) i = fill h i := by
    apply topDownLoop_of_lt
    intro c hc hci
    rw [size_fill] at hc
    rw [at_fill_self (by omega), at_fill_ne (by omega) hc (by omega)]
    have hupper := hord i hi (by omega)
    have hlower := hord c (by omega) (by omega)
    rw [hci] at hlower
    exact hless.trans_le (hupper.trans hlower)
  rw [hstays]
  intro hord'
  have hle := hord' i hi (by rw [size_fill]; omega)
  rw [at_fill_self (by omega), at_fill_ne (by omega) (by omega) (by omega)] at hle
  exact absurd hless hle.not_gt

/-! ## Where an event is -/

theorem indexOf_eq_some (hi : indexOf ev h = some i) :
    1 ≤ i ∧ i < h.size ∧ (h.at i).key.uid = ev.key.uid := by
  unfold indexOf at hi
  have hmem := List.mem_of_find?_eq_some hi
  have huid := List.find?_some hi
  rw [List.mem_range'_1] at hmem
  rw [decide_eq_true_eq] at huid
  exact ⟨hmem.1, by omega, huid.symm⟩

theorem at_indexOf (hd : DifferentUids h) (hev : Contains h ev) (hi : indexOf ev h = some i) :
    h.at i = ev := by
  obtain ⟨h1, hih, huid⟩ := indexOf_eq_some hi
  obtain ⟨j, hj, hjh, rfl⟩ := hev
  rw [hd i j h1 hih hj hjh huid]

end HeapScheduler

end Ns3.Core
