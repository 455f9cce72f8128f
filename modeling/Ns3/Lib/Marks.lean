import Mathlib.Data.Int.Init
import Mathlib.Data.List.Basic
import Mathlib.Tactic.Common

/-!
# Marks on a sequence

A mark is on the positions from `start` up to `stop`. Marks are shifted when the
positions are renumbered, and clipped to a window; what matters of a list of
them is which marks are on a position, in the order of the list.
-/

namespace Ns3.Lib

variable {T : Type}

structure Mark (T : Type) where
  tag : T
  start : ℤ
  stop : ℤ
  deriving DecidableEq

namespace Mark

def Covers (m : Mark T) (i : ℤ) : Prop := m.start ≤ i ∧ i < m.stop

instance (m : Mark T) (i : ℤ) : Decidable (m.Covers i) := inferInstanceAs (Decidable (_ ∧ _))

def shift (k : ℤ) (m : Mark T) : Mark T := ⟨m.tag, m.start + k, m.stop + k⟩

/-- The part of a mark from `lo` up to `hi`, if there is one. -/
def clip (lo hi : ℤ) (m : Mark T) : Option (Mark T) :=
  if hi ≤ m.start ∨ m.stop ≤ lo then none else some ⟨m.tag, max m.start lo, min m.stop hi⟩

/-- The part of a mark below `hi`. -/
def cutEnd (hi : ℤ) (m : Mark T) : Option (Mark T) :=
  if hi ≤ m.start then none else some ⟨m.tag, m.start, if hi < m.stop then hi else m.stop⟩

/-- The part of a mark from `lo` on. -/
def cutStart (lo : ℤ) (m : Mark T) : Option (Mark T) :=
  if m.stop ≤ lo then none else some ⟨m.tag, if m.start < lo then lo else m.start, m.stop⟩

@[simp] theorem shift_zero (m : Mark T) : m.shift 0 = m := by
  unfold shift
  rw [Int.add_zero, Int.add_zero]

theorem shift_shift (m : Mark T) (k l : ℤ) : (m.shift k).shift l = m.shift (k + l) := by
  unfold shift
  rw [Int.add_assoc, Int.add_assoc]

theorem covers_shift {m : Mark T} {k i : ℤ} : (m.shift k).Covers i ↔ m.Covers (i - k) := by
  unfold Covers shift
  dsimp only
  omega

theorem covers_of_clip {lo hi i : ℤ} {m m' : Mark T} (h : m.clip lo hi = some m') :
    m'.tag = m.tag ∧ (m'.Covers i ↔ lo ≤ i ∧ i < hi ∧ m.Covers i) := by
  unfold clip at h
  split at h
  · cases h
  · cases h
    refine ⟨rfl, ?_⟩
    unfold Covers
    dsimp only
    omega

/-- What is clipped lies in the window. -/
theorem clip_bounds {lo hi : ℤ} {m m' : Mark T} (h : m.clip lo hi = some m') :
    lo ≤ m'.start ∧ m'.stop ≤ hi ∧ m.start ≤ m'.start ∧ m'.stop ≤ m.stop ∧
      (lo < hi → m.start < m.stop → m'.start < m'.stop) := by
  unfold clip at h
  split at h
  · cases h
  · cases h
    dsimp only
    omega

end Mark

/-! ## The marks on a position -/

def tagsAt (ms : List (Mark T)) (i : ℤ) : List T :=
  (ms.filter fun m => decide (m.Covers i)).map Mark.tag

@[simp] theorem tagsAt_nil (i : ℤ) : tagsAt ([] : List (Mark T)) i = [] := rfl

theorem tagsAt_cons (m : Mark T) (ms : List (Mark T)) (i : ℤ) :
    tagsAt (m :: ms) i = if m.Covers i then m.tag :: tagsAt ms i else tagsAt ms i := by
  unfold tagsAt
  rw [List.filter_cons]
  by_cases h : m.Covers i
  · rw [if_pos (decide_eq_true h), if_pos h, List.map_cons]
  · rw [if_neg (by rw [decide_eq_true_eq]; exact h), if_neg h]

theorem mem_tagsAt {ms : List (Mark T)} {i : ℤ} {t : T} :
    t ∈ tagsAt ms i ↔ ∃ m ∈ ms, m.Covers i ∧ m.tag = t := by
  unfold tagsAt
  simp only [List.mem_map, List.mem_filter, decide_eq_true_eq, and_assoc]

@[simp] theorem tagsAt_append (ms ms' : List (Mark T)) (i : ℤ) :
    tagsAt (ms ++ ms') i = tagsAt ms i ++ tagsAt ms' i := by
  unfold tagsAt
  rw [List.filter_append, List.map_append]

theorem tagsAt_map_shift (ms : List (Mark T)) (k i : ℤ) :
    tagsAt (ms.map (Mark.shift k)) i = tagsAt ms (i - k) := by
  induction ms with
  | nil => rfl
  | cons m ms ih =>
    rw [List.map_cons, tagsAt_cons, tagsAt_cons, ih, if_congr Mark.covers_shift rfl rfl]
    rfl

/-- Marks are cut down to the positions with `P`. -/
theorem tagsAt_filterMap {f : Mark T → Option (Mark T)} {i : ℤ} {P : Prop} [Decidable P]
    (hnone : ∀ m, f m = none → P → ¬ m.Covers i)
    (hsome : ∀ m m', f m = some m' → m'.tag = m.tag ∧ (m'.Covers i ↔ P ∧ m.Covers i))
    (ms : List (Mark T)) : tagsAt (ms.filterMap f) i = if P then tagsAt ms i else [] := by
  induction ms with
  | nil => split <;> rfl
  | cons m ms ih =>
    rw [List.filterMap_cons]
    cases hf : f m with
    | none =>
      dsimp only
      rw [ih, tagsAt_cons]
      split
      · rename_i hP
        rw [if_neg (hnone m hf hP)]
      · rfl
    | some m' =>
      obtain ⟨htag, hcovers⟩ := hsome m m' hf
      dsimp only
      rw [tagsAt_cons, ih, if_congr hcovers rfl rfl, htag, tagsAt_cons]
      split_ifs <;> tauto

/-- A window shows the marks on its positions, and no others. -/
theorem tagsAt_filterMap_clip (ms : List (Mark T)) (lo hi i : ℤ) :
    tagsAt (ms.filterMap (Mark.clip lo hi)) i = if lo ≤ i ∧ i < hi then tagsAt ms i else [] := by
  refine tagsAt_filterMap (fun m hm hi hcovers => ?_) (fun m m' hm => ?_) ms
  · unfold Mark.clip at hm
    unfold Mark.Covers at hcovers
    split at hm
    · omega
    · cases hm
  · obtain ⟨htag, hcovers⟩ := Mark.covers_of_clip (i := i) hm
    exact ⟨htag, hcovers.trans (by rw [and_assoc])⟩

theorem tagsAt_filterMap_cutEnd (ms : List (Mark T)) (hi i : ℤ) :
    tagsAt (ms.filterMap (Mark.cutEnd hi)) i = if i < hi then tagsAt ms i else [] := by
  refine tagsAt_filterMap (fun m hm hi hcovers => ?_) (fun m m' hm => ?_) ms
  · unfold Mark.cutEnd at hm
    unfold Mark.Covers at hcovers
    split at hm
    · omega
    · cases hm
  · unfold Mark.cutEnd at hm
    unfold Mark.Covers
    split at hm
    · cases hm
    · cases hm
      dsimp only
      exact ⟨rfl, by split <;> omega⟩

theorem tagsAt_filterMap_cutStart (ms : List (Mark T)) (lo i : ℤ) :
    tagsAt (ms.filterMap (Mark.cutStart lo)) i = if lo ≤ i then tagsAt ms i else [] := by
  refine tagsAt_filterMap (fun m hm hi hcovers => ?_) (fun m m' hm => ?_) ms
  · unfold Mark.cutStart at hm
    unfold Mark.Covers at hcovers
    split at hm
    · omega
    · cases hm
  · unfold Mark.cutStart at hm
    unfold Mark.Covers
    split at hm
    · cases hm
    · cases hm
      dsimp only
      exact ⟨rfl, by split <;> omega⟩

/-- Marks that all begin later are not there yet. -/
theorem tagsAt_of_le_start {ms : List (Mark T)} {i : ℤ} (h : ∀ m ∈ ms, i < m.start) :
    tagsAt ms i = [] := by
  unfold tagsAt
  rw [List.map_eq_nil_iff, List.filter_eq_nil_iff]
  intro m hm hcovers
  exact absurd (of_decide_eq_true hcovers).1 (Int.not_le.mpr (h m hm))

theorem tagsAt_of_stop_le {ms : List (Mark T)} {i : ℤ} (h : ∀ m ∈ ms, m.stop ≤ i) :
    tagsAt ms i = [] := by
  unfold tagsAt
  rw [List.map_eq_nil_iff, List.filter_eq_nil_iff]
  intro m hm hcovers
  exact absurd (of_decide_eq_true hcovers).2 (Int.not_lt.mpr (h m hm))

end Ns3.Lib
