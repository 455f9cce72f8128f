import Mathlib.Data.Int.Order.Basic
import Ns3.Network.ByteTagList

/-!
# What the operations on byte tags do

The marks of a list are its stored offsets, moved by the adjustment. As long as
no offset leaves the 32 bits, each operation is described by the tags that are
on a position afterwards.
-/

namespace Ns3.Network

open Ns3.Lib

variable {T : Type}

def InRange (x : ℤ) : Prop := -2 ^ 31 ≤ x ∧ x < 2 ^ 31

theorem int32_eq {x : ℤ} (h : InRange x) : int32 x = x := by
  obtain ⟨hlow, hhigh⟩ := h
  exact Int.bmod_eq_of_le_mul_two (by omega) (by omega)

namespace ByteTagList

/-- The offsets as they are in the packet. -/
def marks (l : ByteTagList T) : List (Mark T) := l.data.map (Mark.shift l.adjustment)

/-- `minStart` and `maxEnd` are bounds of what is stored. -/
def Bounded (l : ByteTagList T) : Prop := ∀ m ∈ l.data, l.minStart ≤ m.start ∧ m.stop ≤ l.maxEnd

/-- All offsets are at most `x` from the beginning of the packet. -/
def Spans (l : ByteTagList T) (x : ℤ) : Prop :=
  ∀ m ∈ l.marks, (-x ≤ m.start ∧ m.start ≤ x) ∧ -x ≤ m.stop ∧ m.stop ≤ x

/-- No mark is empty. -/
def Proper (l : ByteTagList T) : Prop := ∀ m ∈ l.data, m.start < m.stop

variable {l o : ByteTagList T} {x k : ℤ}

theorem bounded_new : (new : ByteTagList T).Bounded := fun _ h => absurd h List.not_mem_nil

theorem proper_new : (new : ByteTagList T).Proper := fun _ h => absurd h List.not_mem_nil

theorem start_le_of_bounded (h : l.Bounded) (hk : k - l.adjustment ≤ l.minStart) :
    ∀ m ∈ l.marks, k ≤ m.start := by
  intro m hm
  obtain ⟨m, hm', rfl⟩ := List.mem_map.mp hm
  have := (h m hm').1
  unfold Mark.shift
  dsimp only
  omega

theorem stop_le_of_bounded (h : l.Bounded) (hk : l.maxEnd ≤ k - l.adjustment) :
    ∀ m ∈ l.marks, m.stop ≤ k := by
  intro m hm
  obtain ⟨m, hm', rfl⟩ := List.mem_map.mp hm
  have := (h m hm').2
  unfold Mark.shift
  dsimp only
  omega

/-! ## The primitive operations -/

theorem items_eq (hl : l.Spans x) (hx : x < 2 ^ 31) (lo hi : ℤ) :
    l.items lo hi = l.marks.filterMap (Mark.clip lo hi) := by
  unfold items marks
  rw [List.filterMap_map]
  refine List.filterMap_congr fun m hm => ?_
  obtain ⟨⟨hstart, hstart'⟩, hstop, hstop'⟩ := hl _ (List.mem_map_of_mem hm)
  have hstart'' : int32 (m.start + l.adjustment) = m.start + l.adjustment :=
    int32_eq ⟨(by omega : -2 ^ 31 ≤ -x).trans hstart, Int.lt_of_le_of_lt hstart' hx⟩
  have hstop'' : int32 (m.stop + l.adjustment) = m.stop + l.adjustment :=
    int32_eq ⟨(by omega : -2 ^ 31 ≤ -x).trans hstop, Int.lt_of_le_of_lt hstop' hx⟩
  dsimp only
  rw [hstart'', hstop'']
  rfl

theorem marks_add {tag : T} {start stop : ℤ} (hstart : InRange (start - l.adjustment))
    (hstop : InRange (stop - l.adjustment)) :
    (l.add tag start stop).marks = l.marks ++ [⟨tag, start, stop⟩] := by
  unfold add marks
  rw [int32_eq hstart, int32_eq hstop]
  dsimp only
  rw [List.map_append, List.map_singleton]
  unfold Mark.shift
  dsimp only
  rw [Int.sub_add_cancel, Int.sub_add_cancel]

theorem Bounded.add (h : l.Bounded) (tag : T) (start stop : ℤ) :
    (l.add tag start stop).Bounded := by
  intro m hm
  unfold ByteTagList.add at hm ⊢
  dsimp only at hm ⊢
  rcases List.mem_append.mp hm with hm | hm
  · have := h m hm
    split_ifs <;> omega
  · rw [List.mem_singleton.mp hm]
    dsimp only
    split_ifs <;> omega

theorem Proper.add (h : l.Proper) {tag : T} {start stop : ℤ} (hlt : start < stop)
    (hstart : InRange (start - l.adjustment)) (hstop : InRange (stop - l.adjustment)) :
    (l.add tag start stop).Proper := by
  intro m hm
  unfold ByteTagList.add at hm
  rw [int32_eq hstart, int32_eq hstop] at hm
  rcases List.mem_append.mp hm with hm | hm
  · exact h m hm
  · rw [List.mem_singleton.mp hm]
    exact Int.sub_lt_sub_right hlt _

theorem adjust_eq (hk : InRange (l.adjustment + k)) :
    l.adjust k = { l with adjustment := l.adjustment + k } := by
  unfold adjust
  rw [int32_eq hk]

theorem marks_adjust (hk : InRange (l.adjustment + k)) :
    (l.adjust k).marks = l.marks.map (Mark.shift k) := by
  rw [adjust_eq hk]
  unfold marks
  rw [List.map_map]
  exact List.map_congr_left fun m _ => (Mark.shift_shift m _ _).symm

/-- Marks are added one after the other. -/
theorem foldl_add_spec {ms : List (Mark T)}
    (hms : ∀ m ∈ ms, InRange (m.start - l.adjustment) ∧ InRange (m.stop - l.adjustment)) :
    let l' := ms.foldl (fun l m => l.add m.tag m.start m.stop) l
    l'.marks = l.marks ++ ms ∧ l'.adjustment = l.adjustment ∧ (l.Bounded → l'.Bounded) ∧
      (l.Proper → (∀ m ∈ ms, m.start < m.stop) → l'.Proper) := by
  induction ms generalizing l with
  | nil => exact ⟨(List.append_nil _).symm, rfl, id, fun h _ => h⟩
  | cons m ms ih =>
    obtain ⟨hstart, hstop⟩ := hms m List.mem_cons_self
    obtain ⟨hmarks, hadjustment, hbounded, hproper⟩ :=
      ih (l := l.add m.tag m.start m.stop) fun m' hm' => hms m' (List.mem_cons_of_mem _ hm')
    refine ⟨?_, hadjustment, fun h => hbounded (h.add _ _ _), fun h hlt =>
      hproper (h.add (hlt m List.mem_cons_self) hstart hstop) fun m' hm' =>
        hlt m' (List.mem_cons_of_mem _ hm')⟩
    rw [List.foldl_cons, hmarks, marks_add hstart hstop, List.append_assoc]
    rfl

/-! ## Bytes are added at one end -/

/-- A list that is made anew from marks. -/
theorem rebuild_spec {ms : List (Mark T)} (hx : x < 2 ^ 31)
    (hms : ∀ m ∈ ms, (-x ≤ m.start ∧ m.start ≤ x) ∧ -x ≤ m.stop ∧ m.stop ≤ x) :
    let l' := ms.foldl (fun l m => l.add m.tag m.start m.stop) (new : ByteTagList T)
    l'.marks = ms ∧ l'.adjustment = 0 ∧ l'.Bounded ∧ l'.Spans x ∧
      ((∀ m ∈ ms, m.start < m.stop) → l'.Proper) := by
  have hnew : (new : ByteTagList T).adjustment = 0 := rfl
  obtain ⟨hmarks, hadjustment, hbounded, hproper⟩ := foldl_add_spec (l := new) fun m hm => by
    obtain ⟨⟨hstart, hstart'⟩, hstop, hstop'⟩ := hms m hm
    rw [hnew, Int.sub_zero, Int.sub_zero]
    exact ⟨⟨by omega, by omega⟩, by omega, by omega⟩
  refine ⟨hmarks, hadjustment, hbounded bounded_new, ?_, hproper proper_new⟩
  unfold Spans
  rw [hmarks]
  exact hms

theorem addAtEnd_eq (l : ByteTagList T) (k : ℤ) : l.addAtEnd k =
    if l.maxEnd ≤ int32 (k - l.adjustment) then l
    else (l.itemsAll.filterMap (Mark.cutEnd k)).foldl (fun l m => l.add m.tag m.start m.stop)
      new := by
  unfold addAtEnd
  rw [List.foldl_filterMap]
  congr 2
  funext list item
  unfold Mark.cutEnd
  split <;> rfl

theorem addAtStart_eq (l : ByteTagList T) (k : ℤ) : l.addAtStart k =
    if int32 (k - l.adjustment) ≤ l.minStart then l
    else (l.itemsAll.filterMap (Mark.cutStart k)).foldl (fun l m => l.add m.tag m.start m.stop)
      new := by
  unfold addAtStart
  rw [List.foldl_filterMap]
  congr 2
  funext list item
  unfold Mark.cutStart
  split <;> rfl

/-- What the iterator over all tags returns lies in the packet and goes no further than the mark. -/
theorem mem_itemsAll (hspans : l.Spans x) (hx : x < 2 ^ 31) {m : Mark T} (hm : m ∈ l.itemsAll) :
    0 ≤ m.start ∧ 0 ≤ m.stop ∧ m.start ≤ max x 0 ∧ m.stop ≤ max x 0 ∧
      (l.Proper → m.start < m.stop) := by
  unfold itemsAll at hm
  rw [items_eq hspans hx, List.mem_filterMap] at hm
  obtain ⟨m₀, hm₀, hclip⟩ := hm
  obtain ⟨⟨-, hstart⟩, -, hstop⟩ := hspans m₀ hm₀
  obtain ⟨m₁, hm₁, rfl⟩ := List.mem_map.mp hm₀
  have hproper : l.Proper → (m₁.shift l.adjustment).start < (m₁.shift l.adjustment).stop :=
    fun h => Int.add_lt_add_right (h m₁ hm₁) _
  unfold Mark.clip at hclip
  split at hclip
  · cases hclip
  · cases hclip
    unfold offsetMax at *
    dsimp only at *
    refine ⟨by omega, by omega, by omega, by omega, fun h => ?_⟩
    have := hproper h
    omega

/-- **Bytes are added at the end** `k`: the tags on what was there stay, and no tag is on what is
added. -/
theorem addAtEnd_spec (hb : l.Bounded) (hspans : l.Spans x) (hx : x < 2 ^ 31) (hk : 0 ≤ k)
    (hkx : k ≤ x) (hrange : InRange (k - l.adjustment)) :
    (∀ i, 0 ≤ i → tagsAt (l.addAtEnd k).marks i = if i < k then tagsAt l.marks i else []) ∧
      (l.addAtEnd k).Bounded ∧ (l.addAtEnd k).Spans x ∧
      ((l.addAtEnd k).adjustment = l.adjustment ∨ (l.addAtEnd k).adjustment = 0) ∧
      (l.Proper → (l.addAtEnd k).Proper) := by
  rw [addAtEnd_eq, int32_eq hrange]
  by_cases hend : l.maxEnd ≤ k - l.adjustment
  · rw [if_pos hend]
    refine ⟨fun i _ => ?_, hb, hspans, .inl rfl, id⟩
    split
    · rfl
    · rename_i hki
      exact tagsAt_of_stop_le fun m hm =>
        (stop_le_of_bounded hb hend m hm).trans (Int.not_lt.mp hki)
  · rw [if_neg hend]
    have hcut : ∀ m ∈ l.itemsAll.filterMap (Mark.cutEnd k), 0 ≤ m.start ∧ m.start ≤ x ∧ 0 ≤ m.stop ∧
        m.stop ≤ x ∧ (l.Proper → m.start < m.stop) := by
      intro m hm
      obtain ⟨m₀, hm₀, hcut⟩ := List.mem_filterMap.mp hm
      obtain ⟨hstart, hstop, hstart', hstop', hproper⟩ := mem_itemsAll hspans hx hm₀
      unfold Mark.cutEnd at hcut
      split at hcut
      · cases hcut
      · cases hcut
        dsimp only
        refine ⟨hstart, by omega, by split <;> omega, by split <;> omega, fun h => ?_⟩
        have := hproper h
        split <;> omega
    obtain ⟨hmarks, hadjustment, hbounded, hspans', hproper⟩ := rebuild_spec hx fun m hm => by
      obtain ⟨hstart, hstart', hstop, hstop', -⟩ := hcut m hm
      exact ⟨⟨by omega, hstart'⟩, by omega, hstop'⟩
    refine ⟨fun i hi => ?_, hbounded, hspans', .inr hadjustment,
      fun h => hproper fun m hm => (hcut m hm).2.2.2.2 h⟩
    rw [hmarks, tagsAt_filterMap_cutEnd]
    unfold itemsAll
    rw [items_eq hspans hx, tagsAt_filterMap_clip]
    refine if_ctx_congr Iff.rfl (fun hik => if_pos ⟨hi, ?_⟩) fun _ => rfl
    unfold offsetMax
    omega

/-- **Bytes are added at the start**, up to `k`. -/
theorem addAtStart_spec (hb : l.Bounded) (hspans : l.Spans x) (hx : x < 2 ^ 31) (hk : 0 ≤ k)
    (hkx : k ≤ x) (hrange : InRange (k - l.adjustment)) :
    (∀ i < offsetMax, tagsAt (l.addAtStart k).marks i = if k ≤ i then tagsAt l.marks i else []) ∧
      (l.addAtStart k).Bounded ∧ (l.addAtStart k).Spans x ∧
      ((l.addAtStart k).adjustment = l.adjustment ∨ (l.addAtStart k).adjustment = 0) ∧
      (l.Proper → (l.addAtStart k).Proper) := by
  rw [addAtStart_eq, int32_eq hrange]
  by_cases hstart : k - l.adjustment ≤ l.minStart
  · rw [if_pos hstart]
    refine ⟨fun i _ => ?_, hb, hspans, .inl rfl, id⟩
    split
    · rfl
    · rename_i hki
      exact tagsAt_of_le_start fun m hm =>
        Int.lt_of_lt_of_le (Int.not_le.mp hki) (start_le_of_bounded hb hstart m hm)
  · rw [if_neg hstart]
    have hcut : ∀ m ∈ l.itemsAll.filterMap (Mark.cutStart k), 0 ≤ m.start ∧ m.start ≤ x ∧
        0 ≤ m.stop ∧ m.stop ≤ x ∧ (l.Proper → m.start < m.stop) := by
      intro m hm
      obtain ⟨m₀, hm₀, hcut⟩ := List.mem_filterMap.mp hm
      obtain ⟨hstart, hstop, hstart', hstop', hproper⟩ := mem_itemsAll hspans hx hm₀
      unfold Mark.cutStart at hcut
      split at hcut
      · cases hcut
      · cases hcut
        dsimp only
        refine ⟨by split <;> omega, by split <;> omega, hstop, by omega, fun h => ?_⟩
        have := hproper h
        split <;> omega
    obtain ⟨hmarks, hadjustment, hbounded, hspans', hproper⟩ := rebuild_spec hx fun m hm => by
      obtain ⟨hstart, hstart', hstop, hstop', -⟩ := hcut m hm
      exact ⟨⟨by omega, hstart'⟩, by omega, hstop'⟩
    refine ⟨fun i hi => ?_, hbounded, hspans', .inr hadjustment,
      fun h => hproper fun m hm => (hcut m hm).2.2.2.2 h⟩
    rw [hmarks, tagsAt_filterMap_cutStart]
    unfold itemsAll
    rw [items_eq hspans hx, tagsAt_filterMap_clip]
    exact if_ctx_congr Iff.rfl (fun hki => if_pos ⟨hk.trans hki, hi⟩) fun _ => rfl

/-- **The tags of another list are added.** -/
theorem addAll_spec {y : ℤ} (hspans : o.Spans x) (hx : x < 2 ^ 31)
    (hadjustment : -y ≤ l.adjustment ∧ l.adjustment ≤ y) (hxy : max x 0 + y < 2 ^ 31) :
    (l.addAll o).marks = l.marks ++ o.itemsAll ∧ (l.Bounded → (l.addAll o).Bounded) ∧
      (l.Proper → o.Proper → (l.addAll o).Proper) := by
  have hitems : ∀ m ∈ o.itemsAll, InRange (m.start - l.adjustment) ∧
      InRange (m.stop - l.adjustment) := by
    intro m hm
    obtain ⟨hstart, hstop, hstart', hstop', -⟩ := mem_itemsAll hspans hx hm
    exact ⟨⟨by omega, by omega⟩, by omega, by omega⟩
  obtain ⟨hmarks, -, hbounded, hproper⟩ := foldl_add_spec hitems
  exact ⟨hmarks, hbounded, fun hl ho =>
    hproper hl fun m hm => (mem_itemsAll hspans hx hm).2.2.2.2 ho⟩

end ByteTagList

end Ns3.Network
