import Mathlib.Data.List.Chain
import Mathlib.Data.Nat.Init

/-!
# Messages cut into pieces

A piece says whether a message begins and whether one ends with it. `join` puts
the pieces of a frame onto what a receiver holds. Two receivers are compared by
`Behind`: the one that missed frames has delivered a subsequence of what the
other has, and holds the same beginning of a message or none.
-/

namespace Ns3.Lib

variable {α : Type}

structure Piece (α : Type) where
  content : List α
  first : Bool
  last : Bool
  deriving DecidableEq

/-- The messages that a receiver has put together, and the beginning of the next one. -/
structure Joined (α : Type) where
  delivered : List (List α)
  held : Option (List α)
  deriving DecidableEq

namespace Joined

def take (j : Joined α) (p : Piece α) : Joined α :=
  let start := if p.first = true then some p.content else j.held.map (· ++ p.content)
  if p.last = true then ⟨j.delivered ++ start.toList, none⟩ else ⟨j.delivered, start⟩

def join (j : Joined α) (ps : List (Piece α)) : Joined α := ps.foldl take j

/-- After a loss. -/
def forget (j : Joined α) : Joined α := { j with held := none }

def Behind (j j' : Joined α) : Prop :=
  j.delivered.Sublist j'.delivered ∧ (j.held = none ∨ j.held = j'.held)

variable {j j' : Joined α}

theorem Behind.refl : Behind j j := ⟨List.Sublist.refl _, .inr rfl⟩

theorem Behind.take (h : Behind j j') (p : Piece α) : Behind (j.take p) (j'.take p) := by
  obtain ⟨hsub, hheld⟩ := h
  have hstart : (if p.first = true then some p.content else j.held.map (· ++ p.content)) = none ∨
      (if p.first = true then some p.content else j.held.map (· ++ p.content)) =
        if p.first = true then some p.content else j'.held.map (· ++ p.content) := by
    by_cases hfirst : p.first = true
    · simp only [if_pos hfirst]
      exact .inr trivial
    · simp only [if_neg hfirst]
      rcases hheld with hnone | heq
      · exact .inl (by rw [hnone, Option.map_none])
      · exact .inr (by rw [heq])
  unfold Joined.take
  by_cases hlast : p.last = true
  · simp only [if_pos hlast]
    refine ⟨hsub.append ?_, .inl rfl⟩
    rcases hstart with hnone | heq
    · rw [hnone]
      exact List.nil_sublist _
    · rw [heq]
  · simp only [if_neg hlast]
    exact ⟨hsub, hstart⟩

theorem Behind.join (h : Behind j j') (ps : List (Piece α)) : Behind (j.join ps) (j'.join ps) := by
  induction ps generalizing j j' with
  | nil => exact h
  | cons p ps ih => exact ih (h.take p)

theorem delivered_take (j : Joined α) (p : Piece α) : j.delivered <+: (j.take p).delivered := by
  unfold take
  by_cases hlast : p.last = true
  · simp only [if_pos hlast]
    exact List.prefix_append _ _
  · simp only [if_neg hlast]
    exact List.prefix_rfl

theorem delivered_join (j : Joined α) (ps : List (Piece α)) :
    j.delivered <+: (j.join ps).delivered := by
  induction ps generalizing j with
  | nil => exact List.prefix_rfl
  | cons p ps ih => exact (delivered_take j p).trans (ih _)

/-- A frame that the one behind misses, once it knows. -/
theorem Behind.miss (h : Behind j j') (ps : List (Piece α)) : Behind j.forget (j'.join ps) :=
  ⟨h.1.trans (delivered_join j' ps).sublist, .inl rfl⟩

/-- The piece that a receiver waits for. -/
theorem take_onward (j : Joined α) (c : List α) (last : Bool) :
    j.take ⟨c, j.held.isNone, last⟩ =
      if last = true then ⟨j.delivered ++ [j.held.getD [] ++ c], none⟩
      else ⟨j.delivered, some (j.held.getD [] ++ c)⟩ := by
  obtain ⟨delivered, held⟩ := j
  cases held <;> rfl

/-- What a receiver has put together of the frames before the `n`th. -/
def upTo (F : ℕ → List (Piece α)) : ℕ → Joined α
  | 0 => ⟨[], none⟩
  | n + 1 => (upTo F n).join (F n)

theorem upTo_congr {F G : ℕ → List (Piece α)} {n : ℕ} (h : ∀ i < n, F i = G i) :
    upTo F n = upTo G n := by
  induction n with
  | zero => rfl
  | succ n ih =>
    rw [upTo, upTo, ih fun i hi => h i (Nat.lt_succ_of_lt hi), h n (Nat.lt_succ_self n)]

theorem delivered_upTo (F : ℕ → List (Piece α)) {m n : ℕ} (h : m ≤ n) :
    (upTo F m).delivered <+: (upTo F n).delivered := by
  induction n, h using Nat.le_induction with
  | base => exact List.prefix_rfl
  | succ n _ ih => exact ih.trans (delivered_join _ _)

/-- What a receiver of the frames with `got` has put together before the `n`th. -/
def through (F : ℕ → List (Piece α)) (got : ℕ → Bool) : ℕ → Joined α
  | 0 => ⟨[], none⟩
  | n + 1 => if got n = true then (through F got n).join (F n) else (through F got n).forget

theorem through_congr {F G : ℕ → List (Piece α)} {got got' : ℕ → Bool} {n : ℕ}
    (hF : ∀ i < n, F i = G i) (hgot : ∀ i < n, got i = got' i) :
    through F got n = through G got' n := by
  induction n with
  | zero => rfl
  | succ n ih =>
    rw [through, through, ih (fun i hi => hF i (Nat.lt_succ_of_lt hi))
      fun i hi => hgot i (Nat.lt_succ_of_lt hi), hF n (Nat.lt_succ_self n),
      hgot n (Nat.lt_succ_self n)]

theorem behind_through (F : ℕ → List (Piece α)) (got : ℕ → Bool) (n : ℕ) :
    Behind (through F got n) (upTo F n) := by
  induction n with
  | zero => exact Behind.refl
  | succ n ih =>
    rw [through, upTo]
    split
    · exact ih.join (F n)
    · exact ih.miss (F n)

theorem through_eq_upTo {F : ℕ → List (Piece α)} {got : ℕ → Bool} {n : ℕ}
    (h : ∀ i < n, got i = true) : through F got n = upTo F n := by
  induction n with
  | zero => rfl
  | succ n ih =>
    rw [through, if_pos (h n (Nat.lt_succ_self n)), ih fun i hi => h i (Nat.lt_succ_of_lt hi), upTo]

/-- Over a gap nothing is delivered, and nothing is held after it. -/
theorem through_gap {F : ℕ → List (Piece α)} {got : ℕ → Bool} {m n : ℕ} (hle : m ≤ n)
    (h : ∀ i, m ≤ i → i < n → got i = false) :
    through F got n = if m = n then through F got m else (through F got m).forget := by
  induction n, hle using Nat.le_induction with
  | base => rw [if_pos rfl]
  | succ n hle ih =>
    rw [through, h n hle (Nat.lt_succ_self n), if_neg (by decide),
      ih fun i hi hlt => h i hi (Nat.lt_succ_of_lt hlt),
      if_neg (Nat.ne_of_lt (Nat.lt_succ_of_le hle))]
    split <;> rfl

theorem take_eq (j : Joined α) (p : Piece α) :
    j.take p = ⟨j.delivered ++ (take ⟨[], j.held⟩ p).delivered, (take ⟨[], j.held⟩ p).held⟩ := by
  unfold take
  by_cases hlast : p.last = true
  · simp only [if_pos hlast, List.nil_append]
  · simp only [if_neg hlast, List.append_nil]

/-- What a frame adds does not depend on what was delivered before. -/
theorem join_eq (j : Joined α) (ps : List (Piece α)) :
    j.join ps = ⟨j.delivered ++ (join ⟨[], j.held⟩ ps).delivered, (join ⟨[], j.held⟩ ps).held⟩ := by
  induction ps generalizing j with
  | nil => exact congrArg (Joined.mk · j.held) (List.append_nil _).symm
  | cons p ps ih =>
    show (j.take p).join ps = ⟨_ ++ (join (take ⟨[], j.held⟩ p) ps).delivered,
      (join (take ⟨[], j.held⟩ p) ps).held⟩
    rw [ih (j.take p), ih (take ⟨[], j.held⟩ p), take_eq j p, List.append_assoc]

end Joined

/-! ## Frames

A frame carries the contents alone, and two bits for its two ends. -/

/-- The pieces of a frame. -/
def framePieces : Bool → Bool → List (List α) → List (Piece α)
  | _, _, [] => []
  | first, last, [c] => [⟨c, first, last⟩]
  | first, last, c :: c' :: cs => ⟨c, first, true⟩ :: framePieces true last (c' :: cs)

/-- One message ends and another begins wherever two pieces of a frame meet. -/
def Seamed (ps : List (Piece α)) : Prop := ps.IsChain fun p q => p.last = true ∧ q.first = true

theorem framePieces_of_seamed {ps : List (Piece α)} (h : Seamed ps) (hne : ps ≠ []) :
    framePieces (ps.head hne).first (ps.getLast hne).last (ps.map Piece.content) = ps := by
  induction ps with
  | nil => exact absurd rfl hne
  | cons p ps ih =>
    cases ps with
    | nil => rfl
    | cons q ps =>
      obtain ⟨⟨hlast, hfirst⟩, hrest⟩ := List.isChain_cons_cons.mp h
      have htail := ih hrest (List.cons_ne_nil q ps)
      rw [List.head_cons, hfirst] at htail
      rw [List.getLast_cons (List.cons_ne_nil q ps)]
      show ⟨p.content, p.first, true⟩ :: framePieces true _ ((q :: ps).map Piece.content) = _
      rw [htail, ← hlast]

namespace Joined

/-- Where nothing of a message is missing, everything is delivered. -/
theorem join_framePieces_true (j : Joined α) (c : List α) (cs : List (List α)) :
    j.join (framePieces true true (c :: cs)) = ⟨j.delivered ++ c :: cs, none⟩ := by
  induction cs generalizing j c with
  | nil => rfl
  | cons c' cs ih =>
    show (j.take ⟨c, true, true⟩).join (framePieces true true (c' :: cs)) = _
    rw [ih, take]
    simp

/-- The last message of the frame is kept. -/
theorem join_framePieces_open (j : Joined α) (c : List α) (cs : List (List α)) :
    j.join (framePieces true false (c :: cs)) =
      ⟨j.delivered ++ (c :: cs).dropLast, (c :: cs).getLast?⟩ := by
  induction cs generalizing j c with
  | nil => simp [framePieces, join, take]
  | cons c' cs ih =>
    show (j.take ⟨c, true, true⟩).join (framePieces true false (c' :: cs)) = _
    rw [ih, take]
    simp [List.getLast?_cons_cons]

/-- A frame that goes on with a message takes it up, and then is one that begins with one. -/
theorem join_framePieces_false (j : Joined α) (last : Bool) (c c' : List α) (cs : List (List α)) :
    j.join (framePieces false last (c :: c' :: cs)) =
      Joined.join ⟨j.delivered ++ (j.held.map (· ++ c)).toList, none⟩
        (framePieces true last (c' :: cs)) := rfl

end Joined

end Ns3.Lib
