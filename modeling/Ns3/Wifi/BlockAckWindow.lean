import Mathlib.Data.List.Basic
import Mathlib.Algebra.Group.Int.Defs
import Mathlib.Algebra.Group.Nat.Defs

/-!
# `BlockAckWindow`

`block-ack-window.cc`: a window of the sequence numbers, kept in a circular
buffer. Sequence numbers have 12 bits.
-/

namespace Ns3.Wifi

/-- `SEQNO_SPACE_SIZE`. -/
abbrev seqnoSpaceSize : ℕ := 4096

/-- `SEQNO_SPACE_HALF_SIZE`. -/
abbrev seqnoSpaceHalfSize : ℕ := 2048

structure BlockAckWindow where
  winStart : ℕ
  window : List Bool
  head : ℕ
  deriving DecidableEq

namespace BlockAckWindow

def init (winStart winSize : ℕ) : BlockAckWindow := ⟨winStart, List.replicate winSize false, 0⟩

variable (w : BlockAckWindow)

def reset (winStart : ℕ) : BlockAckWindow := init winStart w.window.length

def getWinSize : ℕ := w.window.length

/-- `At (distance) = true`; in an empty window this divides by zero. -/
def mark (distance : ℕ) : Option BlockAckWindow :=
  if w.window.length = 0 then none
  else some { w with window := w.window.set ((w.head + distance) % w.window.length) true }

/-- The loop of `Advance`. -/
def clear : ℕ → BlockAckWindow → BlockAckWindow
  | 0, w => w
  | count + 1, w => clear count
      { w with window := w.window.set w.head false, head := (w.head + 1) % w.window.length }

def advance (count : ℕ) : BlockAckWindow :=
  if w.getWinSize ≤ count then w.reset ((w.winStart + count) % seqnoSpaceSize)
  else { clear count w with winStart := (w.winStart + count) % seqnoSpaceSize }

variable {w}

@[simp] theorem getWinSize_reset (winStart : ℕ) : (w.reset winStart).getWinSize = w.getWinSize :=
  List.length_replicate

theorem getWinSize_mark {w' : BlockAckWindow} {distance : ℕ} (h : w.mark distance = some w') :
    w'.getWinSize = w.getWinSize := by
  obtain ⟨-, ⟨⟩⟩ := Option.ite_none_left_eq_some.mp h
  exact List.length_set

theorem getWinSize_clear (count : ℕ) : (clear count w).getWinSize = w.getWinSize := by
  induction count generalizing w with
  | zero => rfl
  | succ count ih => exact ih.trans List.length_set

@[simp] theorem getWinSize_advance (count : ℕ) : (w.advance count).getWinSize = w.getWinSize := by
  unfold advance
  split
  · exact getWinSize_reset _
  · exact getWinSize_clear count

end BlockAckWindow

end Ns3.Wifi
