import Mathlib.Order.Bounds.Defs
import Ns3.Wifi.RecipientBlockAckAgreement

/-!
# `OriginatorBlockAckAgreement`

`originator-block-ack-agreement.cc`: the transmit window, and how it moves when
an MPDU is transmitted, acknowledged or discarded.
-/

namespace Ns3.Wifi

open Ns3.Lib

namespace BlockAckWindow

/-- `At (distance)`, which throws in an empty window. -/
def marked (w : BlockAckWindow) (distance : ℕ) : Option Bool :=
  w.window[(w.head + distance) % w.window.length]?

end BlockAckWindow

namespace OriginatorBlockAckAgreement

variable (txWindow : BlockAckWindow)

/-- The loop of `AdvanceTxWindow`, `none` when it does not end within `fuel` rounds. -/
def untilUnmarked : ℕ → BlockAckWindow → Option BlockAckWindow
  | 0, _ => none
  | fuel + 1, txWindow =>
    match txWindow.marked 0 with
    | none => none
    | some false => some txWindow
    | some true => untilUnmarked fuel (txWindow.advance 1)

/-- A round resets one slot, so there are at most as many as slots. -/
def advanceTxWindow : Option BlockAckWindow := untilUnmarked (txWindow.getWinSize + 1) txWindow

def notifyTransmittedMpdu (mpduSeqNumber : ℕ) : Option BlockAckWindow :=
  let distance := getDistance mpduSeqNumber txWindow.winStart % 2 ^ 16
  if seqnoSpaceHalfSize ≤ distance then some txWindow
  else if txWindow.getWinSize ≤ distance then
    advanceTxWindow (txWindow.advance (distance - txWindow.getWinSize + 1))
  else some txWindow

def notifyAckedMpdu (mpduSeqNumber : ℕ) : Option BlockAckWindow :=
  let distance := getDistance mpduSeqNumber txWindow.winStart % 2 ^ 16
  if seqnoSpaceHalfSize ≤ distance then some txWindow
  else
    match txWindow.mark distance with
    | none => none
    | some txWindow => advanceTxWindow txWindow

def notifyDiscardedMpdu (mpduSeqNumber : ℕ) : Option BlockAckWindow :=
  let distance := getDistance mpduSeqNumber txWindow.winStart % 2 ^ 16
  if seqnoSpaceHalfSize ≤ distance then some txWindow
  else advanceTxWindow (txWindow.advance (distance + 1))

end OriginatorBlockAckAgreement

/-! ## Runs -/

inductive Outcome
  | transmitted
  | acked
  | discarded
  deriving DecidableEq

/-- What happened to the MPDU with a number. -/
structure Notification where
  outcome : Outcome
  number : ℕ
  deriving DecidableEq

open OriginatorBlockAckAgreement in
def notify (txWindow : BlockAckWindow) : Notification → Option BlockAckWindow
  | ⟨.transmitted, mpduSeqNumber⟩ => notifyTransmittedMpdu txWindow mpduSeqNumber
  | ⟨.acked, mpduSeqNumber⟩ => notifyAckedMpdu txWindow mpduSeqNumber
  | ⟨.discarded, mpduSeqNumber⟩ => notifyDiscardedMpdu txWindow mpduSeqNumber

/-- An originator, with the first number and the window start when laps are counted, and the
notifications that were not about old MPDUs, their numbers counted in the same way. -/
structure Origination where
  txWindow : BlockAckWindow
  first : ℕ
  winStart : ℕ
  notified : List Notification

namespace Origination

variable (w : Origination)

/-- How far the number of a notification is past the window start. -/
def ahead (e : Notification) : ℕ := forward w.txWindow.winStart e.number

def step (e : Notification) : Option Origination :=
  match notify w.txWindow e with
  | none => none
  | some txWindow => some
    { w with
      txWindow := txWindow
      winStart := w.winStart + forward w.txWindow.winStart txWindow.winStart
      notified :=
        if w.ahead e < seqnoSpaceHalfSize then ⟨e.outcome, w.winStart + w.ahead e⟩ :: w.notified
        else w.notified }

/-- Sequence numbers in frames have 12 bits, and no MPDU past the window is acknowledged. -/
def Legal (e : Notification) : Prop :=
  e.number < seqnoSpaceSize ∧ (e.outcome = .acked → w.ahead e < seqnoSpaceHalfSize →
    w.ahead e < w.txWindow.getWinSize)

instance (e : Notification) : Decidable (w.Legal e) := inferInstanceAs (Decidable (_ ∧ _))

/-- From `InitTxWindow` on. -/
def system (winSize : ℕ) : System Origination Notification where
  init w := ∃ startingSeq < seqnoSpaceSize,
    w = ⟨.init startingSeq winSize, startingSeq, startingSeq, []⟩
  step w e w' := w.Legal e ∧ w.step e = some w'

/-! ## The window that is meant -/

def Acked (n : ℕ) : Prop := ⟨.acked, n⟩ ∈ w.notified

instance (n : ℕ) : Decidable (w.Acked n) := inferInstanceAs (Decidable (_ ∈ _))

/-- The number was discarded, or comes before one that was, or is too far behind one that was
transmitted for both to be in the window. -/
def Passed (n : ℕ) : Prop :=
  (∃ m, ⟨.discarded, m⟩ ∈ w.notified ∧ n ≤ m) ∨
    ∃ m, ⟨.transmitted, m⟩ ∈ w.notified ∧ n + w.txWindow.getWinSize ≤ m

/-- The start is the earliest number that is neither acknowledged nor passed, and the slots are
marked for the acknowledged numbers. -/
structure Tracks (winSize : ℕ) : Prop where
  size : w.txWindow.getWinSize = winSize
  winStart : w.txWindow.winStart = w.winStart % seqnoSpaceSize
  marked : ∀ distance < winSize,
    w.txWindow.marked distance = some (decide (w.Acked (w.winStart + distance)))
  unmarked : w.txWindow.marked 0 = some false
  earliest : IsLeast {n | w.first ≤ n ∧ ¬ w.Acked n ∧ ¬ w.Passed n} w.winStart

end Origination

end Ns3.Wifi
