import Mathlib.Data.Int.Init
import Ns3.Lib.Run
import Ns3.Wifi.BlockAckWindow

/-!
# `RecipientBlockAckAgreement`

`recipient-block-ack-agreement.cc`: the scoreboard, and the buffer that puts the
MPDUs in order again. The buffer is a map that is sorted by the distance from
the window start, as the window start stands when a number is inserted.
-/

namespace Ns3.Wifi

open Ns3.Lib

/-- What `GetDistance` computes, before the conversion to `std::size_t`. -/
def intDistance (seqNumber startingSeqNumber : ℕ) : ℤ :=
  ((seqNumber : ℤ) - startingSeqNumber + seqnoSpaceSize).tmod seqnoSpaceSize

def getDistance (seqNumber startingSeqNumber : ℕ) : ℕ :=
  (intDistance seqNumber startingSeqNumber % 2 ^ 64).toNat

/-- `Compare`, for a window that starts at `winStartB`. -/
def compare (winStartB a b : ℕ) : Bool := decide (intDistance a winStartB < intDistance b winStartB)

variable {μ : Type}

/-- `m_bufferedMpdus.insert`: a number that is there already stays as it is. -/
def insert (winStartB : ℕ) (e : ℕ × μ) : List (ℕ × μ) → List (ℕ × μ)
  | [] => [e]
  | it :: rest =>
    if compare winStartB it.1 e.1 then it :: insert winStartB e rest
    else if compare winStartB e.1 it.1 then e :: it :: rest
    else it :: rest

/-- The MPDUs are of the type `μ`. -/
structure RecipientBlockAckAgreement (μ : Type) where
  scoreboard : BlockAckWindow
  winStartB : ℕ
  winSizeB : ℕ
  bufferedMpdus : List (ℕ × μ)

namespace RecipientBlockAckAgreement

/-- The constructor. -/
def new (bufferSize startingSeq : ℕ) : RecipientBlockAckAgreement μ :=
  ⟨.init startingSeq bufferSize, startingSeq, bufferSize, []⟩

variable (r : RecipientBlockAckAgreement μ)

/-- The loop of `PassBufferedMpdusUntilFirstLost`: what is passed up, what stays, and the window
start. -/
def untilFirstLost (winStartB : ℕ) : List (ℕ × μ) → List (ℕ × μ) × List (ℕ × μ) × ℕ
  | [] => ([], [], winStartB)
  | it :: rest =>
    if it.1 = winStartB then
      let r := untilFirstLost ((winStartB + 1) % seqnoSpaceSize) rest
      (it :: r.1, r.2)
    else ([], it :: rest, winStartB)

/-- Each `Pass...` function gives what it passes up. -/
def passBufferedMpdusUntilFirstLost : List (ℕ × μ) × RecipientBlockAckAgreement μ :=
  let (passed, rest, winStartB) := untilFirstLost r.winStartB r.bufferedMpdus
  (passed, { r with bufferedMpdus := rest, winStartB := winStartB })

def passBufferedMpdusWithSeqNumberLessThan (newWinStartB : ℕ) :
    List (ℕ × μ) × RecipientBlockAckAgreement μ :=
  let less (it : ℕ × μ) : Bool :=
    decide (getDistance it.1 r.winStartB < getDistance newWinStartB r.winStartB)
  (r.bufferedMpdus.takeWhile less,
    { r with bufferedMpdus := r.bufferedMpdus.dropWhile less, winStartB := newWinStartB })

/-- The update of the scoreboard in `NotifyReceivedMpdu`. -/
def markReceived (mpduSeqNumber : ℕ) : Option BlockAckWindow :=
  let distance := getDistance mpduSeqNumber r.scoreboard.winStart % 2 ^ 16
  if distance < r.scoreboard.getWinSize then r.scoreboard.mark distance
  else if distance < seqnoSpaceHalfSize then
    let scoreboard := r.scoreboard.advance (distance - r.scoreboard.getWinSize + 1)
    scoreboard.mark (scoreboard.getWinSize - 1)
  else some r.scoreboard

/-- The two `Pass...` calls after the window moved. -/
def moveWindow (newWinStartB : ℕ) : List (ℕ × μ) × RecipientBlockAckAgreement μ :=
  let (passed, r) := r.passBufferedMpdusWithSeqNumberLessThan newWinStartB
  let (passed', r) := r.passBufferedMpdusUntilFirstLost
  (passed ++ passed', r)

/-- The update of the receive reordering buffer in `NotifyReceivedMpdu`. -/
def reorder (mpduSeqNumber : ℕ) (mpdu : μ) : List (ℕ × μ) × RecipientBlockAckAgreement μ :=
  let distance := getDistance mpduSeqNumber r.winStartB % 2 ^ 16
  let buffered := { r with bufferedMpdus := insert r.winStartB (mpduSeqNumber, mpdu) r.bufferedMpdus }
  if distance < r.winSizeB then buffered.passBufferedMpdusUntilFirstLost
  else if distance < seqnoSpaceHalfSize then
    buffered.moveWindow (((mpduSeqNumber : ℤ) - r.winSizeB + 1) % 2 ^ 16).toNat
  else ([], r)

def notifyReceivedMpdu (mpduSeqNumber : ℕ) (mpdu : μ) :
    Option (List (ℕ × μ) × RecipientBlockAckAgreement μ) :=
  match r.markReceived mpduSeqNumber with
  | none => none
  | some scoreboard => some ({ r with scoreboard := scoreboard }.reorder mpduSeqNumber mpdu)

/-- The update of the scoreboard in `NotifyReceivedBar`. -/
def moveScoreboard (startingSequenceNumber : ℕ) : BlockAckWindow :=
  let distance := getDistance startingSequenceNumber r.scoreboard.winStart % 2 ^ 16
  if 0 < distance ∧ distance < r.scoreboard.getWinSize then r.scoreboard.advance distance
  else if 0 < distance ∧ distance < seqnoSpaceHalfSize then
    r.scoreboard.reset startingSequenceNumber
  else r.scoreboard

def notifyReceivedBar (startingSequenceNumber : ℕ) :
    List (ℕ × μ) × RecipientBlockAckAgreement μ :=
  let r := { r with scoreboard := r.moveScoreboard startingSequenceNumber }
  let distance := getDistance startingSequenceNumber r.winStartB % 2 ^ 16
  if 0 < distance ∧ distance < seqnoSpaceHalfSize then r.moveWindow startingSequenceNumber
  else ([], r)

end RecipientBlockAckAgreement

/-! ## Receiving -/

/-- How far it is from one sequence number to another. -/
def forward (a b : ℕ) : ℕ := (b + seqnoSpaceSize - a % seqnoSpaceSize) % seqnoSpaceSize

/-- A recipient, with the number of the window start when laps are counted, and what was passed
up, each MPDU with its number counted from the window start before it was passed up. -/
structure Reception (μ : Type) where
  agreement : RecipientBlockAckAgreement μ
  winStart : ℕ
  passedUp : List (ℕ × ℕ × μ)

/-- Sequence numbers in frames have 12 bits. -/
inductive Frame (μ : Type)
  | mpdu (mpduSeqNumber : ℕ) (mpdu : μ)
  | bar (startingSequenceNumber : ℕ)

namespace Reception

variable (w : Reception μ)

def passUp (r : List (ℕ × μ) × RecipientBlockAckAgreement μ) : Reception μ where
  agreement := r.2
  winStart := w.winStart + forward w.agreement.winStartB r.2.winStartB
  passedUp := w.passedUp ++ r.1.map fun it =>
    (w.winStart + forward w.agreement.winStartB it.1, it.1, it.2)

def step : Frame μ → Option (Reception μ)
  | .mpdu mpduSeqNumber mpdu =>
    if mpduSeqNumber < seqnoSpaceSize then
      match w.agreement.notifyReceivedMpdu mpduSeqNumber mpdu with
      | none => none
      | some r => some (w.passUp r)
    else none
  | .bar startingSequenceNumber =>
    if startingSequenceNumber < seqnoSpaceSize then
      some (w.passUp (w.agreement.notifyReceivedBar startingSequenceNumber))
    else none

def system (μ : Type) (bufferSize : ℕ) : System (Reception μ) (Frame μ) where
  init w := ∃ startingSeq < seqnoSpaceSize, w = ⟨.new bufferSize startingSeq, startingSeq, []⟩
  step w e w' := w.step e = some w'

/-- The window start that an MPDU beyond the window leads to is not negative. -/
def NoWrap (w : Reception μ) : Frame μ → Prop
  | .mpdu mpduSeqNumber _ =>
    w.agreement.winSizeB ≤ forward w.agreement.winStartB mpduSeqNumber →
      forward w.agreement.winStartB mpduSeqNumber < seqnoSpaceHalfSize →
        w.agreement.winSizeB ≤ mpduSeqNumber + 1
  | .bar _ => True

instance (w : Reception μ) : (e : Frame μ) → Decidable (w.NoWrap e)
  | .mpdu _ _ => inferInstanceAs (Decidable (_ → _ → _))
  | .bar _ => inferInstanceAs (Decidable True)

end Reception

end Ns3.Wifi
