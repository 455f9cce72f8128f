import Ns3.Network.Buffer
import Mathlib.Data.BitVec

/-!
# `NixVector`

`nix-vector.cc`: indices of any width up to 32 bits, packed into words. A shift
of a word by 32 bits or more is undefined in C++: the functions return `none`
there, and where they end the program or read outside of a vector or a buffer.
-/

namespace Ns3.Network

structure NixVector where
  nixVector : List (BitVec 32)
  used : ℕ
  currentVectorBitSize : ℕ
  totalBitSize : ℕ
  deriving DecidableEq, Repr

namespace NixVector

def new : NixVector := ⟨[0], 0, 0, 0⟩

/-- `x << n`. -/
def shl (x : BitVec 32) (n : ℕ) : Option (BitVec 32) := if n < 32 then some (x <<< n) else none

/-- `x >> n`. -/
def shr (x : BitVec 32) (n : ℕ) : Option (BitVec 32) := if n < 32 then some (x >>> n) else none

def addNeighborIndex (v : NixVector) (newBits : BitVec 32) (numberOfBits : ℕ) :
    Option NixVector :=
  if 32 < numberOfBits then none
  else if 32 < add32 v.currentVectorBitSize numberOfBits then
    if v.currentVectorBitSize = 32 then
      some { v with
        nixVector := v.nixVector ++ [newBits]
        currentVectorBitSize := numberOfBits
        totalBitSize := add32 v.totalBitSize numberOfBits }
    else do
      let tempBits ← shl newBits v.currentVectorBitSize
      let back ← v.nixVector.getLast?
      let newBits ← shr newBits (sub32 32 v.currentVectorBitSize)
      return { v with
        nixVector := v.nixVector.dropLast ++ [tempBits ||| back, newBits]
        currentVectorBitSize := sub32 numberOfBits (sub32 32 v.currentVectorBitSize)
        totalBitSize := add32 v.totalBitSize numberOfBits }
  else do
    let newBits ← shl newBits v.currentVectorBitSize
    let back ← v.nixVector.getLast?
    return { v with
      nixVector := v.nixVector.dropLast ++ [newBits ||| back]
      currentVectorBitSize := add32 v.currentVectorBitSize numberOfBits
      totalBitSize := add32 v.totalBitSize numberOfBits }

def getRemainingBits (v : NixVector) : ℕ := sub32 v.totalBitSize v.used

/-- `ExtractNeighborIndex`. Behind its checks no subtraction wraps. -/
def extractNeighborIndex (v : NixVector) (numberOfBits : ℕ) : Option (BitVec 32 × NixVector) :=
  let totalRemainingBits := v.getRemainingBits
  if 32 < numberOfBits then none
  else if totalRemainingBits < numberOfBits then none
  else if numberOfBits = 0 then none
  else do
    let vectorIndex := (totalRemainingBits - 1) / 32
    let word ← v.nixVector[vectorIndex]?
    -- the index lies in two words
    if 0 < vectorIndex ∧ (totalRemainingBits - 1) % 32 < numberOfBits - 1 then
      let high ← shl word (32 - totalRemainingBits % 32)
      let high ← shr high
        ((32 - totalRemainingBits % 32) - (numberOfBits - totalRemainingBits % 32))
      let low ← v.nixVector[vectorIndex - 1]?
      let low ← shr low (32 - (numberOfBits - totalRemainingBits % 32))
      return (high ||| low, { v with used := add32 v.used numberOfBits })
    else
      let extractedBits ← shl word (32 - totalRemainingBits % 32)
      let extractedBits ← shr extractedBits (32 - numberOfBits)
      return (extractedBits, { v with used := add32 v.used numberOfBits })

/-! ## Serialization -/

def getSerializedSize (v : NixVector) : ℕ := (12 + 4 * v.nixVector.length) % 2 ^ 32

/-- Writes words as long as there is space for them. -/
def writeWords (maxSize : ℕ) : ℕ → List (BitVec 32) → Option (List (BitVec 32))
  | _, [] => some []
  | size, w :: ws =>
    if add32 size 4 ≤ maxSize then (writeWords maxSize (add32 size 4) ws).map (w :: ·) else none

def serialize (v : NixVector) (maxSize : ℕ) : Option (List (BitVec 32)) :=
  writeWords maxSize 0 (BitVec.ofNat 32 v.used :: BitVec.ofNat 32 v.currentVectorBitSize ::
    BitVec.ofNat 32 v.totalBitSize :: v.nixVector)

/-- The loop of `Deserialize`, which ends at a `sizeCheck` of 0 only. -/
def readWords : ℕ → List (BitVec 32) → Option (List (BitVec 32))
  | sizeCheck, [] => if sizeCheck = 0 then some [] else none
  | sizeCheck, w :: ws =>
    if sizeCheck = 0 then some [] else (readWords (sub32 sizeCheck 4) ws).map (w :: ·)

def deserialize (buffer : List (BitVec 32)) (size : ℕ) : Option NixVector :=
  match buffer with
  | used :: currentVectorBitSize :: totalBitSize :: rest => do
    let words ← readWords (sub32 (sub32 (sub32 (sub32 size 4) 4) 4) 4) rest
    return ⟨words, used.toNat, currentVectorBitSize.toNat, totalBitSize.toNat⟩
  | _ => none

/-- What `Packet` does with it: the size that it stores counts itself. -/
def reload (v : NixVector) : Option NixVector := do
  let buffer ← v.serialize v.getSerializedSize
  deserialize buffer (add32 v.getSerializedSize 4)

end NixVector

end Ns3.Network
