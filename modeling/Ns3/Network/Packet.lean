import Mathlib.Data.BitVec
import Mathlib.Data.List.Basic

/-!
# Packets

The bytes of a packet, and `CreateFragment` of `packet.cc` and `buffer.cc`:
bytes are removed at the start and then at the end, each at most those there
are.
-/

namespace Ns3.Network

abbrev Packet := List UInt8

namespace Packet

def getSize (p : Packet) : BitVec 32 := BitVec.ofNat 32 p.length

/-- `CreateFragment`. What is removed at the end is counted modulo 2 ^ 32. -/
def createFragment (p : Packet) (start length : BitVec 32) : Packet :=
  let rest := p.drop start.toNat
  rest.take (rest.length - (p.getSize - (start + length)).toNat)

variable {p : Packet} {start length : ℕ}

theorem getSize_toNat (hp : p.length < 2 ^ 32) : p.getSize.toNat = p.length := by
  rw [getSize, BitVec.toNat_ofNat, Nat.mod_eq_of_lt hp]

theorem createFragment_eq (hp : p.length < 2 ^ 32) (h : start + length ≤ p.length) :
    p.createFragment (BitVec.ofNat 32 start) (BitVec.ofNat 32 length) =
      (p.drop start).take length := by
  unfold createFragment getSize
  have hstart : (BitVec.ofNat 32 start).toNat = start := by
    rw [BitVec.toNat_ofNat]
    omega
  have hend : (BitVec.ofNat 32 p.length - (BitVec.ofNat 32 start + BitVec.ofNat 32 length)).toNat =
      p.length - (start + length) := by
    simp only [BitVec.toNat_sub, BitVec.toNat_add, BitVec.toNat_ofNat]
    omega
  simp only [hstart, hend, List.length_drop]
  congr 1
  omega

/-- Nothing is left of a packet from its end on. -/
theorem createFragment_of_length_le {start length : BitVec 32} (h : p.length ≤ start.toNat) :
    p.createFragment start length = [] := by
  unfold createFragment
  simp only [List.drop_eq_nil_of_le h, List.take_nil]

end Packet

end Ns3.Network
