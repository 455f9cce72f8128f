import Mathlib.Data.BitVec
import Mathlib.Data.List.Basic
import Mathlib.Algebra.Group.Nat.Defs

/-!
# The addresses in use

`Ipv4AddressGeneratorImpl` (`ipv4-address-generator.cc`) as far as it remembers
which addresses were given out: a list of ranges. `none` is the end of the
program, by a fatal error or an abort.
-/

namespace Ns3.Internet

structure AddressEntry where
  addrLow : BitVec 32
  addrHigh : BitVec 32
  deriving DecidableEq, Repr

structure Ipv4AddressGenerator where
  entries : List AddressEntry
  test : Bool
  deriving DecidableEq, Repr

namespace Ipv4AddressGenerator

/-- A collision is only reported in test mode. -/
def collision (test : Bool) (entries : List AddressEntry) : Option (Bool × List AddressEntry) :=
  if test then some (false, entries) else none

/-- The loop of `AddAllocated`, which stops at the first range it can change. -/
def addLoop (test : Bool) (addr : BitVec 32) :
    List AddressEntry → Option (Bool × List AddressEntry)
  | [] => some (true, [⟨addr, addr⟩])
  | i :: rest =>
    if i.addrLow ≤ addr ∧ addr ≤ i.addrHigh then collision test (i :: rest)
    else if addr < i.addrLow - 1 then some (true, ⟨addr, addr⟩ :: i :: rest)
    else if addr = i.addrHigh + 1 then
      if rest.head?.any (addr == ·.addrLow) then collision test (i :: rest)
      else some (true, { i with addrHigh := addr } :: rest)
    else if addr = i.addrLow - 1 then some (true, { i with addrLow := addr } :: rest)
    else (addLoop test addr rest).map fun r => (r.1, i :: r.2)

def addAllocated (s : Ipv4AddressGenerator) (address : BitVec 32) :
    Option (Bool × Ipv4AddressGenerator) :=
  if address = 0 then none
  else (addLoop s.test address s.entries).map fun r => (r.1, { s with entries := r.2 })

/-- `IsAddressAllocated`, which answers `true` for an address that is free. -/
def isAddressAllocated (s : Ipv4AddressGenerator) (address : BitVec 32) : Option Bool :=
  if address = 0 then none
  else some (!s.entries.any fun i => i.addrLow ≤ address ∧ address ≤ i.addrHigh)

/-- `IsNetworkAllocated`, which answers `true` for a network that is free. -/
def isNetworkAllocated (s : Ipv4AddressGenerator) (address mask : BitVec 32) : Option Bool :=
  if address ≠ address &&& mask then none
  else some (!s.entries.any fun i =>
    address = i.addrLow &&& mask ∨ address = i.addrHigh &&& mask)

end Ipv4AddressGenerator

end Ns3.Internet
