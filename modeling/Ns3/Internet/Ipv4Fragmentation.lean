import Ns3.Lib.StdMap
import Ns3.Network.Packet
import Mathlib.Data.Prod.Lex

/-!
# IPv4 fragments

`DoFragmentation` and `ProcessFragment` of `ipv4-l3-protocol.cc`, and its
`Fragments`. The header has no options. An iterator of the list of timeouts is
the number its entry was given.
-/

namespace Ns3.Internet

open Ns3.Lib Ns3.Network

structure Ipv4Header where
  source : UInt32
  destination : UInt32
  identification : UInt16
  protocol : UInt8
  moreFragments : Bool
  fragmentOffset : ℕ
  payloadSize : ℕ
  deriving DecidableEq

namespace Ipv4Header

def serializedSize : ℕ := 5 * 4

def isLastFragment (h : Ipv4Header) : Bool := !h.moreFragments

/-- `SetFragmentOffset`, which aborts on an offset that is no multiple of 8. -/
def setFragmentOffset (h : Ipv4Header) (offsetBytes : ℕ) : Option Ipv4Header :=
  if offsetBytes % 8 = 0 then some { h with fragmentOffset := offsetBytes } else none

end Ipv4Header

open Ipv4Header

/-! ## Fragmentation -/

/-- `(outIfaceMtu - GetSerializedSize ()) & ~7`, in 32 bits. -/
def fragmentSize (outIfaceMtu : ℕ) : ℕ := (outIfaceMtu + 2 ^ 32 - serializedSize) % 2 ^ 32 / 8 * 8

/-- The loop of `DoFragmentation`, with `offset` in 16 bits. -/
def fragmentLoop (p : Packet) (ipv4Header : Ipv4Header) (size : ℕ) :
    ℕ → ℕ → List (Packet × Ipv4Header) → Option (List (Packet × Ipv4Header))
  | 0, _, _ => none
  | fuel + 1, offset, listFragments =>
    let moreFragment := decide ((offset + size) % 2 ^ 32 < p.getSize.toNat)
    let currentSize := if moreFragment then size else (p.getSize.toNat + 2 ^ 32 - offset) % 2 ^ 32
    let fragment := p.createFragment (BitVec.ofNat 32 offset) (BitVec.ofNat 32 currentSize)
    match ipv4Header.setFragmentOffset ((offset + ipv4Header.fragmentOffset) % 2 ^ 16) with
    | none => none
    | some fragmentHeader =>
      let listFragments := listFragments ++ [(fragment, { fragmentHeader with
        moreFragments := moreFragment || !ipv4Header.isLastFragment
        payloadSize := currentSize % 2 ^ 16 })]
      if moreFragment then
        fragmentLoop p ipv4Header size fuel ((offset + currentSize) % 2 ^ 16) listFragments
      else some listFragments

/-- `DoFragmentation`; `none` when it aborts or the rounds do not suffice. -/
def doFragmentation (fuel : ℕ) (packet : Packet) (ipv4Header : Ipv4Header) (outIfaceMtu : ℕ) :
    Option (List (Packet × Ipv4Header)) :=
  fragmentLoop packet ipv4Header (fragmentSize outIfaceMtu) fuel 0 []

/-! ## Reassembly -/

structure Fragments where
  moreFragment : Bool
  fragments : List (Packet × ℕ)
  timeoutIter : ℕ
  deriving DecidableEq

namespace Fragments

def new (iter : ℕ) : Fragments where
  moreFragment := false
  fragments := []
  timeoutIter := iter

/-- `AddFragment`: before the first fragment with a greater offset. -/
def addFragment (f : Fragments) (fragment : Packet) (fragmentOffset : ℕ) (moreFragment : Bool) :
    Fragments :=
  let passed := f.fragments.takeWhile fun it => it.2 ≤ fragmentOffset
  let rest := f.fragments.dropWhile fun it => it.2 ≤ fragmentOffset
  { f with
    moreFragment := if rest.isEmpty then moreFragment else f.moreFragment
    fragments := passed ++ (fragment, fragmentOffset) :: rest }

def isEntireLoop : ℕ → List (Packet × ℕ) → Bool
  | _, [] => true
  | lastEndOffset, it :: rest =>
    if lastEndOffset < it.2 then false
    else isEntireLoop (max lastEndOffset ((it.1.length + it.2) % 2 ^ 16)) rest

def isEntire (f : Fragments) : Bool :=
  !f.moreFragment && !f.fragments.isEmpty && isEntireLoop 0 f.fragments

def getPacketLoop : Packet → ℕ → List (Packet × ℕ) → Packet
  | p, _, [] => p
  | p, lastEndOffset, it :: rest =>
    let p :=
      if it.2 < lastEndOffset then
        let newStart := lastEndOffset - it.2
        if newStart < it.1.getSize.toNat then
          p ++ it.1.createFragment (BitVec.ofNat 32 newStart)
            (BitVec.ofNat 32 (it.1.getSize.toNat - newStart))
        else p
      else p ++ it.1
    getPacketLoop p (p.length % 2 ^ 16) rest

/-- `GetPacket`, which reads the first fragment. -/
def getPacket (f : Fragments) : Option Packet :=
  match f.fragments with
  | [] => none
  | it :: rest => some (getPacketLoop it.1 (it.1.length % 2 ^ 16) rest)

end Fragments

open Fragments

/-- `FragmentKey_t`, in the order of `std::pair`. -/
abbrev FragmentKey := ℕ ×ₗ ℕ

def fragmentKey (h : Ipv4Header) : FragmentKey :=
  toLex (h.source.toNat <<< 32 ||| h.destination.toNat,
    h.identification.toNat <<< 16 ||| h.protocol.toNat)

/-- An entry of `m_timeoutEventList`. -/
structure FragmentsTimeout where
  iter : ℕ
  time : ℤ
  key : FragmentKey
  ipHeader : Ipv4Header
  iif : ℕ
  deriving DecidableEq

/-- `nextIter` is the number of entries the list of timeouts was ever given. -/
structure Ipv4L3Protocol where
  fragments : StdMap FragmentKey Fragments
  timeoutEventList : List FragmentsTimeout
  nextIter : ℕ
  /-- When `HandleTimeout` will be called. A call outlives the entry it was made for, and
  `m_timeoutEvent` is only the latest of them. -/
  scheduled : List ℤ
  fragmentExpirationTimeout : ℤ

namespace Ipv4L3Protocol

def new (timeout : ℤ) : Ipv4L3Protocol where
  fragments := StdMap.empty
  timeoutEventList := []
  nextIter := 0
  scheduled := []
  fragmentExpirationTimeout := timeout

/-- `SetTimeout`, with the iterator it returns. -/
def setTimeout (s : Ipv4L3Protocol) (now : ℤ) (key : FragmentKey) (ipHeader : Ipv4Header)
    (iif : ℕ) : ℕ × Ipv4L3Protocol :=
  let time := now + s.fragmentExpirationTimeout
  (s.nextIter, { s with
    scheduled := if s.timeoutEventList.isEmpty then s.scheduled ++ [time] else s.scheduled
    timeoutEventList := s.timeoutEventList ++ [⟨s.nextIter, time, key, ipHeader, iif⟩]
    nextIter := s.nextIter + 1 })

/-- The first half of `ProcessFragment`: the fragments with the header's key, made where there are
none. They enter the map when `ProcessFragment` is done with them. -/
def findFragments (s : Ipv4L3Protocol) (now : ℤ) (ipHeader : Ipv4Header) (iif : ℕ) :
    Fragments × Ipv4L3Protocol :=
  match s.fragments.find (fragmentKey ipHeader) with
  | some fragments => (fragments, s)
  | none =>
    let timed := s.setTimeout now (fragmentKey ipHeader) ipHeader iif
    (Fragments.new timed.1, timed.2)

/-- `ProcessFragment`: what it returns and the packet it leaves to its caller. -/
def processFragment (s : Ipv4L3Protocol) (now : ℤ) (packet : Packet) (ipHeader : Ipv4Header)
    (iif : ℕ) : Option ((Bool × Packet) × Ipv4L3Protocol) :=
  let key := fragmentKey ipHeader
  let found := s.findFragments now ipHeader iif
  let s := found.2
  let fragments := found.1.addFragment packet ipHeader.fragmentOffset (!ipHeader.isLastFragment)
  if fragments.isEntire then
    match fragments.getPacket with
    | none => none
    | some whole => some ((true, whole), { s with
        timeoutEventList := s.timeoutEventList.eraseP (·.iter == fragments.timeoutIter)
        fragments := s.fragments.erase key })
  else some ((false, packet), { s with fragments := s.fragments.assign key fragments })

end Ipv4L3Protocol

end Ns3.Internet
