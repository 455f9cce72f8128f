import Mathlib.Data.UInt
import Mathlib.Data.List.Basic
import Ns3.Lib.While

/-!
# Next hops of the global route manager

`SPFGetNextLink` and `SPFNexthopCalculation` of `global-route-manager-impl.cc`.
A pointer to a link record is its place in the list of its advertisement, a
pointer to a vertex a number that the vertex has as `self`. The interfaces of
the root node answer `FindOutgoingInterfaceId`.
-/

namespace Ns3.Internet

open Ns3.Lib

/-- What is read of a `GlobalRoutingLinkRecord`. -/
structure GlobalRoutingLinkRecord where
  linkId : UInt32
  linkData : UInt32
  deriving DecidableEq, Repr

/-- What is read of a `GlobalRoutingLSA`. -/
structure GlobalRoutingLSA where
  linkStateId : UInt32
  networkLSANetworkMask : UInt32
  linkRecords : List GlobalRoutingLinkRecord
  deriving DecidableEq, Repr

inductive VertexType
  | vertexUnknown
  | vertexRouter
  | vertexNetwork
  deriving DecidableEq, Repr

structure SPFVertex where
  self : ℕ
  vertexType : VertexType
  vertexId : UInt32
  lsa : GlobalRoutingLSA
  distanceFromRoot : UInt32
  rootOif : UInt32
  nextHop : UInt32
  /-- `m_ecmpRootExits`: next hops, each with its outgoing interface. -/
  ecmpRootExits : List (UInt32 × UInt32)
  parents : List ℕ
  deriving DecidableEq, Repr

namespace SPFVertex

/-- `SetRootExitDirection`: always only one root's exit. -/
def setRootExitDirection (v : SPFVertex) (nextHop id : UInt32) : SPFVertex :=
  { v with ecmpRootExits := [(nextHop, id)], nextHop := nextHop, rootOif := id }

/-- `GetRootExitDirection ()`, the first exit. -/
def getRootExitDirection (v : SPFVertex) : Option (UInt32 × UInt32) := v.ecmpRootExits.head?

def inheritAllRootExitDirections (v vertex : SPFVertex) : SPFVertex :=
  { v with ecmpRootExits := vertex.ecmpRootExits }

def setDistanceFromRoot (v : SPFVertex) (distance : UInt32) : SPFVertex :=
  { v with distanceFromRoot := distance }

/-- `SetParent`: always only one parent. -/
def setParent (v parent : SPFVertex) : SPFVertex := { v with parents := [parent.self] }

/-- `GetParent (0)`. -/
def getParent (v : SPFVertex) : Option ℕ := v.parents.head?

end SPFVertex

/-! ## Links back to a vertex -/

/-- The loop of `SPFGetNextLink` over the records from place `i` on. -/
def nextLinkLoop (vertexId : UInt32) (skip foundPrevLink : Bool) (i : ℕ) :
    List GlobalRoutingLinkRecord → Option ℕ
  | [] => none
  | l :: ls =>
    if l.linkId = vertexId then
      if foundPrevLink = false then nextLinkLoop vertexId skip true (i + 1) ls
      else if skip = false then some i
      else nextLinkLoop vertexId false foundPrevLink (i + 1) ls
    else nextLinkLoop vertexId skip foundPrevLink (i + 1) ls

/-- `SPFGetNextLink`, a link of `v` to `w`. -/
def spfGetNextLink (v w : SPFVertex) (prevLink : Option ℕ) : Option ℕ :=
  let skip := prevLink.isSome
  let foundPrevLink := prevLink.isNone
  nextLinkLoop w.vertexId skip foundPrevLink 0 v.lsa.linkRecords

/-- The loop of `SPFNexthopCalculation` over the links of `w` back to the network `v`: the
current link, and the vertex `w` with its exit. -/
def nextHopLoop (fuel : ℕ) (v w : SPFVertex) : Option SPFVertex :=
  (whileLoop (fun s : Option ℕ × SPFVertex => s.1.isSome)
    (fun s => do
      let linkRemote ← s.1.bind fun i => s.2.lsa.linkRecords[i]?
      let nextHop := linkRemote.linkData
      let outIf := (← v.getRootExitDirection).2
      let w := s.2.setRootExitDirection nextHop outIf
      some (spfGetNextLink w v s.1, w))
    fuel (spfGetNextLink w v none, w)).map Prod.snd

/-- `SPFNexthopCalculation` for the root `spfroot`, which updates `w`. No result where a null
pointer is read, there is no exit or the loop has no end. -/
def spfNexthopCalculation (findOutgoingInterfaceId : UInt32 → UInt32 → UInt32) (fuel spfroot : ℕ)
    (v w : SPFVertex) (l : Option GlobalRoutingLinkRecord) (distance : UInt32) :
    Option SPFVertex := do
  if v.self = spfroot then
    if w.vertexType = .vertexRouter then
      let l ← l
      let linkRemote ← (spfGetNextLink w v none).bind fun i => w.lsa.linkRecords[i]?
      let nextHop := linkRemote.linkData
      let outIf := findOutgoingInterfaceId l.linkData 0xffffffff
      let w := ((w.setRootExitDirection nextHop outIf).setDistanceFromRoot distance).setParent v
      return (w.setDistanceFromRoot distance).setParent v
    else
      let outIf := findOutgoingInterfaceId w.lsa.linkStateId w.lsa.networkLSANetworkMask
      return ((w.setRootExitDirection 0 outIf).setDistanceFromRoot distance).setParent v
  else if v.vertexType = .vertexNetwork then
    if v.getParent = some spfroot then
      let w ← nextHopLoop fuel v w
      return (w.setDistanceFromRoot distance).setParent v
    else
      let exit ← v.getRootExitDirection
      return ((w.setRootExitDirection exit.1 exit.2).setDistanceFromRoot distance).setParent v
  else
    return ((w.inheritAllRootExitDirections v).setDistanceFromRoot distance).setParent v

end Ns3.Internet
