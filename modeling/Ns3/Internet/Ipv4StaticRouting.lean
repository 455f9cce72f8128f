import Mathlib.Data.UInt
import Mathlib.Data.List.Basic

/-!
# Static routes

`ipv4-static-routing.cc` for unicast: the list of routes with their metrics and
`LookupStatic`. What it asks of `Ipv4` are functions of the interfaces.
-/

namespace Ns3.Internet

structure Ipv4RoutingTableEntry where
  dest : UInt32
  destNetworkMask : UInt32
  gateway : UInt32
  interface : UInt32
  deriving DecidableEq, Repr

/-- `m_networkRoutes`: the routes, each with its metric. -/
abbrev NetworkRoutes := List (Ipv4RoutingTableEntry × UInt32)

namespace NetworkRoutes

variable (m : NetworkRoutes)

/-- `Ipv4StaticRouting::LookupRoute`: the same route with the same metric. -/
def lookupRoute (route : Ipv4RoutingTableEntry) (metric : UInt32) : Bool :=
  m.any fun j => j.1 = route ∧ j.2 = metric

def addNetworkRouteTo (network networkMask nextHop interface metric : UInt32) : NetworkRoutes :=
  let route : Ipv4RoutingTableEntry := ⟨network, networkMask, nextHop, interface⟩
  if m.lookupRoute route metric then m else m ++ [(route, metric)]

/-- `AddHostRouteTo`: a network route with the mask `Ipv4Mask::GetOnes ()`. -/
def addHostRouteTo (dest nextHop interface metric : UInt32) : NetworkRoutes :=
  m.addNetworkRouteTo dest 0xffffffff nextHop interface metric

/-- `RemoveRoute`, which does nothing for an index past the end. -/
def removeRoute (index : ℕ) : NetworkRoutes := m.eraseIdx index

end NetworkRoutes

/-! ## Lookup -/

/-- The loop of `Ipv4Mask::GetPrefixLength`: after 32 shifts nothing is left of a mask. -/
def prefixLoop : ℕ → UInt32 → ℕ → ℕ
  | 0, _, tmp => tmp
  | fuel + 1, mask, tmp => if mask = 0 then tmp else prefixLoop fuel (mask <<< 1) (tmp + 1)

def getPrefixLength (mask : UInt32) : ℕ := prefixLoop 32 mask 0

/-- `Ipv4Mask::IsMatch`. -/
def isMatch (mask a b : UInt32) : Bool := a &&& mask = b &&& mask

/-- Link-local multicast, `224.0.0.0/24`. -/
def isLocalMulticast (address : UInt32) : Bool := address &&& 0xffffff00 = 0xe0000000

structure Ipv4Route (Dev : Type) where
  destination : UInt32
  source : UInt32
  gateway : UInt32
  outputDevice : Option Dev
  deriving DecidableEq, Repr

/-- What `LookupStatic` asks of `m_ipv4`. -/
structure Ipv4Interfaces (Dev : Type) where
  getNetDevice : UInt32 → Dev
  sourceAddressSelection : UInt32 → UInt32 → UInt32
  /-- `GetAddress (GetInterfaceForDevice (oif), 0).GetLocal ()`. -/
  localAddress : Option Dev → UInt32

variable {Dev : Type}

/-- The route that is handed out for an entry of the table. -/
def Ipv4Interfaces.routeOf (ipv4 : Ipv4Interfaces Dev) (j : Ipv4RoutingTableEntry) :
    Ipv4Route Dev where
  destination := j.dest
  source := ipv4.sourceAddressSelection j.interface j.dest
  gateway := j.gateway
  outputDevice := some (ipv4.getNetDevice j.interface)

/-- The locals of the loop of `LookupStatic`. -/
structure LookupState (Dev : Type) where
  rtentry : Option (Ipv4Route Dev)
  longestMask : ℕ
  shortestMetric : UInt32

variable [DecidableEq Dev]

/-- The first two tests of the loop. -/
def Ipv4Interfaces.isCandidate (ipv4 : Ipv4Interfaces Dev) (dest : UInt32) (oif : Option Dev)
    (j : Ipv4RoutingTableEntry) : Bool :=
  isMatch j.destNetworkMask dest j.dest &&
    match oif with
    | some oif => oif = ipv4.getNetDevice j.interface
    | none => true

def lookupLoop (ipv4 : Ipv4Interfaces Dev) (dest : UInt32) (oif : Option Dev) :
    NetworkRoutes → LookupState Dev → LookupState Dev
  | [], s => s
  | (j, metric) :: rest, s =>
    let masklen := getPrefixLength j.destNetworkMask
    if ¬ ipv4.isCandidate dest oif j then lookupLoop ipv4 dest oif rest s
    else if masklen < s.longestMask then lookupLoop ipv4 dest oif rest s
    else
      let shortestMetric := if s.longestMask < masklen then 0xffffffff else s.shortestMetric
      if shortestMetric < metric then
        lookupLoop ipv4 dest oif rest
          { s with longestMask := masklen, shortestMetric := shortestMetric }
      else
        let s := ⟨some (ipv4.routeOf j), masklen, metric⟩
        -- a host route ends the search
        if masklen = 32 then s else lookupLoop ipv4 dest oif rest s

def lookupStatic (ipv4 : Ipv4Interfaces Dev) (m : NetworkRoutes) (dest : UInt32)
    (oif : Option Dev) : Option (Ipv4Route Dev) :=
  if isLocalMulticast dest then some ⟨dest, ipv4.localAddress oif, 0, oif⟩
  else (lookupLoop ipv4 dest oif m ⟨none, 0, 0xffffffff⟩).rtentry

end Ns3.Internet
