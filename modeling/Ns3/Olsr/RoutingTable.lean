import Ns3.Internet.Ipv4StaticRouting
import Ns3.Lib.StdMap
import Ns3.Olsr.Neighbors

/-!
# `RoutingTableComputation`

`olsr-routing-protocol.cc`: the routes to the neighbors, to the two-hop
neighbors and along the topology tuples, and then the routes to the networks
that other nodes announce.
-/

namespace Ns3.Olsr

open Ns3.Lib Ns3.Internet

structure IfaceAssocTuple where
  ifaceAddr : Ipv4Address
  mainAddr : Ipv4Address
  time : Time
  deriving DecidableEq

structure AssociationTuple where
  gatewayAddr : Ipv4Address
  networkAddr : Ipv4Address
  netmask : UInt32
  expirationTime : Time
  deriving DecidableEq

structure Association where
  networkAddr : Ipv4Address
  netmask : UInt32
  deriving DecidableEq

/-- `distance` counts hops. -/
structure RoutingTableEntry where
  destAddr : Ipv4Address
  nextAddr : Ipv4Address
  interface : UInt32
  distance : ℕ
  deriving DecidableEq

/-- `m_table`. -/
abbrev RoutingTable := StdMap Ipv4Address RoutingTableEntry

/-- What the computation reads. `interfaces` are the addresses of the interfaces of `m_ipv4`. -/
structure OlsrState where
  mainAddress : Ipv4Address
  now : Time
  interfaces : List (List Ipv4Address)
  links : LinkSet
  neighbors : NeighborSet
  twoHops : TwoHopNeighborSet
  topology : TopologySet
  ifaceAssocs : List IfaceAssocTuple

namespace OlsrState

variable (s : OlsrState)

def getMainAddress (ifaceAddr : Ipv4Address) : Ipv4Address :=
  match s.ifaceAssocs.find? fun t => t.ifaceAddr = ifaceAddr with
  | some t => t.mainAddr
  | none => ifaceAddr

/-- `AddEntry`: the first interface with the address, or the first of all. -/
def addEntry (dest next interfaceAddress : Ipv4Address) (distance : ℕ) (table : RoutingTable) :
    RoutingTable :=
  let i := (s.interfaces.findIdx? fun addrs => interfaceAddress ∈ addrs).getD 0
  table.assign dest ⟨dest, next, UInt32.ofNat i, distance⟩

/-- `AddEntry` with the interface of another entry. -/
def addEntryLike (dest : Ipv4Address) (entry : RoutingTableEntry) (distance : ℕ)
    (table : RoutingTable) : RoutingTable :=
  table.assign dest ⟨dest, entry.nextAddr, entry.interface, distance⟩

/-- The loop over the links of a neighbor: the table, `nb_main_addr` and `lt`. -/
def addLinks (n : NeighborTuple) : LinkSet → RoutingTable × Bool × Option LinkTuple →
    RoutingTable × Bool × Option LinkTuple
  | [], r => r
  | l :: links, (table, nbMainAddr, lt) =>
    if s.getMainAddress l.neighborIfaceAddr = n.neighborMainAddr ∧ s.now ≤ l.time then
      addLinks n links (s.addEntry l.neighborIfaceAddr l.neighborIfaceAddr l.localIfaceAddr 1 table,
        nbMainAddr || l.neighborIfaceAddr = n.neighborMainAddr, some l)
    else addLinks n links (table, nbMainAddr, lt)

/-- A round of step 2. -/
def addNeighbor (table : RoutingTable) (n : NeighborTuple) : RoutingTable :=
  if n.status = .sym then
    match s.addLinks n s.links (table, false, none) with
    | (table, false, some lt) =>
      s.addEntry n.neighborMainAddr lt.neighborIfaceAddr lt.localIfaceAddr 1 table
    | (table, _, _) => table
  else table

/-- `FindSymNeighborTuple`. -/
def findSymNeighborTuple (mainAddr : Ipv4Address) : Option NeighborTuple :=
  s.neighbors.tuples.find? fun n => n.neighborMainAddr = mainAddr ∧ n.status = .sym

/-- A round of the first part of step 3. -/
def addTwoHop (table : RoutingTable) (t : TwoHopNeighborTuple) : RoutingTable :=
  if (s.findSymNeighborTuple t.twoHopNeighborAddr).isSome then table
  else if t.twoHopNeighborAddr = s.mainAddress then table
  else if s.neighbors.tuples.any fun n =>
      n.neighborMainAddr = t.neighborMainAddr ∧ n.willingness ≠ willNever then
    match table.find t.neighborMainAddr with
    | some entry => addEntryLike t.twoHopNeighborAddr entry 2 table
    | none => table
  else table

/-- A round over the topology tuples in step 3.1, with `added`. -/
def addTopology (h : ℕ) (r : RoutingTable × Bool) (t : TopologyTuple) : RoutingTable × Bool :=
  match r.1.find t.destAddr, r.1.find t.lastAddr with
  | none, some lastAddrEntry =>
    if lastAddrEntry.distance = h then
      (addEntryLike t.destAddr lastAddrEntry (h + 1) r.1, true)
    else r
  | _, _ => r

/-- The loop of step 3.1 over `h`, `none` when it does not end within `fuel` rounds. -/
def addRounds : ℕ → ℕ → RoutingTable → Option RoutingTable
  | 0, _, _ => none
  | fuel + 1, h, table =>
    match s.topology.foldl (addTopology h) (table, false) with
    | (table, true) => addRounds fuel (h + 1) table
    | (table, false) => some table

/-- A round of step 4. -/
def addIfaceAssoc (table : RoutingTable) (t : IfaceAssocTuple) : RoutingTable :=
  match table.find t.mainAddr, table.find t.ifaceAddr with
  | some entry1, none => addEntryLike t.ifaceAddr entry1 entry1.distance table
  | _, _ => table

/-- Steps 1 to 4. A round of step 3.1 that is not the last adds an entry for a topology tuple. -/
def routingTableComputation : Option RoutingTable :=
  let table := s.neighbors.tuples.foldl s.addNeighbor StdMap.empty
  let table := s.twoHops.tuples.foldl s.addTwoHop table
  match s.addRounds (s.topology.length + 1) 2 table with
  | none => none
  | some table => some (s.ifaceAssocs.foldl addIfaceAssoc table)

end OlsrState

/-! ## Routes to networks -/

/-- The distance as the `uint32_t` that it is. -/
def RoutingTableEntry.metric (entry : RoutingTableEntry) : UInt32 := UInt32.ofNat entry.distance

/-- The loop that empties `m_hnaRoutingTable`: its bound is read again in every round. -/
def clearRoutes : ℕ → ℕ → NetworkRoutes → NetworkRoutes
  | 0, _, m => m
  | fuel + 1, i, m => if i < m.length then clearRoutes fuel (i + 1) (m.removeRoute 0) else m

/-- The network of a route. -/
def routeNetwork (route : Ipv4RoutingTableEntry × UInt32) : Association :=
  ⟨route.1.dest, route.1.destNetworkMask⟩

def AssociationTuple.network (t : AssociationTuple) : Association := ⟨t.networkAddr, t.netmask⟩

/-- A round of step 5. -/
def addAssociation (table : RoutingTable) (localHnaAssociations : List Association)
    (m : NetworkRoutes) (t : AssociationTuple) : NetworkRoutes :=
  if t.network ∈ localHnaAssociations then m
  else
    match m.findIdx? fun route => routeNetwork route = t.network, table.find t.gatewayAddr with
    | none, some entry =>
      m.addNetworkRouteTo t.networkAddr t.netmask entry.nextAddr entry.interface entry.metric
    | some routeIndex, some entry =>
      if m[routeIndex]?.any fun route => entry.metric < route.2 then
        (m.removeRoute routeIndex).addNetworkRouteTo t.networkAddr t.netmask entry.nextAddr
          entry.interface entry.metric
      else m
    | _, none => m

/-- Step 5. -/
def hnaRoutes (table : RoutingTable) (localHnaAssociations : List Association)
    (associations : List AssociationTuple) (former : NetworkRoutes) : NetworkRoutes :=
  associations.foldl (addAssociation table localHnaAssociations)
    (clearRoutes former.length 0 former)

end Ns3.Olsr
