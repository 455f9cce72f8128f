import Ns3.Aodv.NodeSpec

/-!
# The entry for the neighbour a message came from

Every message is taken as a sign of life of the node that sent it:
`updateRouteToNeighbor` is to leave a direct route to that node which lasts for
another `ActiveRouteTimeout`. It does in every case but one. When the entry found
has a sequence number, one hop and the same device, the lifetime is set on the
copy and never written back, so that what matters is what the table held before.
-/

namespace Ns3.Aodv

open Ns3.Lib
open RoutingTableEntry (ofRoute)

/-- The entry is a direct route to `sender` that lasts for `ActiveRouteTimeout` from now. -/
structure RoutingTableEntry.Refreshed (v : Env) (sender : Ipv4Address) (e : RoutingTableEntry) :
    Prop where
  nextHop : e.nextHop = sender
  hops : e.hops = 1
  lifeTime : v.now + v.cfg.activeRouteTimeout ≤ e.lifeTime

/-- What a message from `sender` is to leave of the table `t`: a fresh direct route to the sender,
and all other entries as a purge leaves them. -/
structure NeighborRefreshed (v : Env) (t t' : RoutingTable) (sender : Ipv4Address) : Prop where
  refreshed : ∃ e, t'.entries.find sender = some e ∧ e.Refreshed v sender
  others : ∀ d, d ≠ sender → t'.entries.find d = (t.purge v.now).entries.find d

/-- The one case whose result is not written back. -/
def KeptAsIs (receiver : Ipv4Address) (e : RoutingTableEntry) : Prop :=
  e.validSeqNo = true ∧ e.hops = 1 ∧ e.iface = some receiver

instance (receiver : Ipv4Address) (e : RoutingTableEntry) : Decidable (KeptAsIs receiver e) :=
  inferInstanceAs (Decidable (_ ∧ _))

variable {v : Env} {n : Node} {sender receiver : Ipv4Address}

/-- The entry made for a neighbour is fresh, whatever lifetime it takes over. -/
theorem ofRoute_refreshed {lifetime : ℤ} (h : v.cfg.activeRouteTimeout ≤ lifetime) :
    (ofRoute v.now receiver sender false 0 1 sender lifetime).settle.Refreshed v sender where
  nextHop := rfl
  hops := rfl
  lifeTime := by
    show (v.now : ℤ) + v.cfg.activeRouteTimeout ≤ lifetime + v.now
    omega

/-- The purged table `t` with what is done about the entry found for the sender. -/
def RoutingTable.withNeighbor (t : RoutingTable) (v : Env) (sender receiver : Ipv4Address) :
    Option RoutingTableEntry → RoutingTable
  | none => t.addRoute v.now (ofRoute v.now receiver sender false 0 1 sender v.cfg.activeRouteTimeout)
  | some e =>
    if KeptAsIs receiver e then t
    else t.update (ofRoute v.now receiver sender false 0 1 sender
      (max v.cfg.activeRouteTimeout (e.getLifeTime v.now)))

theorem updateRouteToNeighbor_run {r : Option RoutingTableEntry}
    (hfind : (n.routingTable.purge v.now).entries.find sender = r) :
    updateRouteToNeighbor v sender receiver n = some ((), { n with
      routingTable := (n.routingTable.purge v.now).withNeighbor v sender receiver r }) := by
  unfold updateRouteToNeighbor lookupRoute
  show (match (n.routingTable.purge v.now).entries.find sender with
    | none => _ | some _ => _ : Handler Unit) _ = _
  rw [hfind]
  cases r with
  | none => rfl
  | some e =>
    unfold RoutingTable.withNeighbor
    dsimp only
    by_cases hkept : KeptAsIs receiver e
    · rw [if_pos hkept]
      exact congrFun (if_pos hkept) _
    · rw [if_neg hkept]
      exact congrFun (if_neg hkept) _

/-- No entry: a new one is added. -/
theorem addRoute_refreshes (hfind : (n.routingTable.purge v.now).entries.find sender = none) :
    NeighborRefreshed v n.routingTable ((n.routingTable.purge v.now).addRoute v.now
      (ofRoute v.now receiver sender false 0 1 sender v.cfg.activeRouteTimeout)) sender := by
  have hnew : ((n.routingTable.purge v.now).purge v.now).entries.find sender = none := by
    rw [RoutingTable.purge_purge, hfind]
  have hadd : ∀ d, ((n.routingTable.purge v.now).addRoute v.now
      (ofRoute v.now receiver sender false 0 1 sender v.cfg.activeRouteTimeout)).entries.find d = _ :=
    fun d => RoutingTable.find_addRoute_new hnew
  refine ⟨⟨_, (hadd sender).trans (if_pos rfl), ofRoute_refreshed le_rfl⟩, fun d hd => ?_⟩
  refine ((hadd d).trans (if_neg hd)).trans ?_
  rw [RoutingTable.purge_purge]

/-- An entry that is not a known direct route over the same device: it is replaced. -/
theorem update_refreshes {e : RoutingTableEntry}
    (hfind : (n.routingTable.purge v.now).entries.find sender = some e) :
    NeighborRefreshed v n.routingTable ((n.routingTable.purge v.now).update
      (ofRoute v.now receiver sender false 0 1 sender
        (max v.cfg.activeRouteTimeout (e.getLifeTime v.now)))) sender := by
  have hput : ∀ d, ((n.routingTable.purge v.now).update (ofRoute v.now receiver sender false 0 1
      sender (max v.cfg.activeRouteTimeout (e.getLifeTime v.now)))).entries.find d = _ :=
    fun d => RoutingTable.find_update_old hfind
  exact ⟨⟨_, (hput sender).trans (if_pos rfl), ofRoute_refreshed (le_max_left _ _)⟩,
    fun d hd => (hput d).trans (if_neg hd)⟩

/-- The neighbour's route is refreshed exactly when the entry found is none that is kept as it is,
or one that leads straight to the neighbour and lasts long enough without the message. -/
theorem updateRouteToNeighbor_refreshes_iff :
    ∃ n', updateRouteToNeighbor v sender receiver n = some ((), n') ∧
      (NeighborRefreshed v n.routingTable n'.routingTable sender ↔
        ∀ e, (n.routingTable.purge v.now).entries.find sender = some e → KeptAsIs receiver e →
          e.nextHop = sender ∧ v.now + v.cfg.activeRouteTimeout ≤ e.lifeTime) := by
  cases hfind : (n.routingTable.purge v.now).entries.find sender with
  | none =>
    refine ⟨_, updateRouteToNeighbor_run hfind, iff_of_true (addRoute_refreshes hfind) ?_⟩
    intro e he
    cases he
  | some e =>
    refine ⟨_, updateRouteToNeighbor_run hfind, ?_⟩
    dsimp only [RoutingTable.withNeighbor]
    by_cases hkept : KeptAsIs receiver e
    · rw [if_pos hkept]
      constructor
      · rintro ⟨⟨e', he', hfresh⟩, -⟩ e'' he'' -
        cases he''
        obtain rfl : e = e' := Option.some.inj (hfind.symm.trans he')
        exact ⟨hfresh.nextHop, hfresh.lifeTime⟩
      · intro h
        obtain ⟨hhop, hlife⟩ := h e rfl hkept
        exact ⟨⟨e, hfind, hhop, hkept.2.1, hlife⟩, fun d _ => rfl⟩
    · rw [if_neg hkept]
      refine iff_of_true (update_refreshes hfind) ?_
      intro e' he' hkept'
      cases he'
      exact absurd hkept' hkept

/-- A node that has learned a direct route to 2 with a sequence number, and whose entry is about to
run out. -/
def staleNeighbor : Node :=
  { Node.up [] with routingTable :=
      { entries := StdMap.empty.insert 2 (ofRoute 0 (some 1) 2 true 7 1 2 1000000000)
        badLinkLifetime := 15000000000 } }

/-- A message from 2 at that time does not make the route last any longer. -/
theorem staleNeighbor_not_refreshed :
    ¬ ∀ n', updateRouteToNeighbor ⟨{}, 1000000000⟩ 2 1 staleNeighbor = some ((), n') →
      NeighborRefreshed ⟨{}, 1000000000⟩ staleNeighbor.routingTable n'.routingTable 2 := by
  intro h
  have hfind : (staleNeighbor.routingTable.purge 1000000000).entries.find 2 =
    some (ofRoute 0 (some 1) 2 true 7 1 2 1000000000) := by decide
  obtain ⟨⟨e, he, hfresh⟩, -⟩ := h _ (updateRouteToNeighbor_run hfind)
  obtain rfl : ofRoute 0 (some 1) 2 true 7 1 2 1000000000 = e := Option.some.inj (hfind.symm.trans he)
  exact absurd hfresh.lifeTime (by decide)

end Ns3.Aodv
