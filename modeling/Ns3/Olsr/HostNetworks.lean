import Ns3.Olsr.RoutingTable

/-!
# The routes to networks are not all rebuilt

The loop that empties the table leaves the second half of the former routes
(`clearRoutes_eq`). A route that is left stays unless an association for its
network has a nearer gateway.
-/

namespace Ns3.Olsr

open Ns3.Internet

variable {table : RoutingTable} {localHnaAssociations : List Association}
variable {associations done : List AssociationTuple} {L m : NetworkRoutes} {w : Association}

/-- A table with one route for a network. -/
structure HnaRoutes where
  routes : NetworkRoutes
  nodup : (routes.map routeNetwork).Nodup

/-! ## The routes that are meant -/

/-- An association for a network that the node does not announce itself has a gateway with an
entry. -/
def Offers (table : RoutingTable) (localHnaAssociations : List Association)
    (associations : List AssociationTuple) (w : Association) (entry : RoutingTableEntry) : Prop :=
  ∃ t ∈ associations, t.network = w ∧ t.network ∉ localHnaAssociations ∧
    table.find t.gatewayAddr = some entry

/-- The route to a network along the entry of a gateway. -/
def routeVia (w : Association) (entry : RoutingTableEntry) : Ipv4RoutingTableEntry × UInt32 :=
  (⟨w.networkAddr, w.netmask, entry.nextAddr, entry.interface⟩, entry.metric)

/-- The entry of a nearest gateway for a network. -/
def IsNearest (table : RoutingTable) (localHnaAssociations : List Association)
    (associations : List AssociationTuple) (w : Association) (entry : RoutingTableEntry) : Prop :=
  Offers table localHnaAssociations associations w entry ∧
    ∀ entry', Offers table localHnaAssociations associations w entry' →
      entry.metric ≤ entry'.metric

/-- The table has a route for the networks of the associations, along a nearest gateway, and no
other routes. -/
def Rebuilt (table : RoutingTable) (localHnaAssociations : List Association)
    (associations : List AssociationTuple) (m : NetworkRoutes) : Prop :=
  (∀ route ∈ m, ∃ entry,
    IsNearest table localHnaAssociations associations (routeNetwork route) entry ∧
      route = routeVia (routeNetwork route) entry) ∧
  ∀ w entry, Offers table localHnaAssociations associations w entry →
    ∃ route ∈ m, routeNetwork route = w

/-- Every former route from the middle of the table on is for a network that is still announced,
and there is a nearer gateway now, or the route is still that to a nearest gateway. -/
def LeftoversCurrent (table : RoutingTable) (localHnaAssociations : List Association)
    (associations : List AssociationTuple) (former : NetworkRoutes) : Prop :=
  ∀ route ∈ former.drop ((former.length + 1) / 2), ∃ entry,
    IsNearest table localHnaAssociations associations (routeNetwork route) entry ∧
      (entry.metric < route.2 ∨ route = routeVia (routeNetwork route) entry)

/-! ## Emptying the table -/

theorem clearRoutes_spec {fuel i : ℕ} (m : NetworkRoutes) (hfuel : m.length ≤ fuel + i) :
    clearRoutes fuel i m = m.drop ((m.length - i + 1) / 2) := by
  induction fuel generalizing i m with
  | zero =>
    have hzero : (m.length - i + 1) / 2 = 0 := by omega
    rw [hzero]
    rfl
  | succ fuel ih =>
    unfold clearRoutes
    split
    · have hlen : (m.removeRoute 0).length = m.length - 1 := by
        unfold NetworkRoutes.removeRoute
        rw [List.length_eraseIdx_of_lt (by omega)]
      rw [ih _ (by omega), hlen]
      unfold NetworkRoutes.removeRoute
      rw [List.eraseIdx_zero, ← List.drop_one, List.drop_drop]
      congr 1
      omega
    · have hzero : (m.length - i + 1) / 2 = 0 := by omega
      rw [hzero]
      rfl

/-- Every round takes a route away and shortens the loop by one. -/
theorem clearRoutes_eq (m : NetworkRoutes) :
    clearRoutes m.length 0 m = m.drop ((m.length + 1) / 2) :=
  clearRoutes_spec m (Nat.le_refl _)

/-! ## The associations -/

/-- After the associations `done`, from the routes `L` on: a route is left because no gateway is
nearer than its metric, or it is along a nearest gateway, and nearer than what was left. -/
structure Refilled (table : RoutingTable) (localHnaAssociations : List Association)
    (L : NetworkRoutes) (done : List AssociationTuple) (m : NetworkRoutes) : Prop where
  nodup : (m.map routeNetwork).Nodup
  routes : ∀ route ∈ m,
    (route ∈ L ∧ ∀ entry, Offers table localHnaAssociations done (routeNetwork route) entry →
      route.2 ≤ entry.metric) ∨
    ∃ entry, IsNearest table localHnaAssociations done (routeNetwork route) entry ∧
      route = routeVia (routeNetwork route) entry ∧
      ∀ left ∈ L, routeNetwork left = routeNetwork route → entry.metric < left.2
  offered : ∀ w entry, Offers table localHnaAssociations done w entry →
    ∃ route ∈ m, routeNetwork route = w
  kept : ∀ left ∈ L, ∃ route ∈ m, routeNetwork route = routeNetwork left

/-- Two routes of a table for the same network are the same. -/
theorem route_inj (hm : (m.map routeNetwork).Nodup) {r r' : Ipv4RoutingTableEntry × UInt32}
    (hr : r ∈ m) (hr' : r' ∈ m) (h : routeNetwork r = routeNetwork r') : r = r' :=
  List.inj_on_of_nodup_map hm hr hr' h

theorem offers_append {t : AssociationTuple} {entry : RoutingTableEntry} :
    Offers table localHnaAssociations (done ++ [t]) w entry ↔
      Offers table localHnaAssociations done w entry ∨
        (t.network = w ∧ t.network ∉ localHnaAssociations ∧
          table.find t.gatewayAddr = some entry) := by
  unfold Offers
  simp only [List.mem_append, List.mem_singleton, or_and_right, exists_or, exists_eq_left]

/-- An association that offers nothing changes nothing. -/
theorem Refilled.skip (h : Refilled table localHnaAssociations L done m) {t : AssociationTuple}
    (ht : ∀ w entry, Offers table localHnaAssociations (done ++ [t]) w entry ↔
      Offers table localHnaAssociations done w entry) :
    Refilled table localHnaAssociations L (done ++ [t]) m where
  nodup := h.nodup
  routes := by
    unfold IsNearest
    simp only [ht]
    exact h.routes
  offered := by
    simp only [ht]
    exact h.offered
  kept := h.kept

/-- No gateway so far is nearer than the metric of a route. -/
theorem Refilled.le (h : Refilled table localHnaAssociations L done m)
    {route : Ipv4RoutingTableEntry × UInt32} (hroute : route ∈ m) {entry : RoutingTableEntry}
    (hoffer : Offers table localHnaAssociations done (routeNetwork route) entry) :
    route.2 ≤ entry.metric := by
  rcases h.routes route hroute with ⟨-, hle⟩ | ⟨entry', ⟨-, hnearest⟩, heq, -⟩
  · exact hle entry hoffer
  · rw [heq]
    exact hnearest entry hoffer

section Step

variable {t : AssociationTuple} {entry : RoutingTableEntry}

/-- The route for the network, if there is one, is not as near as the gateway of `t`, and gives
way to the route along it. -/
theorem Refilled.put (hL : (L.map routeNetwork).Nodup)
    (h : Refilled table localHnaAssociations L done m) (hlocal : t.network ∉ localHnaAssociations)
    (hfind : table.find t.gatewayAddr = some entry) {others : NetworkRoutes}
    (hnodup : (others.map routeNetwork).Nodup)
    (hothers : ∀ route, route ∈ others ↔ route ∈ m ∧ routeNetwork route ≠ t.network)
    (hless : ∀ route ∈ m, routeNetwork route = t.network → entry.metric < route.2) :
    Refilled table localHnaAssociations L (done ++ [t])
      (others ++ [routeVia t.network entry]) := by
  have hoffer : ∀ {w entry'}, w ≠ t.network →
      (Offers table localHnaAssociations (done ++ [t]) w entry' ↔
        Offers table localHnaAssociations done w entry') := by
    intro w entry' hw
    rw [offers_append]
    exact or_iff_left fun hnew => hw hnew.1.symm
  refine ⟨?_, fun route hroute => ?_, fun w entry' hw => ?_, fun left hleft => ?_⟩
  · rw [List.map_append, List.map_singleton]
    refine List.nodup_append.mpr ⟨hnodup, List.nodup_singleton _, fun a ha b hb => ?_⟩
    obtain ⟨route, hroute, rfl⟩ := List.mem_map.mp ha
    rw [List.mem_singleton.mp hb]
    exact ((hothers route).mp hroute).2
  · rcases List.mem_append.mp hroute with hroute | hroute
    · obtain ⟨hm, hne⟩ := (hothers route).mp hroute
      unfold IsNearest
      simp only [hoffer hne]
      exact h.routes route hm
    · rw [List.mem_singleton.mp hroute]
      refine .inr ⟨entry, ⟨offers_append.mpr (.inr ⟨rfl, hlocal, hfind⟩), fun entry' hoffer' => ?_⟩,
        rfl, fun left hleft hnetwork => ?_⟩
      · rcases offers_append.mp hoffer' with hold | ⟨-, -, hsame⟩
        · obtain ⟨route', hroute', hnetwork⟩ := h.offered _ _ hold
          refine le_trans (le_of_lt (hless route' hroute' hnetwork)) (h.le hroute' ?_)
          rw [hnetwork]
          exact hold
        · rw [hfind] at hsame
          cases hsame
          exact le_refl _
      · obtain ⟨route', hroute', hnetwork'⟩ := h.kept left hleft
        have hnear := hless route' hroute' (hnetwork'.trans hnetwork)
        rcases h.routes route' hroute' with ⟨hmem, -⟩ | ⟨entry', -, heq, hleft'⟩
        · rw [← route_inj hL hmem hleft hnetwork']
          exact hnear
        · rw [heq] at hnear
          exact lt_trans hnear (hleft' left hleft hnetwork'.symm)
  · by_cases heq : w = t.network
    · subst heq
      exact ⟨_, List.mem_append_right _ (List.mem_singleton_self _), rfl⟩
    · obtain ⟨route, hroute, rfl⟩ := h.offered w entry' ((hoffer heq).mp hw)
      exact ⟨route, List.mem_append_left _ ((hothers route).mpr ⟨hroute, heq⟩), rfl⟩
  · obtain ⟨route, hroute, hnetwork⟩ := h.kept left hleft
    by_cases heq : routeNetwork route = t.network
    · exact ⟨_, List.mem_append_right _ (List.mem_singleton_self _), heq.symm.trans hnetwork⟩
    · exact ⟨route, List.mem_append_left _ ((hothers route).mpr ⟨hroute, heq⟩), hnetwork⟩

/-- The route for the network is at least as near as the gateway of `t`. -/
theorem Refilled.keep (h : Refilled table localHnaAssociations L done m)
    (hfind : table.find t.gatewayAddr = some entry) {route : Ipv4RoutingTableEntry × UInt32}
    (hroute : route ∈ m) (hnetwork : routeNetwork route = t.network)
    (hle : route.2 ≤ entry.metric) :
    Refilled table localHnaAssociations L (done ++ [t]) m := by
  have hnew : ∀ route' ∈ m, ∀ entry', Offers table localHnaAssociations (done ++ [t])
      (routeNetwork route') entry' → route'.2 ≤ entry'.metric := by
    intro route' hroute' entry' hoffer
    rcases offers_append.mp hoffer with hold | ⟨hsame, -, hfind'⟩
    · exact h.le hroute' hold
    · rw [hfind] at hfind'
      cases hfind'
      rw [← route_inj h.nodup hroute hroute' (hnetwork.trans hsame)]
      exact hle
  refine ⟨h.nodup, fun route' hroute' => ?_, fun w entry' hoffer => ?_, h.kept⟩
  · rcases h.routes route' hroute' with ⟨hmem, -⟩ | ⟨entry', ⟨hoffer, -⟩, heq, hleft⟩
    · exact .inl ⟨hmem, hnew route' hroute'⟩
    · refine .inr ⟨entry', ⟨offers_append.mpr (.inl hoffer), fun entry'' hoffer' => ?_⟩, heq, hleft⟩
      have hle' := hnew route' hroute' entry'' hoffer'
      rw [heq] at hle'
      exact hle'
  · rcases offers_append.mp hoffer with hold | ⟨hsame, -, -⟩
    · exact h.offered w entry' hold
    · exact ⟨route, hroute, hnetwork.trans hsame⟩

theorem addNetworkRouteTo_eq {others : NetworkRoutes}
    (hothers : ∀ route ∈ others, routeNetwork route ≠ t.network) :
    others.addNetworkRouteTo t.networkAddr t.netmask entry.nextAddr entry.interface
      entry.metric = others ++ [routeVia t.network entry] := by
  have hnew : others.lookupRoute ⟨t.networkAddr, t.netmask, entry.nextAddr, entry.interface⟩
      entry.metric = false := by
    unfold NetworkRoutes.lookupRoute
    refine List.any_eq_false.mpr fun route hroute hsame => hothers route hroute ?_
    unfold routeNetwork
    rw [(of_decide_eq_true hsame).1]
    rfl
  unfold NetworkRoutes.addNetworkRouteTo
  dsimp only
  rw [hnew]
  rfl

/-- A round of step 5. -/
theorem Refilled.addAssociation (hL : (L.map routeNetwork).Nodup)
    (h : Refilled table localHnaAssociations L done m) (t : AssociationTuple) :
    Refilled table localHnaAssociations L (done ++ [t])
      (addAssociation table localHnaAssociations m t) := by
  unfold Olsr.addAssociation
  by_cases hlocal : t.network ∈ localHnaAssociations
  · rw [if_pos hlocal]
    refine h.skip fun w entry => offers_append.trans (or_iff_left fun hnew => ?_)
    exact hnew.2.1 hlocal
  rw [if_neg hlocal]
  cases hfind : table.find t.gatewayAddr with
  | none =>
    have hskip := h.skip fun w entry => offers_append.trans (or_iff_left fun hnew => by
      rw [hfind] at hnew
      cases hnew.2.2)
    cases m.findIdx? fun route => routeNetwork route = t.network <;> exact hskip
  | some entry =>
    cases hindex : m.findIdx? fun route => routeNetwork route = t.network with
    | none =>
      have hothers : ∀ route ∈ m, routeNetwork route ≠ t.network := by
        intro route hroute hsame
        have hfalse := List.findIdx?_eq_none_iff.mp hindex route hroute
        exact of_decide_eq_false hfalse hsame
      dsimp only
      rw [addNetworkRouteTo_eq hothers]
      exact h.put hL hlocal hfind h.nodup
        (fun route => ⟨fun hroute => ⟨hroute, hothers route hroute⟩, And.left⟩)
        fun route hroute hsame => absurd hsame (hothers route hroute)
    | some routeIndex =>
      obtain ⟨hlt, hsame, -⟩ := List.findIdx?_eq_some_iff_getElem.mp hindex
      have hnetwork := of_decide_eq_true hsame
      have hmem : m[routeIndex] ∈ m := List.getElem_mem hlt
      dsimp only
      rw [List.getElem?_eq_getElem hlt, Option.any_some]
      by_cases hless : entry.metric < m[routeIndex].2
      · have hothers : ∀ route, route ∈ m.removeRoute routeIndex ↔
            route ∈ m ∧ routeNetwork route ≠ t.network := by
          intro route
          have hm := List.Nodup.of_map _ h.nodup
          unfold NetworkRoutes.removeRoute
          rw [← hm.erase_getElem routeIndex hlt, hm.mem_erase_iff, and_comm]
          refine and_congr_right fun hroute => not_congr ⟨fun heq => ?_, fun heq => ?_⟩
          · rw [heq, hnetwork]
          · exact route_inj h.nodup hroute hmem (heq.trans hnetwork.symm)
        rw [if_pos (decide_eq_true hless),
          addNetworkRouteTo_eq fun route hroute => ((hothers route).mp hroute).2]
        refine h.put hL hlocal hfind
          (h.nodup.sublist ((List.eraseIdx_sublist _ _).map _)) hothers fun route hroute hsame => ?_
        rw [route_inj h.nodup hroute hmem (hsame.trans hnetwork.symm)]
        exact hless
      · rw [if_neg fun htrue => hless (of_decide_eq_true htrue)]
        exact h.keep hfind hmem hnetwork (le_of_not_gt hless)

end Step

/-! ## The whole step -/

theorem Refilled.start (hL : (L.map routeNetwork).Nodup) :
    Refilled table localHnaAssociations L [] L where
  nodup := hL
  routes route hroute := .inl ⟨hroute, fun entry ⟨t, ht, _⟩ => by cases ht⟩
  offered w entry hoffer := by
    obtain ⟨t, ht, -⟩ := hoffer
    cases ht
  kept left hleft := ⟨left, hleft, rfl⟩

theorem Refilled.foldl (hL : (L.map routeNetwork).Nodup)
    (h : Refilled table localHnaAssociations L done m) (ts : List AssociationTuple) :
    Refilled table localHnaAssociations L (done ++ ts)
      (ts.foldl (Olsr.addAssociation table localHnaAssociations) m) := by
  induction ts generalizing done m with
  | nil =>
    rw [List.append_nil]
    exact h
  | cons t ts ih =>
    have hrest := ih (h.addAssociation hL t)
    rw [List.append_assoc] at hrest
    exact hrest

theorem refilled_hnaRoutes (table : RoutingTable) (localHnaAssociations : List Association)
    (associations : List AssociationTuple) (former : HnaRoutes) :
    Refilled table localHnaAssociations
      (former.routes.drop ((former.routes.length + 1) / 2)) associations
      (hnaRoutes table localHnaAssociations associations former.routes) := by
  have hL : ((former.routes.drop ((former.routes.length + 1) / 2)).map routeNetwork).Nodup :=
    former.nodup.sublist ((List.drop_sublist _ _).map _)
  unfold hnaRoutes
  rw [clearRoutes_eq]
  exact (Refilled.start hL).foldl hL associations

/-- The table keeps one route for a network. -/
def HnaRoutes.recompute (table : RoutingTable) (localHnaAssociations : List Association)
    (associations : List AssociationTuple) (former : HnaRoutes) : HnaRoutes :=
  ⟨hnaRoutes table localHnaAssociations associations former.routes,
    (refilled_hnaRoutes table localHnaAssociations associations former).nodup⟩

/-- **The routes to networks are rebuilt exactly when what is left of the former ones gives way or
is still right.** -/
theorem rebuilt_iff (table : RoutingTable) (localHnaAssociations : List Association)
    (associations : List AssociationTuple) (former : HnaRoutes) :
    Rebuilt table localHnaAssociations associations
        (former.recompute table localHnaAssociations associations).routes ↔
      LeftoversCurrent table localHnaAssociations associations former.routes := by
  have h := refilled_hnaRoutes table localHnaAssociations associations former
  have hL : ((former.routes.drop ((former.routes.length + 1) / 2)).map routeNetwork).Nodup :=
    former.nodup.sublist ((List.drop_sublist _ _).map _)
  constructor
  · intro hrebuilt left hleft
    obtain ⟨route, hroute, hnetwork⟩ := h.kept left hleft
    obtain ⟨entry, hnearest, heq⟩ := hrebuilt.1 route hroute
    refine ⟨entry, hnetwork ▸ hnearest, ?_⟩
    rcases h.routes route hroute with ⟨hmem, -⟩ | ⟨entry', -, heq', hless⟩
    · right
      rw [← route_inj hL hmem hleft hnetwork]
      exact heq
    · left
      have hmetric : entry.metric = entry'.metric := congrArg Prod.snd (heq.symm.trans heq')
      rw [hmetric]
      exact hless left hleft hnetwork.symm
  · intro hcurrent
    refine ⟨fun route hroute => ?_, h.offered⟩
    rcases h.routes route hroute with ⟨hleft, hle⟩ | ⟨entry, hnearest, heq, -⟩
    · obtain ⟨entry, hnearest, hless | heq⟩ := hcurrent route hleft
      · exact absurd hless (not_lt_of_ge (hle entry hnearest.1))
      · exact ⟨entry, hnearest, heq⟩
    · exact ⟨entry, hnearest, heq⟩

/-- With two routes and no association any more, the second route is left. -/
theorem not_rebuilt : ∃ former : HnaRoutes,
    ¬ Rebuilt Lib.StdMap.empty [] [] (former.recompute Lib.StdMap.empty [] []).routes := by
  refine ⟨⟨[(⟨0x0a000000, 0xff000000, 1, 1⟩, 2), (⟨0x14000000, 0xff000000, 1, 1⟩, 2)],
    by decide⟩, fun h => ?_⟩
  obtain ⟨entry, ⟨⟨t, ht, -⟩, -⟩, -⟩ := h.1 (⟨0x14000000, 0xff000000, 1, 1⟩, 2) (by decide +kernel)
  cases ht

end Ns3.Olsr
