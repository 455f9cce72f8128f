import Ns3.Olsr.RoutingTable

/-!
# The routing table has the shortest routes

A route is a chain of topology tuples that a two-hop neighbor begins. In the
round for a distance the table has the routes up to it (`Layered`); a round adds
the next distance, and a round that adds nothing is the last.
-/

namespace Ns3.Olsr

open Ns3.Lib

namespace OlsrState

variable {s : OlsrState} {table : RoutingTable} {a n : Ipv4Address} {h k : ℕ}

/-! ## Routes -/

/-- Every node has one address. -/
def OneAddress (s : OlsrState) : Prop := ∀ t ∈ s.ifaceAssocs, t.ifaceAddr = t.mainAddr

def IsSym (s : OlsrState) (a : Ipv4Address) : Prop :=
  ∃ n ∈ s.neighbors.tuples, n.neighborMainAddr = a ∧ n.status = .sym

/-- A symmetric neighbor with a live link. -/
def IsNeighbor (s : OlsrState) (a : Ipv4Address) : Prop :=
  s.IsSym a ∧ ∃ l ∈ s.links, l.neighborIfaceAddr = a ∧ s.now ≤ l.time

/-- A neighbor of willingness other than never. -/
def Willing (s : OlsrState) (a : Ipv4Address) : Prop :=
  ∃ n ∈ s.neighbors.tuples, n.neighborMainAddr = a ∧ n.willingness ≠ willNever

/-- A chain of `k` hops through the neighbor `n` to `a`: a two-hop neighbor and then topology
tuples, which go on from the nodes that `Passes` has. -/
inductive Chain (s : OlsrState) (Passes : Ipv4Address → Prop) (n : Ipv4Address) :
    Ipv4Address → ℕ → Prop
  | twoHop {t : TwoHopNeighborTuple} : t ∈ s.twoHops.tuples → t.neighborMainAddr = n →
      s.IsNeighbor n → s.Willing n → ¬ s.IsSym t.twoHopNeighborAddr →
      t.twoHopNeighborAddr ≠ s.mainAddress → Chain s Passes n t.twoHopNeighborAddr 2
  | topology {t : TopologyTuple} {h : ℕ} : Chain s Passes n t.lastAddr h → Passes t.lastAddr →
      t ∈ s.topology → Chain s Passes n t.destAddr (h + 1)

/-- A route of `k` hops through the neighbor `n` to `a`. -/
def IsRoute (s : OlsrState) (Passes : Ipv4Address → Prop) (n a : Ipv4Address) (k : ℕ) : Prop :=
  (s.IsNeighbor a ∧ n = a ∧ k = 1) ∨ s.Chain Passes n a k

/-- A chain does not go on from a neighbor. -/
abbrev Route (s : OlsrState) : Ipv4Address → Ipv4Address → ℕ → Prop :=
  s.IsRoute fun a => ¬ s.IsNeighbor a

/-- No two-hop neighbor tuple is through a willing neighbor that is two hops away itself. -/
def NoDetour (s : OlsrState) : Prop :=
  ∀ t ∈ s.twoHops.tuples, s.Willing t.neighborMainAddr → ∀ n, ¬ s.Route n t.neighborMainAddr 2

theorem Chain.two_le {Passes : Ipv4Address → Prop} (h : s.Chain Passes n a k) : 2 ≤ k := by
  induction h with
  | twoHop => exact Nat.le_refl 2
  | topology _ _ _ ih => exact Nat.le_succ_of_le ih

/-- What leads on to the next distance. -/
theorem Route.cases_succ (h : s.Route n a (k + 1)) (hk : 2 ≤ k) :
    ∃ t ∈ s.topology, t.destAddr = a ∧ ¬ s.IsNeighbor t.lastAddr ∧ s.Route n t.lastAddr k := by
  rcases h with ⟨-, -, hone⟩ | hchain
  · omega
  · generalize hk' : k + 1 = k' at hchain
    cases hchain with
    | twoHop => omega
    | @topology t h' hlast hpasses ht =>
      obtain rfl : k = h' := by omega
      exact ⟨t, ht, rfl, hpasses, .inr hlast⟩

theorem Route.snoc {t : TopologyTuple} (h : s.Route n t.lastAddr k)
    (hpasses : ¬ s.IsNeighbor t.lastAddr) (ht : t ∈ s.topology) :
    s.Route n t.destAddr (k + 1) := by
  rcases h with ⟨hneighbor, -, -⟩ | hchain
  · exact absurd hneighbor hpasses
  · exact .inr (.topology hchain hpasses ht)

/-! ## Entries -/

/-- The entry is a shortest route. -/
structure Shortest (s : OlsrState) (a : Ipv4Address) (entry : RoutingTableEntry) : Prop where
  route : s.Route entry.nextAddr a entry.distance
  least : ∀ n k, s.Route n a k → entry.distance ≤ k

/-- The table has the routes of up to `h` hops. -/
structure Layered (s : OlsrState) (h : ℕ) (table : RoutingTable) : Prop where
  sound : ∀ a entry, table.find a = some entry → s.Shortest a entry ∧ entry.distance ≤ h
  complete : ∀ a n k, s.Route n a k → k ≤ h → ∃ entry, table.find a = some entry

/-- A node with a shortest route of at least two hops is not a neighbor. -/
theorem Shortest.not_isNeighbor {entry : RoutingTableEntry} (h : s.Shortest a entry)
    (htwo : 2 ≤ entry.distance) : ¬ s.IsNeighbor a := fun hneighbor => by
  have hone := h.least a 1 (.inl ⟨hneighbor, rfl, rfl⟩)
  omega

/-! ## The rounds over the topology tuples -/

/-- Within the round for `h`: the entries that were there, and entries of `h + 1` hops. -/
structure InRound (s : OlsrState) (h : ℕ) (before : RoutingTable)
    (r : RoutingTable × Bool) : Prop where
  kept : ∀ a entry, before.find a = some entry → r.1.find a = some entry
  new : ∀ a entry, r.1.find a = some entry → before.find a = none →
    s.Route entry.nextAddr a (h + 1) ∧ entry.distance = h + 1 ∧ r.2 = true

theorem InRound.start (s : OlsrState) (h : ℕ) (table : RoutingTable) :
    InRound s h table (table, false) where
  kept _ _ hfind := hfind
  new a entry hfind hnone := by
    rw [hnone] at hfind
    cases hfind

theorem find_addEntryLike {dest : Ipv4Address} {entry : RoutingTableEntry} {d : ℕ} :
    (addEntryLike dest entry d table).find a =
      if a = dest then some ⟨dest, entry.nextAddr, entry.interface, d⟩ else table.find a := by
  unfold addEntryLike
  rw [StdMap.find_assign]
  congr

/-- One topology tuple; afterwards its destination has an entry when its last node is at `h`. -/
theorem InRound.addTopology {before : RoutingTable} {r : RoutingTable × Bool}
    (hbefore : Layered s h before) (htwo : 2 ≤ h) (hr : InRound s h before r) {t : TopologyTuple}
    (ht : t ∈ s.topology) : InRound s h before (OlsrState.addTopology h r t) ∧
      (∀ a entry, r.1.find a = some entry →
        (OlsrState.addTopology h r t).1.find a = some entry) ∧
      ∀ entry, before.find t.lastAddr = some entry → entry.distance = h →
        ∃ entry', (OlsrState.addTopology h r t).1.find t.destAddr = some entry' := by
  unfold OlsrState.addTopology
  cases hdest : r.1.find t.destAddr with
  | some entry => exact ⟨hr, fun _ _ hfind => hfind, fun _ _ _ => ⟨entry, hdest⟩⟩
  | none =>
    cases hlast : r.1.find t.lastAddr with
    | none =>
      refine ⟨hr, fun _ _ hfind => hfind, fun entry hentry _ => ?_⟩
      rw [hr.kept _ _ hentry] at hlast
      cases hlast
    | some lastAddrEntry =>
      dsimp only
      by_cases hh : lastAddrEntry.distance = h
      · rw [if_pos hh]
        have hkept : ∀ a entry, r.1.find a = some entry →
            (addEntryLike t.destAddr lastAddrEntry (h + 1) r.1).find a = some entry := by
          intro a entry hfind
          rw [find_addEntryLike, if_neg fun heq => ?_]
          · exact hfind
          · rw [heq, hdest] at hfind
            cases hfind
        -- entries of this round are at `h + 1`, so the last node was there before
        have hold : before.find t.lastAddr = some lastAddrEntry := by
          cases hb : before.find t.lastAddr with
          | none =>
            have hfar := (hr.new _ _ hlast hb).2.1
            omega
          | some entry => rw [← hlast, hr.kept _ _ hb]
        obtain ⟨hshortest, -⟩ := hbefore.sound _ _ hold
        have hroute : s.Route lastAddrEntry.nextAddr t.destAddr (h + 1) := by
          have hlastRoute := hshortest.route
          rw [hh] at hlastRoute
          exact hlastRoute.snoc (hshortest.not_isNeighbor (by omega)) ht
        have hfound : (addEntryLike t.destAddr lastAddrEntry (h + 1) r.1).find t.destAddr =
            some ⟨t.destAddr, lastAddrEntry.nextAddr, lastAddrEntry.interface, h + 1⟩ := by
          rw [find_addEntryLike, if_pos rfl]
        refine ⟨⟨fun a entry hfind => hkept a entry (hr.kept a entry hfind), ?_⟩, hkept,
          fun _ _ _ => ⟨_, hfound⟩⟩
        intro a entry hfind hnone
        rw [find_addEntryLike] at hfind
        split at hfind
        · rename_i heq
          cases hfind
          subst heq
          exact ⟨hroute, rfl, rfl⟩
        · obtain ⟨hroute', hdist, -⟩ := hr.new a entry hfind hnone
          exact ⟨hroute', hdist, rfl⟩
      · rw [if_neg hh]
        refine ⟨hr, fun _ _ hfind => hfind, fun entry hentry hdist => ?_⟩
        rw [hr.kept _ _ hentry] at hlast
        cases hlast
        exact absurd hdist hh

/-- The whole round. -/
theorem InRound.foldl {before : RoutingTable} (hbefore : Layered s h before) (htwo : 2 ≤ h)
    {ts : TopologySet} (hts : ∀ t ∈ ts, t ∈ s.topology) {r : RoutingTable × Bool}
    (hr : InRound s h before r) : InRound s h before (ts.foldl (OlsrState.addTopology h) r) ∧
      (∀ a entry, r.1.find a = some entry →
        (ts.foldl (OlsrState.addTopology h) r).1.find a = some entry) ∧
      ∀ t ∈ ts, ∀ entry, before.find t.lastAddr = some entry → entry.distance = h →
        ∃ entry', (ts.foldl (OlsrState.addTopology h) r).1.find t.destAddr = some entry' := by
  induction ts generalizing r with
  | nil => exact ⟨hr, fun _ _ hfind => hfind, fun t ht => by cases ht⟩
  | cons t ts ih =>
    obtain ⟨hr', hkept, hdest⟩ := hr.addTopology hbefore htwo (hts t List.mem_cons_self)
    obtain ⟨hall, hkept', hdests⟩ := ih (fun t ht => hts t (List.mem_cons_of_mem _ ht)) hr'
    refine ⟨hall, fun a entry hfind => hkept' a entry (hkept a entry hfind), fun t' ht' => ?_⟩
    rcases List.mem_cons.mp ht' with rfl | ht'
    · intro entry hentry hdist
      obtain ⟨entry', hentry'⟩ := hdest entry hentry hdist
      exact ⟨entry', hkept' _ _ hentry'⟩
    · exact hdests t' ht'

/-- The route to the last node of a tuple gives one to its destination that is in a later layer,
or in the same. -/
theorem Layered.next (hlayered : Layered s h table) {t : TopologyTuple} (ht : t ∈ s.topology)
    (hpasses : ¬ s.IsNeighbor t.lastAddr) {entry : RoutingTableEntry}
    (hentry : table.find t.lastAddr = some entry) :
    2 ≤ entry.distance ∧ s.Route entry.nextAddr t.destAddr (entry.distance + 1) := by
  have hroute := (hlayered.sound _ _ hentry).1.route
  refine ⟨?_, hroute.snoc hpasses ht⟩
  rcases hroute with ⟨hneighbor, -, -⟩ | hchain
  · exact absurd hneighbor hpasses
  · exact hchain.two_le

theorem Layered.round (hlayered : Layered s h table) (htwo : 2 ≤ h) :
    Layered s (h + 1) (s.topology.foldl (OlsrState.addTopology h) (table, false)).1 := by
  obtain ⟨hround, -, hdests⟩ :=
    (InRound.start s h table).foldl hlayered htwo fun t ht => ht
  refine ⟨fun a entry hfind => ?_, fun a n k hroute hk => ?_⟩
  · cases hold : table.find a with
    | some entry' =>
      have hsame := hround.kept _ _ hold
      rw [hfind] at hsame
      cases hsame
      obtain ⟨hshortest, hle⟩ := hlayered.sound _ _ hold
      exact ⟨hshortest, Nat.le_succ_of_le hle⟩
    | none =>
      obtain ⟨hroute, hdist, -⟩ := hround.new _ _ hfind hold
      refine ⟨⟨by rw [hdist]; exact hroute, fun n k hroute' => ?_⟩, Nat.le_of_eq hdist⟩
      by_contra hlt
      obtain ⟨entry', hentry'⟩ := hlayered.complete a n k hroute' (by omega)
      rw [hold] at hentry'
      cases hentry'
  · have hbefore : k ≤ h → ∃ entry,
        (s.topology.foldl (OlsrState.addTopology h) (table, false)).1.find a = some entry := by
      intro hle
      obtain ⟨entry, hentry⟩ := hlayered.complete a n k hroute hle
      exact ⟨entry, hround.kept _ _ hentry⟩
    by_cases hle : k ≤ h
    · exact hbefore hle
    · obtain rfl : k = h + 1 := by omega
      obtain ⟨t, ht, rfl, hpasses, hlast⟩ := hroute.cases_succ htwo
      obtain ⟨entry, hentry⟩ := hlayered.complete _ _ _ hlast (Nat.le_refl h)
      obtain ⟨-, hroute'⟩ := hlayered.next ht hpasses hentry
      have hdist := (hlayered.sound _ _ hentry).2
      by_cases heq : entry.distance = h
      · exact hdests t ht entry hentry heq
      · obtain ⟨entry', hentry'⟩ := hlayered.complete _ _ _ hroute' (by omega)
        exact ⟨entry', hround.kept _ _ hentry'⟩

/-- The table has all routes. -/
structure Complete (s : OlsrState) (table : RoutingTable) : Prop where
  sound : ∀ a entry, table.find a = some entry → s.Shortest a entry
  complete : ∀ a n k, s.Route n a k → ∃ entry, table.find a = some entry

/-- When a round adds nothing, there are no longer routes. -/
theorem Layered.last (hlayered : Layered s h table) (htwo : 2 ≤ h)
    (hadded : (s.topology.foldl (OlsrState.addTopology h) (table, false)).2 = false) :
    Complete s (s.topology.foldl (OlsrState.addTopology h) (table, false)).1 := by
  obtain ⟨hround, -, -⟩ := (InRound.start s h table).foldl hlayered htwo fun t ht => ht
  have hnext := hlayered.round htwo
  -- nothing is new, so all entries are from before the round
  have hold : ∀ a entry,
      (s.topology.foldl (OlsrState.addTopology h) (table, false)).1.find a = some entry →
        entry.distance ≤ h := by
    intro a entry hfind
    cases hb : table.find a with
    | none =>
      have htrue := (hround.new a entry hfind hb).2.2
      rw [hadded] at htrue
      cases htrue
    | some entry' =>
      have hsame := hround.kept _ _ hb
      rw [hfind] at hsame
      cases hsame
      exact (hlayered.sound _ _ hb).2
  refine ⟨fun a entry hfind => (hnext.sound a entry hfind).1, fun a n k => ?_⟩
  induction k generalizing a with
  | zero => exact fun hroute => hnext.complete a n 0 hroute (Nat.zero_le _)
  | succ k ih =>
    intro hroute
    by_cases hle : k + 1 ≤ h + 1
    · exact hnext.complete a n _ hroute hle
    · obtain ⟨t, ht, rfl, hpasses, hlast⟩ := hroute.cases_succ (by omega)
      obtain ⟨entry, hentry⟩ := ih t.lastAddr hlast
      obtain ⟨-, hroute'⟩ := hnext.next ht hpasses hentry
      have hdist := hold _ _ hentry
      exact hnext.complete _ _ _ hroute' (by omega)

/-! ## The loop over the distances -/

theorem find_addTopology {r : RoutingTable × Bool} (t : TopologyTuple) {entry : RoutingTableEntry}
    (hfind : r.1.find a = some entry) : (addTopology h r t).1.find a = some entry := by
  unfold addTopology
  split
  · rename_i hdest _
    split
    · rw [find_addEntryLike, if_neg fun heq => ?_]
      · exact hfind
      · rw [← heq, hfind] at hdest
        cases hdest
    · exact hfind
  · exact hfind

theorem find_foldl_addTopology {ts : TopologySet} {r : RoutingTable × Bool}
    {entry : RoutingTableEntry} (hfind : r.1.find a = some entry) :
    (ts.foldl (addTopology h) r).1.find a = some entry := by
  induction ts generalizing r with
  | nil => exact hfind
  | cons t ts ih => exact ih (find_addTopology t hfind)

/-- A round says that it added an entry only when it did. -/
theorem added_spec {ts : TopologySet} {r : RoutingTable × Bool}
    (hadded : (ts.foldl (addTopology h) r).2 = true) : r.2 = true ∨
      ∃ t ∈ ts, r.1.find t.destAddr = none ∧
        ∃ entry, (ts.foldl (addTopology h) r).1.find t.destAddr = some entry := by
  induction ts generalizing r with
  | nil => exact .inl hadded
  | cons t ts ih =>
    rcases ih hadded with hfirst | ⟨t', ht', hnone, hsome⟩
    · unfold addTopology at hfirst
      split at hfirst
      · rename_i lastAddrEntry hdest hlast
        split at hfirst
        · rename_i hdist
          have hstep : addTopology h r t =
              (addEntryLike t.destAddr lastAddrEntry (h + 1) r.1, true) := by
            unfold addTopology
            rw [hdest, hlast]
            exact if_pos hdist
          refine .inr ⟨t, List.mem_cons_self, hdest, ?_⟩
          rw [List.foldl_cons, hstep]
          have hfound : (addEntryLike t.destAddr lastAddrEntry (h + 1) r.1).find t.destAddr =
              some ⟨t.destAddr, lastAddrEntry.nextAddr, lastAddrEntry.interface, h + 1⟩ :=
            find_addEntryLike.trans (if_pos rfl)
          exact ⟨_, find_foldl_addTopology hfound⟩
        · exact .inl hfirst
      · exact .inl hfirst
    · refine .inr ⟨t', List.mem_cons_of_mem _ ht', ?_, hsome⟩
      cases hb : r.1.find t'.destAddr with
      | none => rfl
      | some entry =>
        rw [find_addTopology t hb] at hnone
        cases hnone

/-- The topology tuples whose destination has no entry. -/
def missing (s : OlsrState) (table : RoutingTable) : ℕ :=
  s.topology.countP fun t => (table.find t.destAddr).isNone

theorem countP_lt_countP {α : Type} {p q : α → Bool} {l : List α} {t : α}
    (hpq : ∀ t ∈ l, p t = true → q t = true) (ht : t ∈ l) (hp : ¬ p t = true) (hq : q t = true) :
    l.countP p < l.countP q := by
  obtain ⟨before, after, rfl⟩ := List.append_of_mem ht
  have hbefore := List.countP_mono_left fun t' ht' =>
    hpq t' (List.mem_append_left (t :: after) ht')
  have hafter := List.countP_mono_left fun t' ht' =>
    hpq t' (List.mem_append_right before (List.mem_cons_of_mem t ht'))
  rw [List.countP_append, List.countP_append, List.countP_cons_of_neg hp,
    List.countP_cons_of_pos hq]
  omega

/-- A round that adds an entry leaves fewer tuples without one. -/
theorem missing_round
    (hadded : (s.topology.foldl (addTopology h) (table, false)).2 = true) :
    s.missing (s.topology.foldl (addTopology h) (table, false)).1 < s.missing table := by
  rcases added_spec hadded with hfalse | ⟨t, ht, hnone, entry, hsome⟩
  · cases hfalse
  refine countP_lt_countP (fun t' _ hmissing => ?_) ht ?_ ?_
  · cases hb : table.find t'.destAddr with
    | none => rfl
    | some entry' =>
      rw [find_foldl_addTopology hb] at hmissing
      cases hmissing
  · rw [hsome]
    exact Bool.false_ne_true
  · rw [hnone]
    rfl

/-- The loop ends, and when it begins with the routes of up to `h` hops, with all routes. -/
theorem addRounds_spec {fuel : ℕ} (htwo : 2 ≤ h) (hfuel : s.missing table < fuel) :
    ∃ table', s.addRounds fuel h table = some table' ∧ (Layered s h table → Complete s table') := by
  induction fuel generalizing h table with
  | zero => omega
  | succ fuel ih =>
    unfold addRounds
    have hmissing := @missing_round s table h
    have hround : Layered s h table → Layered s (h + 1)
        (s.topology.foldl (addTopology h) (table, false)).1 := fun hlayered => hlayered.round htwo
    have hlast : Layered s h table →
        (s.topology.foldl (addTopology h) (table, false)).2 = false →
          Complete s (s.topology.foldl (addTopology h) (table, false)).1 :=
      fun hlayered => hlayered.last htwo
    generalize s.topology.foldl (OlsrState.addTopology h) (table, false) = r
      at hround hmissing hlast
    obtain ⟨table', added⟩ := r
    cases added with
    | false => exact ⟨table', rfl, fun hlayered => hlast hlayered rfl⟩
    | true =>
      have hless : s.missing table' < s.missing table := hmissing rfl
      obtain ⟨table'', hend, hall⟩ := ih (show 2 ≤ h + 1 by omega)
        (show s.missing table' < fuel by omega)
      exact ⟨table'', hend, fun hlayered => hall (hround hlayered)⟩

/-! ## The first two layers -/

theorem OneAddress.getMainAddress (hone : s.OneAddress) (a : Ipv4Address) :
    s.getMainAddress a = a := by
  unfold OlsrState.getMainAddress
  cases hfind : s.ifaceAssocs.find? fun t => t.ifaceAddr = a with
  | none => rfl
  | some t =>
    have hiface : t.ifaceAddr = a := by simpa using List.find?_some hfind
    exact (hone t (List.mem_of_find?_eq_some hfind)).symm.trans hiface

/-- An entry of a neighbor. -/
def Direct (s : OlsrState) (a : Ipv4Address) (entry : RoutingTableEntry) : Prop :=
  s.IsNeighbor a ∧ entry.nextAddr = a ∧ entry.distance = 1

theorem find_addEntry (s : OlsrState) (dest next interfaceAddress : Ipv4Address) (d : ℕ)
    (table : RoutingTable) : ∃ i, ∀ a, (s.addEntry dest next interfaceAddress d table).find a =
      if a = dest then some ⟨dest, next, i, d⟩ else table.find a := by
  refine ⟨UInt32.ofNat ((s.interfaces.findIdx? fun addrs => interfaceAddress ∈ addrs).getD 0),
    fun a => ?_⟩
  unfold addEntry
  rw [StdMap.find_assign]
  congr

/-- All links to a neighbor are to its main address. -/
theorem addLinks_spec (hone : s.OneAddress) (tuple : NeighborTuple) {links : LinkSet}
    (hlinks : ∀ l ∈ links, l ∈ s.links) (hsym : s.IsSym tuple.neighborMainAddr)
    {r : RoutingTable × Bool × Option LinkTuple} (hr : r.2.2 ≠ none → r.2.1 = true)
    (hdirect : ∀ a entry, r.1.find a = some entry → s.Direct a entry) :
    ((s.addLinks tuple links r).2.2 ≠ none → (s.addLinks tuple links r).2.1 = true) ∧
      (∀ a entry, (s.addLinks tuple links r).1.find a = some entry → s.Direct a entry) ∧
      (∀ a, (r.1.find a).isSome → ((s.addLinks tuple links r).1.find a).isSome) ∧
      ∀ l ∈ links, l.neighborIfaceAddr = tuple.neighborMainAddr → s.now ≤ l.time →
        ((s.addLinks tuple links r).1.find tuple.neighborMainAddr).isSome := by
  induction links generalizing r with
  | nil => exact ⟨hr, hdirect, fun _ hfind => hfind, fun l hl => by cases hl⟩
  | cons l links ih =>
    obtain ⟨table, nbMainAddr, lt⟩ := r
    have hlinks' : ∀ l ∈ links, l ∈ s.links := fun l hl => hlinks l (List.mem_cons_of_mem _ hl)
    unfold addLinks
    rw [hone.getMainAddress]
    split
    · rename_i hlink
      obtain ⟨haddr, hlive⟩ := hlink
      obtain ⟨i, hfind⟩ := find_addEntry s l.neighborIfaceAddr l.neighborIfaceAddr
        l.localIfaceAddr 1 table
      obtain ⟨hmain, hall, hkept, -⟩ := ih hlinks' (r := (s.addEntry l.neighborIfaceAddr
        l.neighborIfaceAddr l.localIfaceAddr 1 table, nbMainAddr ||
          l.neighborIfaceAddr = tuple.neighborMainAddr, some l))
        (fun _ => by simp [haddr]) fun b entry hb => by
          rw [hfind] at hb
          split at hb
          · rename_i heq
            cases hb
            subst heq
            rw [← haddr] at hsym
            exact ⟨⟨hsym, l, hlinks l List.mem_cons_self, rfl, hlive⟩, rfl, rfl⟩
          · exact hdirect b entry hb
      have hhere : ((s.addEntry l.neighborIfaceAddr l.neighborIfaceAddr l.localIfaceAddr 1
          table).find tuple.neighborMainAddr).isSome := by
        rw [hfind, if_pos haddr.symm]
        rfl
      refine ⟨hmain, hall, fun b hb => hkept b ?_, fun _ _ _ _ => ?_⟩
      · rw [hfind]
        split
        · rfl
        · exact hb
      · exact hkept _ hhere
    · rename_i hother
      obtain ⟨hmain, hall, hkept, hlive'⟩ := ih hlinks' hr hdirect
      refine ⟨hmain, hall, hkept, fun l' hl' haddr' hlive'' => ?_⟩
      rcases List.mem_cons.mp hl' with rfl | hl'
      · exact absurd ⟨haddr', hlive''⟩ hother
      · exact hlive' l' hl' haddr' hlive''

/-- Step 2: the neighbors have entries. -/
theorem addNeighbors_spec (hone : s.OneAddress) {tuples : List NeighborTuple}
    (htuples : ∀ n ∈ tuples, n ∈ s.neighbors.tuples) {table : RoutingTable}
    (hdirect : ∀ a entry, table.find a = some entry → s.Direct a entry) :
    (∀ a entry, (tuples.foldl s.addNeighbor table).find a = some entry → s.Direct a entry) ∧
      (∀ a, (table.find a).isSome → ((tuples.foldl s.addNeighbor table).find a).isSome) ∧
      ∀ n ∈ tuples, n.status = .sym → s.IsNeighbor n.neighborMainAddr →
        ((tuples.foldl s.addNeighbor table).find n.neighborMainAddr).isSome := by
  induction tuples generalizing table with
  | nil => exact ⟨hdirect, fun _ hfind => hfind, fun n hn => by cases hn⟩
  | cons n tuples ih =>
    have htuples' : ∀ n ∈ tuples, n ∈ s.neighbors.tuples :=
      fun n hn => htuples n (List.mem_cons_of_mem _ hn)
    by_cases hstatus : n.status = .sym
    · have hsym : s.IsSym n.neighborMainAddr := ⟨n, htuples n List.mem_cons_self, rfl, hstatus⟩
      obtain ⟨hmain, hdirect', hkept, hlive⟩ := addLinks_spec hone n (fun l hl => hl)
        hsym (r := (table, false, none)) (fun hne => absurd rfl hne) hdirect
      have hstep : s.addNeighbor table n = (s.addLinks n s.links (table, false, none)).1 := by
        unfold addNeighbor
        rw [if_pos hstatus]
        generalize s.addLinks n s.links (table, false, none) = r at hmain
        obtain ⟨table', nbMainAddr, lt⟩ := r
        -- the link that is kept in `lt` is to the main address
        cases lt with
        | none => cases nbMainAddr <;> rfl
        | some lt =>
          cases hmain (fun hnone => by cases hnone)
          rfl
      rw [List.foldl_cons, hstep]
      obtain ⟨hall, hkept', hfound⟩ := ih htuples' hdirect'
      refine ⟨hall, fun a ha => hkept' a (hkept a ha), fun n' hn' hstatus' hneighbor => ?_⟩
      rcases List.mem_cons.mp hn' with rfl | hn'
      · obtain ⟨-, l, hl, haddr, htime⟩ := hneighbor
        exact hkept' _ (hlive l hl haddr htime)
      · exact hfound n' hn' hstatus' hneighbor
    · have hstep : s.addNeighbor table n = table := if_neg hstatus
      rw [List.foldl_cons, hstep]
      obtain ⟨hall, hkept', hfound⟩ := ih htuples' hdirect
      refine ⟨hall, hkept', fun n' hn' hstatus' hneighbor => ?_⟩
      rcases List.mem_cons.mp hn' with rfl | hn'
      · exact absurd hstatus' hstatus
      · exact hfound n' hn' hstatus' hneighbor

theorem isSome_findSymNeighborTuple : (s.findSymNeighborTuple a).isSome = true ↔ s.IsSym a := by
  unfold findSymNeighborTuple IsSym
  rw [List.find?_isSome]
  simp only [decide_eq_true_eq]

theorem any_willing : (s.neighbors.tuples.any fun n =>
    n.neighborMainAddr = a ∧ n.willingness ≠ willNever) = true ↔ s.Willing a := by
  unfold Willing
  rw [List.any_eq_true]
  simp only [decide_eq_true_eq]

/-- An entry of a neighbor or of a two-hop neighbor. -/
def Near (s : OlsrState) (a : Ipv4Address) (entry : RoutingTableEntry) : Prop :=
  s.Direct a entry ∨ entry.distance = 2 ∧ s.Route entry.nextAddr a 2 ∧ ¬ s.IsNeighbor a

/-- A round of step 3: the entry of the neighbor of the tuple is one of a neighbor. -/
theorem addTwoHop_spec (hdetour : s.NoDetour) {t : TwoHopNeighborTuple}
    (ht : t ∈ s.twoHops.tuples) (hnear : ∀ a entry, table.find a = some entry → s.Near a entry)
    (hneighbors : ∀ a, s.IsNeighbor a → (table.find a).isSome) :
    (∀ a entry, (s.addTwoHop table t).find a = some entry → s.Near a entry) ∧
      (∀ a, (table.find a).isSome → ((s.addTwoHop table t).find a).isSome) ∧
      (s.IsNeighbor t.neighborMainAddr → s.Willing t.neighborMainAddr →
        ¬ s.IsSym t.twoHopNeighborAddr → t.twoHopNeighborAddr ≠ s.mainAddress →
          ((s.addTwoHop table t).find t.twoHopNeighborAddr).isSome) := by
  unfold addTwoHop
  by_cases hsym : s.IsSym t.twoHopNeighborAddr
  · rw [if_pos (isSome_findSymNeighborTuple.mpr hsym)]
    exact ⟨hnear, fun _ hfind => hfind, fun _ _ hnot => absurd hsym hnot⟩
  rw [if_neg (mt isSome_findSymNeighborTuple.mp hsym)]
  by_cases hself : t.twoHopNeighborAddr = s.mainAddress
  · rw [if_pos hself]
    exact ⟨hnear, fun _ hfind => hfind, fun _ _ _ hnot => absurd hself hnot⟩
  rw [if_neg hself]
  by_cases hwilling : s.Willing t.neighborMainAddr
  swap
  · rw [if_neg (mt any_willing.mp hwilling)]
    exact ⟨hnear, fun _ hfind => hfind, fun _ hwill => absurd hwill hwilling⟩
  rw [if_pos (any_willing.mpr hwilling)]
  cases hentry : table.find t.neighborMainAddr with
  | none =>
    refine ⟨hnear, fun _ hfind => hfind, fun hneighbor => ?_⟩
    have hsome := hneighbors _ hneighbor
    rw [hentry] at hsome
    cases hsome
  | some entry =>
    dsimp only
    have hdirect : s.Direct t.neighborMainAddr entry := by
      rcases hnear _ _ hentry with hdirect | ⟨-, hroute, -⟩
      · exact hdirect
      · exact absurd hroute (hdetour t ht hwilling _)
    obtain ⟨hneighbor, hnext, -⟩ := hdirect
    refine ⟨fun a entry' hfind => ?_, fun a ha => ?_, fun _ _ _ _ => ?_⟩
    · rw [find_addEntryLike] at hfind
      split at hfind
      · rename_i heq
        cases hfind
        subst heq
        refine .inr ⟨rfl, .inr (.twoHop ht hnext.symm ?_ ?_ hsym hself), fun h => hsym h.1⟩
        · rw [show entry.nextAddr = t.neighborMainAddr from hnext]
          exact hneighbor
        · rw [show entry.nextAddr = t.neighborMainAddr from hnext]
          exact hwilling
      · exact hnear a entry' hfind
    · rw [find_addEntryLike]
      split
      · rfl
      · exact ha
    · rw [find_addEntryLike, if_pos rfl]
      rfl

/-- The first part of step 3. -/
theorem addTwoHops_spec (hdetour : s.NoDetour) {ts : List TwoHopNeighborTuple}
    (hts : ∀ t ∈ ts, t ∈ s.twoHops.tuples) {table : RoutingTable}
    (hnear : ∀ a entry, table.find a = some entry → s.Near a entry)
    (hneighbors : ∀ a, s.IsNeighbor a → (table.find a).isSome) :
    (∀ a entry, (ts.foldl s.addTwoHop table).find a = some entry → s.Near a entry) ∧
      (∀ a, (table.find a).isSome → ((ts.foldl s.addTwoHop table).find a).isSome) ∧
      ∀ t ∈ ts, s.IsNeighbor t.neighborMainAddr → s.Willing t.neighborMainAddr →
        ¬ s.IsSym t.twoHopNeighborAddr → t.twoHopNeighborAddr ≠ s.mainAddress →
          ((ts.foldl s.addTwoHop table).find t.twoHopNeighborAddr).isSome := by
  induction ts generalizing table with
  | nil => exact ⟨hnear, fun _ hfind => hfind, fun t ht => by cases ht⟩
  | cons t ts ih =>
    obtain ⟨hnear', hkept, hfound⟩ :=
      addTwoHop_spec hdetour (hts t List.mem_cons_self) hnear hneighbors
    obtain ⟨hall, hkept', hfounds⟩ := ih (fun t ht => hts t (List.mem_cons_of_mem _ ht)) hnear'
      fun a ha => hkept a (hneighbors a ha)
    refine ⟨hall, fun a ha => hkept' a (hkept a ha), fun t' ht' => ?_⟩
    rcases List.mem_cons.mp ht' with rfl | ht'
    · exact fun hneighbor hwilling hsym hself =>
        hkept' _ (hfound hneighbor hwilling hsym hself)
    · exact hfounds t' ht'

/-- After steps 2 and 3 the routes of up to two hops are in the table. -/
theorem layered_two (hone : s.OneAddress) (hdetour : s.NoDetour) :
    Layered s 2 (s.twoHops.tuples.foldl s.addTwoHop
      (s.neighbors.tuples.foldl s.addNeighbor StdMap.empty)) := by
  obtain ⟨hdirect, -, hneighbors⟩ := addNeighbors_spec hone (fun n hn => hn)
    (show ∀ a entry, (StdMap.empty : RoutingTable).find a = some entry → s.Direct a entry from
      fun a entry hfind => by cases hfind)
  have hneighbors' : ∀ a, s.IsNeighbor a →
      ((s.neighbors.tuples.foldl s.addNeighbor StdMap.empty).find a).isSome := by
    intro a hneighbor
    obtain ⟨n, hn, rfl, hstatus⟩ := hneighbor.1
    exact hneighbors n hn hstatus hneighbor
  obtain ⟨hnear, hkept, hfound⟩ := addTwoHops_spec hdetour (fun t ht => ht)
    (fun a entry hfind => .inl (hdirect a entry hfind)) hneighbors'
  refine ⟨fun a entry hfind => ?_, fun a n k hroute hk => ?_⟩
  · rcases hnear a entry hfind with ⟨hneighbor, hnext, hdist⟩ | ⟨hdist, hroute, hnot⟩
    · refine ⟨⟨.inl ⟨hneighbor, hnext, hdist⟩, fun n k hroute => ?_⟩, by omega⟩
      rcases hroute with ⟨-, -, rfl⟩ | hchain
      · omega
      · have htwo := hchain.two_le
        omega
    · refine ⟨⟨by rw [hdist]; exact hroute, fun n k hroute' => ?_⟩, by omega⟩
      rcases hroute' with ⟨hneighbor, -, -⟩ | hchain
      · exact absurd hneighbor hnot
      · have htwo := hchain.two_le
        omega
  · refine Option.isSome_iff_exists.mp ?_
    rcases hroute with ⟨hneighbor, -, -⟩ | hchain
    · exact hkept a (hneighbors' a hneighbor)
    · cases hchain with
      | twoHop ht haddr hneighbor hwilling hsym hself =>
        subst haddr
        exact hfound _ ht hneighbor hwilling hsym hself
      | topology hlast _ _ =>
        have htwo := hlast.two_le
        omega

/-- With one address for each node, step 4 adds nothing. -/
theorem addIfaceAssocs_eq (hone : s.OneAddress) (table : RoutingTable) :
    s.ifaceAssocs.foldl addIfaceAssoc table = table := by
  have hstep : ∀ t ∈ s.ifaceAssocs, ∀ table, addIfaceAssoc table t = table := by
    intro t ht table
    unfold addIfaceAssoc
    rw [hone t ht]
    cases table.find t.mainAddr <;> rfl
  generalize s.ifaceAssocs = ts at hstep
  induction ts with
  | nil => rfl
  | cons t ts ih =>
    rw [List.foldl_cons, hstep t List.mem_cons_self]
    exact ih fun t ht => hstep t (List.mem_cons_of_mem _ ht)

/-- **The routing table has the shortest routes.** -/
theorem routingTableComputation_shortest (s : OlsrState) :
    ∃ table, s.routingTableComputation = some table ∧ (s.OneAddress → s.NoDetour →
      ∀ a, a ≠ s.mainAddress →
        ((∃ entry, table.find a = some entry) ↔ ∃ n k, s.Route n a k) ∧
        ∀ entry, table.find a = some entry → s.Shortest a entry) := by
  obtain ⟨table, hend, hall⟩ := addRounds_spec (s := s) (h := 2) (Nat.le_refl 2)
    (Nat.lt_succ_of_le (List.countP_le_length) : s.missing (s.twoHops.tuples.foldl s.addTwoHop
      (s.neighbors.tuples.foldl s.addNeighbor StdMap.empty)) < s.topology.length + 1)
  refine ⟨s.ifaceAssocs.foldl addIfaceAssoc table, ?_, fun hone hdetour a _ => ?_⟩
  · unfold routingTableComputation
    dsimp only
    rw [hend]
  · obtain ⟨hsound, hcomplete⟩ := hall (layered_two hone hdetour)
    rw [addIfaceAssocs_eq hone]
    refine ⟨⟨fun ⟨entry, hentry⟩ => ?_, fun ⟨n, k, hroute⟩ => hcomplete a n k hroute⟩,
      fun entry hentry => hsound a entry hentry⟩
    exact ⟨_, _, (hsound a entry hentry).route⟩

/-- The node 100 has the neighbors 1 and 4, and 4 does not relay; 2 is a neighbor of 1 and 4, and 5
one of 4. -/
def sample : OlsrState where
  mainAddress := 100
  now := 0
  interfaces := [[100]]
  links := [⟨100, 1, 5, 5, 5⟩, ⟨100, 4, 5, 5, 5⟩]
  neighbors := ⟨[⟨1, .sym, 3⟩, ⟨4, .sym, 0⟩], by decide⟩
  twoHops := ⟨[⟨1, 2, 5⟩], by decide⟩
  topology := [⟨4, 2, 0, 5⟩, ⟨5, 4, 0, 5⟩, ⟨3, 2, 0, 5⟩]
  ifaceAssocs := []

theorem sample_oneAddress : sample.OneAddress := fun t ht => by cases ht

theorem sample_noDetour : sample.NoDetour := by
  intro t ht _ n hroute
  obtain rfl := List.mem_singleton.mp ht
  rcases hroute with ⟨-, -, htwo⟩ | hchain
  · cases htwo
  · generalize ha : (⟨1, 2, 5⟩ : TwoHopNeighborTuple).neighborMainAddr = a at hchain
    generalize hk : 2 = k at hchain
    cases hchain with
    | twoHop ht' =>
      obtain rfl := List.mem_singleton.mp ht'
      cases ha
    | topology hlast =>
      have htwo := hlast.two_le
      omega

theorem sample_not_isSym : ¬ sample.IsSym 2 := by
  rintro ⟨n, hn, haddr, -⟩
  revert haddr
  revert n
  decide

theorem sample_chain (Passes : Ipv4Address → Prop) : sample.Chain Passes 1 2 2 :=
  .twoHop (t := ⟨1, 2, 5⟩) (by decide) rfl
    ⟨⟨⟨1, .sym, 3⟩, by decide, rfl, rfl⟩, ⟨100, 1, 5, 5, 5⟩, by decide, rfl, by decide⟩
    ⟨⟨1, .sym, 3⟩, by decide, rfl, by decide⟩ sample_not_isSym (by decide)

/-- The node 3 is three hops away. -/
theorem routingTableComputation_shortest_sample : ∃ table,
    sample.routingTableComputation = some table ∧
      ∃ entry, table.find 3 = some entry ∧ sample.Shortest 3 entry := by
  obtain ⟨table, htable, hroutes⟩ := routingTableComputation_shortest sample
  obtain ⟨hiff, hshortest⟩ := hroutes sample_oneAddress sample_noDetour 3 (by decide)
  obtain ⟨entry, hentry⟩ := hiff.mpr ⟨1, 3, .inr (.topology (t := ⟨3, 2, 0, 5⟩) (sample_chain _)
    (fun hneighbor => sample_not_isSym hneighbor.1) (by decide))⟩
  exact ⟨table, htable, entry, hentry, hshortest entry hentry⟩

/-- The chain to 5 goes through the neighbor 4, so there is no entry for 5. -/
theorem no_route_past_neighbor : ∃ s : OlsrState, s.OneAddress ∧ s.NoDetour ∧
    ∃ table, s.routingTableComputation = some table ∧ 5 ≠ s.mainAddress ∧
      s.IsRoute (fun _ => True) 1 5 4 ∧ table.find 5 = none := by
  have hrun : sample.routingTableComputation.map (fun table => table.find 5) = some none := by
    decide +kernel
  obtain ⟨table, htable, hfind⟩ := Option.map_eq_some_iff.mp hrun
  refine ⟨sample, sample_oneAddress, sample_noDetour, table, htable, by decide, .inr ?_, hfind⟩
  exact .topology (t := ⟨5, 4, 0, 5⟩)
    (.topology (t := ⟨4, 2, 0, 5⟩) (sample_chain _) trivial (by decide)) trivial (by decide)

end OlsrState

end Ns3.Olsr
