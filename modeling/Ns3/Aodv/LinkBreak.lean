import Ns3.Aodv.NodeSpec

/-!
# Reporting a broken link

When the link to a neighbour breaks, the neighbour and the destinations behind
it are to be reported in route errors of at most 255 destinations each, and their
routes are to become invalid. The sending loop counts on `AddUnDestination`
to refuse a destination when the header is full; it never does, and all
destinations go into one header whose count is one byte. `handlesBreak_iff` says
for which tables the reports are right all the same.
-/

namespace Ns3.Aodv

open Ns3.Lib
open RoutingTableEntry (blank ofRoute)

variable {v : Env} {n n' : Node} {t : RoutingTable} {nextHop d : Ipv4Address}

/-! ## Sending -/

/-- A socket is bound to the address. -/
def Node.HasSocket (n : Node) (iface : Option Ipv4Address) : Prop := ∃ a, iface = some a ∧ n.owns a

theorem sendTo_run {iface : Option Ipv4Address} (receiver : Option Ipv4Address) (ttl : UInt8)
    (m : Message) (h : n.HasSocket iface) :
    ∃ out, sendTo iface receiver ttl m n = some ((), { n with outbox := n.outbox ++ out }) := by
  obtain ⟨a, rfl, ha⟩ := h
  refine ⟨[⟨a, receiver, ttl, m⟩], ?_⟩
  show (if n.owns a then _ else _ : Handler Unit) n = _
  rw [if_pos ha]
  rfl

theorem hasSocket_of_sendTo {iface receiver : Option Ipv4Address} {ttl : UInt8} {m : Message}
    (h : sendTo iface receiver ttl m n = some ((), n')) : n.HasSocket iface := by
  cases iface with
  | none => cases h
  | some a =>
    change (if n.owns a then _ else _ : Handler Unit) n = _ at h
    split at h
    · exact ⟨a, rfl, ‹_›⟩
    · cases h

/-- One copy through each interface: only the outbox changes. -/
theorem forM_sendTo_run (ttl : UInt8) (m : Message) (l : List (Option Ipv4Address))
    (h : ∀ i ∈ l, n.HasSocket i) :
    ∃ out, l.forM (fun i => sendTo i none ttl m) n =
      some ((), { n with outbox := n.outbox ++ out }) := by
  induction l generalizing n with
  | nil => exact ⟨[], by rw [List.append_nil]; rfl⟩
  | cons i l ih =>
    obtain ⟨out, hout⟩ := sendTo_run none ttl m (h i (by simp))
    obtain ⟨rest, hrest⟩ := ih (n := { n with outbox := n.outbox ++ out })
      fun j hj => h j (by simp [hj])
    refine ⟨out ++ rest, ?_⟩
    refine (bind_run hout).trans (hrest.trans ?_)
    rw [List.append_assoc]

theorem hasSocket_of_forM {ttl : UInt8} {m : Message} (l : List (Option Ipv4Address))
    (h : l.forM (fun i => sendTo i none ttl m) n = some ((), n')) : ∀ i ∈ l, n.HasSocket i := by
  induction l generalizing n with
  | nil => simp
  | cons i l ih =>
    obtain ⟨u, n₁, hi, hl⟩ := bind_run_inv h
    dsimp only at hi
    have hsock := hasSocket_of_sendTo hi
    obtain ⟨out, hout⟩ := sendTo_run none ttl m hsock
    rw [hout] at hi
    cases hi
    intro j hj
    rcases List.mem_cons.mp hj with rfl | hj
    · exact hsock
    · exact ih hl j hj

/-! ## Reading a table that has just been purged -/

theorem lookupRoute_purged (hpurged : n.routingTable.purge v.now = n.routingTable) (d : Ipv4Address) :
    lookupRoute v d n = some (n.routingTable.entries.find d, n) := by
  show some ((n.routingTable.purge v.now).entries.find d,
    { n with routingTable := n.routingTable.purge v.now }) = _
  rw [hpurged]

theorem mem_getPrecursors {e : RoutingTableEntry} {prec : List Ipv4Address} {p : Ipv4Address} :
    p ∈ e.getPrecursors prec ↔ p ∈ prec ∨ p ∈ e.precursors := by
  unfold RoutingTableEntry.getPrecursors
  induction e.precursors generalizing prec with
  | nil => simp
  | cons i l ih =>
    rw [List.foldl_cons, ih, List.mem_cons]
    split
    · rename_i hi
      constructor
      · rintro (h | h)
        · exact .inl h
        · exact .inr (.inr h)
      · rintro (h | rfl | h)
        · exact .inl h
        · exact .inl hi
        · exact .inr h
    · rw [List.mem_append, List.mem_singleton, or_assoc]

/-- The precursors of all the destinations, after those there are. -/
theorem precursorsOf_run (hpurged : n.routingTable.purge v.now = n.routingTable)
    (l prec : List Ipv4Address) :
    ∃ out, precursorsOf v l prec n = some (out, n) ∧ ∀ p, p ∈ out ↔ p ∈ prec ∨
      ∃ d ∈ l, ∃ e, n.routingTable.entries.find d = some e ∧ p ∈ e.precursors := by
  induction l generalizing prec with
  | nil => exact ⟨prec, rfl, by simp⟩
  | cons d l ih =>
    obtain ⟨out, hout, hmem⟩ :=
      ih (((n.routingTable.entries.find d).getD (blank v.now)).getPrecursors prec)
    refine ⟨out, ?_, fun p => ?_⟩
    · unfold precursorsOf
      rw [List.foldlM_cons]
      exact (bind_run (bind_run (lookupRoute_purged hpurged d))).trans hout
    · rw [hmem, mem_getPrecursors, or_assoc]
      refine or_congr Iff.rfl ?_
      cases hd : n.routingTable.entries.find d with
      | none =>
        have hblank : p ∉ (blank v.now).precursors := List.not_mem_nil
        simp [hd, hblank]
      | some e => simp [hd]

/-- What one round of the loop of `ifacesOf` does. -/
theorem ifacesOf_fold (hpurged : n.routingTable.purge v.now = n.routingTable) :
    ∃ f : List (Option Ipv4Address) → Ipv4Address → Handler (List (Option Ipv4Address)),
      (∀ l, ifacesOf v l = l.foldlM f []) ∧
      (∀ acc p, n.routingTable.entries.find p = none → f acc p n = some (acc, n)) ∧
      ∀ acc p e, n.routingTable.entries.find p = some e → f acc p n =
        some (if e.flag = .valid ∧ e.iface ∉ acc then acc ++ [e.iface] else acc, n) := by
  refine ⟨_, fun l => rfl, fun acc p hp => ?_, fun acc p e hp => ?_⟩
  · exact bind_run ((lookupRoute_purged hpurged p).trans (by rw [hp]))
  · exact bind_run ((lookupRoute_purged hpurged p).trans (by rw [hp]))

/-- The interfaces towards the precursors that have a valid route. -/
theorem ifacesOf_run (hpurged : n.routingTable.purge v.now = n.routingTable)
    (l : List Ipv4Address) :
    ∃ out, ifacesOf v l n = some (out, n) ∧ ∀ i, i ∈ out ↔
      ∃ p ∈ l, ∃ e, n.routingTable.entries.find p = some e ∧ e.flag = .valid ∧ e.iface = i := by
  obtain ⟨f, hfold, hnone, hsome⟩ := ifacesOf_fold (v := v) hpurged
  have hloop : ∀ (l : List Ipv4Address) (acc : List (Option Ipv4Address)),
      ∃ out, (l.foldlM f acc : Handler _) n = some (out, n) ∧ ∀ i, i ∈ out ↔ i ∈ acc ∨
        ∃ p ∈ l, ∃ e, n.routingTable.entries.find p = some e ∧ e.flag = .valid ∧ e.iface = i := by
    intro l
    induction l with
    | nil => exact fun acc => ⟨acc, rfl, by simp⟩
    | cons p l ih =>
      intro acc
      cases hp : n.routingTable.entries.find p with
      | none =>
        obtain ⟨out, hout, hmem⟩ := ih acc
        refine ⟨out, ?_, fun i => ?_⟩
        · rw [List.foldlM_cons]
          exact (bind_run (hnone acc p hp)).trans hout
        · rw [hmem]
          simp [hp]
      | some e =>
        obtain ⟨out, hout, hmem⟩ := ih
          (if e.flag = .valid ∧ e.iface ∉ acc then acc ++ [e.iface] else acc)
        refine ⟨out, ?_, fun i => ?_⟩
        · rw [List.foldlM_cons]
          exact (bind_run (hsome acc p e hp)).trans hout
        · rw [hmem]
          by_cases hv : e.flag = .valid
          · by_cases hin : e.iface ∈ acc
            · rw [if_neg fun h => h.2 hin]
              simp only [List.mem_cons, exists_eq_or_imp, hp, Option.some.injEq, exists_eq_left', hv,
                true_and]
              constructor
              · rintro (h | h)
                · exact .inl h
                · exact .inr (.inr h)
              · rintro (h | rfl | h)
                · exact .inl h
                · exact .inl hin
                · exact .inr h
            · rw [if_pos ⟨hv, hin⟩]
              simp [hp, hv, or_assoc, eq_comm]
          · rw [if_neg fun h => hv h.1]
            simp [hp, hv]
  obtain ⟨out, hout, hmem⟩ := hloop l []
  exact ⟨out, by rw [hfold, hout], fun i => (hmem i).trans (by simp)⟩

/-! ## One route error -/

/-- The error can be sent: it is held back by the rate limit, or each precursor that has a valid
route is reached through an interface with a socket. -/
def CanReport (v : Env) (n : Node) (precursors : List Ipv4Address) : Prop :=
  n.rerrCount = v.cfg.rerrRateLimit ∨ ∀ p ∈ precursors, ∀ e,
    n.routingTable.entries.find p = some e → e.flag = .valid → n.HasSocket e.iface

/-- A single precursor: the error goes to it alone. -/
theorem sendRerrMessage_one (hpurged : n.routingTable.purge v.now = n.routingTable)
    (hlimit : n.rerrCount ≠ v.cfg.rerrRateLimit) (p : Ipv4Address) (rerr : RerrHeader) :
    sendRerrMessage v rerr [p] n = match n.routingTable.entries.find p with
      | none => some ((), n)
      | some e =>
        if e.flag = .valid then
          (sendTo e.iface p 1 (.rerr rerr) n).map fun r =>
            ((), { r.2 with rerrCount := r.2.rerrCount + 1 })
        else some ((), n) := by
  have hget : sendRerrMessage v rerr [p] n = _ := get_run
  rw [if_neg (by simp [hlimit])] at hget
  refine hget.trans ((bind_run (lookupRoute_purged hpurged p)).trans ?_)
  cases n.routingTable.entries.find p with
  | none => rfl
  | some e =>
    dsimp only
    by_cases hv : e.flag = .valid
    · rw [if_pos hv, if_pos hv]
      show Option.bind _ _ = _
      cases sendTo e.iface p 1 (.rerr rerr) n <;> rfl
    · rw [if_neg hv, if_neg hv]
      rfl

/-- Sending a route error leaves the table as it is, and goes wrong only for want of a socket. -/
theorem sendRerrMessage_run (hpurged : n.routingTable.purge v.now = n.routingTable)
    (precursors : List Ipv4Address) (rerr : RerrHeader) :
    (CanReport v n precursors → ∃ n', sendRerrMessage v rerr precursors n = some ((), n') ∧
      n'.routingTable = n.routingTable) ∧
    ∀ n', sendRerrMessage v rerr precursors n = some ((), n') → CanReport v n precursors := by
  have hget : sendRerrMessage v rerr precursors n = _ := get_run
  by_cases hquiet : precursors = [] ∨ n.rerrCount = v.cfg.rerrRateLimit
  · rw [if_pos hquiet] at hget
    refine ⟨fun _ => ⟨n, hget, rfl⟩, fun _ _ => ?_⟩
    rcases hquiet with rfl | hlimit
    · exact .inr fun p hp => absurd hp List.not_mem_nil
    · exact .inl hlimit
  have hlimit := fun h => hquiet (.inr h)
  rw [if_neg hquiet] at hget
  match precursors, hquiet, hget with
  | [], hquiet, _ => exact absurd (.inl rfl) hquiet
  | [p], _, _ =>
    rw [sendRerrMessage_one hpurged hlimit]
    unfold CanReport
    cases hp : n.routingTable.entries.find p with
    | none => exact ⟨fun _ => ⟨n, rfl, rfl⟩, fun _ _ => .inr (by simp [hp])⟩
    | some e =>
      dsimp only
      by_cases hv : e.flag = .valid
      · rw [if_pos hv]
        constructor
        · rintro (h | h)
          · exact absurd h hlimit
          · obtain ⟨out, hout⟩ := sendTo_run p 1 (.rerr rerr) (h p (by simp) e hp hv)
            rw [hout]
            exact ⟨_, rfl, rfl⟩
        · intro n' hrun
          obtain ⟨⟨u, n₁⟩, hsend, -⟩ := Option.map_eq_some_iff.mp hrun
          refine .inr fun q hq e' he' _ => ?_
          obtain rfl := List.mem_singleton.mp hq
          obtain rfl : e = e' := Option.some.inj (hp.symm.trans he')
          exact hasSocket_of_sendTo hsend
      · rw [if_neg hv]
        refine ⟨fun _ => ⟨n, rfl, rfl⟩, fun _ _ => .inr fun q hq e' he' hv' => ?_⟩
        obtain rfl := List.mem_singleton.mp hq
        obtain rfl : e = e' := Option.some.inj (hp.symm.trans he')
        exact absurd hv' hv
  | p :: q :: l, _, hget =>
    obtain ⟨ifaces, hifaces, hmem⟩ := ifacesOf_run hpurged (p :: q :: l)
    rw [hget.trans (bind_run hifaces)]
    constructor
    · rintro (h | h)
      · exact absurd h hlimit
      · obtain ⟨out, hout⟩ := forM_sendTo_run 1 (.rerr rerr) ifaces fun i hi => by
          obtain ⟨r, hr, e, he, hv, rfl⟩ := (hmem i).mp hi
          exact h r hr e he hv
        exact ⟨_, hout, rfl⟩
    · intro n' hrun
      refine .inr fun r hr e he hv => ?_
      exact hasSocket_of_forM ifaces hrun e.iface ((hmem _).mpr ⟨r, hr, e, he, hv, rfl⟩)

/-! ## What is reported -/

namespace RoutingTable

/-- The destination is reached through `nextHop`. -/
def Behind (t : RoutingTable) (nextHop d : Ipv4Address) : Prop :=
  ∃ e, t.entries.find d = some e ∧ e.nextHop = nextHop

instance : Decidable (t.Behind nextHop d) :=
  decidable_of_iff ((t.entries.find d).any fun e => e.nextHop = nextHop) (by
    unfold Behind
    cases t.entries.find d <;> simp)

/-- The neighbour, if the table knows it, and the destinations behind it. -/
def affected (t : RoutingTable) (nextHop : Ipv4Address) : List Ipv4Address :=
  (t.entries.entries.filter fun e => e.1 = nextHop ∨ e.2.nextHop = nextHop).map Prod.fst

/-- The list of `GetListOfDestinationWithNextHop`. -/
def unreachable (t : RoutingTable) (nextHop : Ipv4Address) : StdMap Ipv4Address UInt32 :=
  t.entries.filterMap fun _ e => if e.nextHop = nextHop then some e.seqNo else none

theorem find_unreachable : (t.unreachable nextHop).find d =
    (t.entries.find d).bind fun e => if e.nextHop = nextHop then some e.seqNo else none :=
  StdMap.find_filterMap _ _ _

theorem contains_unreachable : (t.unreachable nextHop).contains d = true ↔ t.Behind nextHop d := by
  unfold StdMap.contains Behind
  rw [find_unreachable]
  cases t.entries.find d with
  | none => simp
  | some e => by_cases he : e.nextHop = nextHop <;> simp [he]

theorem mem_affected : d ∈ t.affected nextHop ↔
    ∃ e, t.entries.find d = some e ∧ (d = nextHop ∨ e.nextHop = nextHop) := by
  unfold affected
  simp only [List.mem_map, List.mem_filter, decide_eq_true_eq]
  constructor
  · rintro ⟨⟨d', e⟩, ⟨hmem, h⟩, rfl⟩
    exact ⟨e, StdMap.mem_entries.mp hmem, h⟩
  · rintro ⟨e, he, h⟩
    exact ⟨(d, e), ⟨StdMap.mem_entries.mpr he, h⟩, rfl⟩

theorem affected_nodup : (t.affected nextHop).Nodup :=
  t.entries.keys_nodup.sublist (List.filter_sublist.map _)

end RoutingTable

open RoutingTable (Behind)

/-- The header names the neighbour and the destinations behind it. -/
theorem contains_linkBreakHeader {seqNo : UInt32} :
    (linkBreakHeader nextHop seqNo (t.unreachable nextHop)).contains d = true ↔
      d = nextHop ∨ t.Behind nextHop d := by
  have hfind : (linkBreakHeader nextHop seqNo (t.unreachable nextHop)).find d =
      ((StdMap.empty.insert nextHop seqNo).find d).or ((t.unreachable nextHop).find d) :=
    StdMap.find_foldl_insert
  rw [← RoutingTable.contains_unreachable]
  unfold StdMap.contains
  rw [hfind, StdMap.find_insert]
  by_cases hd : d = nextHop <;> simp [hd]

/-- Its size is the number of these. -/
theorem size_linkBreakHeader (seqNo : UInt32) (hknown : t.entries.find nextHop ≠ none) :
    (linkBreakHeader nextHop seqNo (t.unreachable nextHop)).size = (t.affected nextHop).length := by
  have hmem : ∀ d, d ∈ (linkBreakHeader nextHop seqNo (t.unreachable nextHop)).keys ↔
      d ∈ t.affected nextHop := by
    intro d
    rw [← StdMap.contains_iff_mem_keys, contains_linkBreakHeader, RoutingTable.mem_affected]
    constructor
    · rintro (rfl | ⟨e, he, hhop⟩)
      · obtain ⟨e, he⟩ := Option.ne_none_iff_exists'.mp hknown
        exact ⟨e, he, .inl rfl⟩
      · exact ⟨e, he, .inr hhop⟩
    · rintro ⟨e, he, rfl | hhop⟩
      · exact .inl rfl
      · exact .inr ⟨e, he, hhop⟩
  have hperm := (List.perm_ext_iff_of_nodup (StdMap.keys_nodup _) RoutingTable.affected_nodup).mpr hmem
  have hlen := hperm.length_eq
  unfold StdMap.keys at hlen
  rwa [List.length_map] at hlen

/-- The headers that are built and handed to `SendRerrMessage`, for a table without expired
entries. -/
def rerrHeaders (t : RoutingTable) (nextHop : Ipv4Address) : List RerrHeader :=
  match t.entries.find nextHop with
  | none => []
  | some e =>
    let rerr := linkBreakHeader nextHop e.seqNo (t.unreachable nextHop)
    if destCount rerr = 0 then [] else [rerr]

/-! ## The run -/

theorem sendRerrWhenBreaksLinkToNextHop_unknown
    (hfind : (n.routingTable.purge v.now).entries.find nextHop = none) :
    sendRerrWhenBreaksLinkToNextHop v nextHop n =
      some ((), { n with routingTable := n.routingTable.purge v.now }) := by
  have hlookup : lookupRoute v nextHop n =
      some (none, { n with routingTable := n.routingTable.purge v.now }) := by
    rw [← hfind]
    rfl
  exact bind_run hlookup

/-- A known neighbour: the headers are sent to the precursors of all that is affected, and then
the routes are invalidated. -/
theorem sendRerrWhenBreaksLinkToNextHop_known {e : RoutingTableEntry}
    (ht : n.routingTable.purge v.now = t) (hfind : t.entries.find nextHop = some e) :
    ∃ precursors, (∀ p, p ∈ precursors ↔ ∃ d ∈ t.affected nextHop, ∃ e',
        t.entries.find d = some e' ∧ p ∈ e'.precursors) ∧
      sendRerrWhenBreaksLinkToNextHop v nextHop n =
        (do
          (rerrHeaders t nextHop).forM fun rerr => sendRerrMessage v rerr precursors
          invalidateRoutesWithDst v ((t.unreachable nextHop).insert nextHop e.seqNo))
          { n with routingTable := t } := by
  have hpurged : t.purge v.now = t := by rw [← ht, RoutingTable.purge_purge]
  have hlookup : lookupRoute v nextHop n = some (some e, { n with routingTable := t }) := by
    rw [← hfind, ← ht]
    rfl
  have hlist : getListOfDestinationWithNextHop v nextHop { n with routingTable := t } =
      some (t.unreachable nextHop, { n with routingTable := t }) := by
    show some ((t.purge v.now).unreachable nextHop, { n with routingTable := t.purge v.now }) = _
    rw [hpurged]
  obtain ⟨precursors, hprec, hmem⟩ := precursorsOf_run (n := { n with routingTable := t })
    hpurged (t.unreachable nextHop).keys (e.getPrecursors [])
  refine ⟨precursors, fun p => ?_, ?_⟩
  · rw [hmem, mem_getPrecursors]
    constructor
    · rintro ((h | h) | ⟨d, hd, e', he', hp⟩)
      · exact absurd h List.not_mem_nil
      · exact ⟨nextHop, RoutingTable.mem_affected.mpr ⟨e, hfind, .inl rfl⟩, e, hfind, h⟩
      · obtain ⟨e'', he'', hhop⟩ :=
          RoutingTable.contains_unreachable.mp (StdMap.contains_iff_mem_keys.mpr hd)
        exact ⟨d, RoutingTable.mem_affected.mpr ⟨e'', he'', .inr hhop⟩, e', he', hp⟩
    · rintro ⟨d, hd, e', he', hp⟩
      obtain ⟨e'', he'', rfl | hhop⟩ := RoutingTable.mem_affected.mp hd
      · obtain rfl : e = e' := Option.some.inj (hfind.symm.trans he')
        exact .inl (.inr hp)
      · exact .inr ⟨d, StdMap.contains_iff_mem_keys.mp
          (RoutingTable.contains_unreachable.mpr ⟨e'', he'', hhop⟩), e', he', hp⟩
  · refine (bind_run hlookup).trans ((bind_run hlist).trans ((bind_run hprec).trans ?_))
    unfold rerrHeaders
    rw [hfind]
    dsimp only
    by_cases hnone : destCount (linkBreakHeader nextHop e.seqNo (t.unreachable nextHop)) = 0
    · rw [if_pos hnone, if_pos hnone]
      rfl
    · rw [if_neg hnone, if_neg hnone]
      show Option.bind _ _ = Option.bind (Option.bind _ _) _
      rw [Option.bind_assoc]
      rfl

/-- The table after the last step. -/
theorem find_invalidated (hpurged : t.purge v.now = t) {seqNo : UInt32} :
    (t.invalidateRoutesWithDst v.now ((t.unreachable nextHop).insert nextHop seqNo)).entries.find d =
      (t.entries.find d).map fun e =>
        if (d = nextHop ∨ t.Behind nextHop d) ∧ e.flag = .valid then
          e.invalidate v.now t.badLinkLifetime
        else e := by
  refine (StdMap.find_filterMap _ _ d).trans ?_
  rw [hpurged]
  cases t.entries.find d with
  | none => rfl
  | some e =>
    have hiff : ((t.unreachable nextHop).insert nextHop seqNo).contains d = true ↔
        d = nextHop ∨ t.Behind nextHop d := by
      rw [StdMap.contains_insert, RoutingTable.contains_unreachable]
    rw [Option.bind_some, Option.map_some]
    by_cases h : (d = nextHop ∨ t.Behind nextHop d) ∧ e.flag = .valid
    · rw [if_pos h, if_pos ⟨hiff.mpr h.1, h.2⟩]
    · rw [if_neg h, if_neg fun hc => h ⟨hiff.mp hc.1, hc.2⟩]

/-! ## When the reports are right -/

/-- The break of the link to `nextHop` has been dealt with. Before the call the node has the table
that the first lookup leaves; what it holds is relative to that table. -/
structure BreakHandled (v : Env) (n n' : Node) (nextHop : Ipv4Address) : Prop where
  listed : ∀ d, (n.routingTable.purge v.now).Behind nextHop d →
    ∃ rerr ∈ rerrHeaders (n.routingTable.purge v.now) nextHop, rerr.contains d = true
  fits : ∀ rerr ∈ rerrHeaders (n.routingTable.purge v.now) nextHop, rerr.size ≤ 255
  decodes : ∀ rerr ∈ rerrHeaders (n.routingTable.purge v.now) nextHop, ∃ bytes,
    rerr.serialize = some bytes ∧ Wire.Decodes RerrHeader.deserialize bytes (0, 0, rerr)
  invalidated : ∀ d, (n.routingTable.purge v.now).Behind nextHop d →
    ∀ e, n'.routingTable.entries.find d = some e → ¬ (e.flag = .valid ∧ e.nextHop = nextHop)
  others : ∀ d, ¬ (n.routingTable.purge v.now).Behind nextHop d →
    n'.routingTable.entries.find d = (n.routingTable.purge v.now).entries.find d

/-- What it takes: the table knows the neighbour, unless nothing is behind it; what is affected
fits one header; the neighbour has no valid route around the link; and the precursors can be
reached. -/
structure BreakReportable (v : Env) (n : Node) (t : RoutingTable) (nextHop : Ipv4Address) : Prop where
  known : t.entries.find nextHop = none → ∀ d, ¬ t.Behind nextHop d
  few : t.entries.find nextHop ≠ none → (t.affected nextHop).length ≤ 255
  direct : ∀ e, t.entries.find nextHop = some e → e.flag = .valid → e.nextHop = nextHop
  sockets : t.entries.find nextHop ≠ none → n.rerrCount = v.cfg.rerrRateLimit ∨
    ∀ d ∈ t.affected nextHop, ∀ e, t.entries.find d = some e → ∀ p ∈ e.precursors,
      ∀ r, t.entries.find p = some r → r.flag = .valid → n.HasSocket r.iface

/-- A header with its count in one byte is what the decoder reads. -/
theorem decodes_of_size {rerr : RerrHeader} (h : rerr.size ≤ 255) :
    ∃ bytes, rerr.serialize = some bytes ∧ Wire.Decodes RerrHeader.deserialize bytes (0, 0, rerr) := by
  obtain ⟨bytes, hbytes, hdecodes, -⟩ := RerrHeader.roundTrip h
  exact ⟨bytes, hbytes, hdecodes⟩

/-- With at most 255 affected destinations there is one header. -/
theorem rerrHeaders_few {e : RoutingTableEntry} (hfind : t.entries.find nextHop = some e)
    (hfew : (t.affected nextHop).length ≤ 255) :
    rerrHeaders t nextHop = [linkBreakHeader nextHop e.seqNo (t.unreachable nextHop)] := by
  have hfound : t.entries.find nextHop ≠ none := by
    rw [hfind]
    exact Option.some_ne_none e
  have hsize := size_linkBreakHeader e.seqNo hfound
  have hmem : nextHop ∈ t.affected nextHop := RoutingTable.mem_affected.mpr ⟨e, hfind, .inl rfl⟩
  have hpos := List.length_pos_of_mem hmem
  have hcount : destCount (linkBreakHeader nextHop e.seqNo (t.unreachable nextHop)) ≠ 0 := by
    intro hzero
    have htoNat := destCount_toNat (by omega :
      (linkBreakHeader nextHop e.seqNo (t.unreachable nextHop)).size ≤ 255)
    rw [hzero] at htoNat
    rw [← hsize, ← htoNat] at hpos
    exact absurd hpos (by decide)
  unfold rerrHeaders
  rw [hfind]
  exact if_neg hcount

/-- With more there is no header that lists them and can be decoded. -/
theorem not_few {e : RoutingTableEntry} (hfind : t.entries.find nextHop = some e)
    (hmany : 255 < (t.affected nextHop).length)
    (hlisted : ∀ d, t.Behind nextHop d → ∃ rerr ∈ rerrHeaders t nextHop, rerr.contains d = true)
    (hfits : ∀ rerr ∈ rerrHeaders t nextHop, rerr.size ≤ 255) : False := by
  have hfound : t.entries.find nextHop ≠ none := by
    rw [hfind]
    exact Option.some_ne_none e
  have hsize := size_linkBreakHeader e.seqNo hfound
  -- some other destination is behind the neighbour
  have hother : ∃ d ∈ t.affected nextHop, d ≠ nextHop := by
    by_contra hnone
    have hsub : t.affected nextHop ⊆ [nextHop] := fun d hd =>
      List.mem_singleton.mpr (by_contra fun hne => hnone ⟨d, hd, hne⟩)
    have hle := (RoutingTable.affected_nodup.subperm hsub).length_le
    rw [List.length_singleton] at hle
    omega
  obtain ⟨d, hd, hne⟩ := hother
  obtain ⟨e', he', heq | hhop⟩ := RoutingTable.mem_affected.mp hd
  · exact hne heq
  obtain ⟨rerr, hrerr, -⟩ := hlisted d ⟨e', he', hhop⟩
  have hle := hfits rerr hrerr
  unfold rerrHeaders at hrerr
  rw [hfind] at hrerr
  dsimp only at hrerr
  split at hrerr
  · cases hrerr
  · rw [List.mem_singleton.mp hrerr] at hle
    omega

/-- What the last step does to the routes. -/
theorem invalidate_routes (hpurged : t.purge v.now = t) {e₀ : RoutingTableEntry}
    (hfind : t.entries.find nextHop = some e₀) (seqNo : UInt32) :
    let t' := t.invalidateRoutesWithDst v.now ((t.unreachable nextHop).insert nextHop seqNo)
    (∀ d, t.Behind nextHop d → ∀ e, t'.entries.find d = some e →
      ¬ (e.flag = .valid ∧ e.nextHop = nextHop)) ∧
    ((∀ d, ¬ t.Behind nextHop d → t'.entries.find d = t.entries.find d) ↔
      (e₀.flag = .valid → e₀.nextHop = nextHop)) := by
  intro t'
  have hout : ∀ d, t'.entries.find d = _ := fun d => find_invalidated hpurged
  refine ⟨fun d hd e he hvalid => ?_, fun hothers hvalid => ?_, fun hdirect d hd => ?_⟩
  · rw [hout] at he
    obtain ⟨e', -, rfl⟩ := Option.map_eq_some_iff.mp he
    split at hvalid
    · rw [RoutingTable.flag_invalidate] at hvalid
      cases hvalid.1
    · rename_i h
      exact h ⟨.inr hd, hvalid.1⟩
  · by_contra hhop
    have hsame := hothers nextHop fun ⟨e, he, heq⟩ => hhop (by
      rw [hfind] at he
      cases he
      exact heq)
    rw [hout, hfind, Option.map_some, if_pos ⟨.inl rfl, hvalid⟩] at hsame
    have hflag := congrArg RoutingTableEntry.flag (Option.some.inj hsame)
    rw [RoutingTable.flag_invalidate, hvalid] at hflag
    cases hflag
  · rw [hout]
    cases hd' : t.entries.find d with
    | none => rfl
    | some e =>
      rw [Option.map_some, if_neg]
      rintro ⟨rfl | h, hvalid⟩
      · obtain rfl : e₀ = e := Option.some.inj (hfind.symm.trans hd')
        exact hd ⟨e₀, hfind, hdirect hvalid⟩
      · exact hd h

/-- The call comes to its end with the break dealt with exactly when it is reportable. -/
theorem handlesBreak_iff :
    (∃ n', sendRerrWhenBreaksLinkToNextHop v nextHop n = some ((), n') ∧
      BreakHandled v n n' nextHop) ↔
    BreakReportable v n (n.routingTable.purge v.now) nextHop := by
  generalize ht : n.routingTable.purge v.now = t
  have hpurged : t.purge v.now = t := by rw [← ht, RoutingTable.purge_purge]
  cases hfind : t.entries.find nextHop with
  | none =>
    have hrun := sendRerrWhenBreaksLinkToNextHop_unknown (ht ▸ hfind)
    have hheaders : rerrHeaders t nextHop = [] := by
      unfold rerrHeaders
      rw [hfind]
    constructor
    · rintro ⟨n', -, hlisted, -⟩
      refine ⟨fun _ d hd => ?_, fun h => absurd hfind h, fun e he => ?_, fun h => absurd hfind h⟩
      · obtain ⟨rerr, hrerr, -⟩ := hlisted d (by rwa [ht])
        rw [ht, hheaders] at hrerr
        cases hrerr
      · rw [hfind] at he
        cases he
    · intro h
      have hnone := h.known hfind
      refine ⟨_, hrun, ?_, ?_, ?_, ?_, fun d _ => rfl⟩
      · exact fun d hd => absurd (ht ▸ hd) (hnone d)
      · rw [ht, hheaders]
        exact fun _ hr => absurd hr List.not_mem_nil
      · rw [ht, hheaders]
        exact fun _ hr => absurd hr List.not_mem_nil
      · exact fun d hd => absurd (ht ▸ hd) (hnone d)
  | some e =>
    obtain ⟨precursors, hprec, hrun⟩ := sendRerrWhenBreaksLinkToNextHop_known ht hfind
    have hknown : t.entries.find nextHop ≠ none := by
      rw [hfind]
      exact Option.some_ne_none e
    -- the precursors of all affected destinations are those the headers go to
    have hsockets : CanReport v { n with routingTable := t } precursors ↔
        n.rerrCount = v.cfg.rerrRateLimit ∨ ∀ d ∈ t.affected nextHop, ∀ e,
          t.entries.find d = some e → ∀ p ∈ e.precursors,
            ∀ r, t.entries.find p = some r → r.flag = .valid → n.HasSocket r.iface := by
      refine or_congr Iff.rfl ⟨fun h d hd e he p hp r hr hv => ?_, fun h p hp r hr hv => ?_⟩
      · exact h p ((hprec p).mpr ⟨d, hd, e, he, hp⟩) r hr hv
      · obtain ⟨d, hd, e, he, hp⟩ := (hprec p).mp hp
        exact h d hd e he p hp r hr hv
    have hmessage := sendRerrMessage_run (n := { n with routingTable := t }) hpurged precursors
      (linkBreakHeader nextHop e.seqNo (t.unreachable nextHop))
    obtain ⟨hinvalid, hroutes⟩ := invalidate_routes hpurged hfind e.seqNo
    constructor
    · rintro ⟨n', hn', hlisted, hfits, -, -, hothers⟩
      rw [ht] at hlisted hfits hothers
      have hfew : (t.affected nextHop).length ≤ 255 :=
        not_lt.mp fun hmany => not_few hfind hmany hlisted hfits
      rw [hrun, rerrHeaders_few hfind hfew] at hn'
      obtain ⟨u, n₁, hsend, hinv⟩ := bind_run_inv hn'
      obtain ⟨u', n₂, hsend, hnil⟩ := bind_run_inv hsend
      cases hnil
      dsimp only at hsend
      have hcan := hmessage.2 n₁ hsend
      obtain ⟨n₂, hsend₂, htable⟩ := hmessage.1 hcan
      rw [hsend] at hsend₂
      cases hsend₂
      cases hinv
      dsimp only at hothers
      rw [htable] at hothers
      refine ⟨fun h => absurd h hknown, fun _ => hfew, fun e' he' => ?_, fun _ => hsockets.mp hcan⟩
      obtain rfl : e = e' := Option.some.inj (hfind.symm.trans he')
      exact hroutes.mp hothers
    · intro h
      have hheaders := rerrHeaders_few hfind (h.few hknown)
      have hsize := size_linkBreakHeader e.seqNo hknown
      have hfew := h.few hknown
      obtain ⟨n₁, hsend, htable⟩ := hmessage.1 (hsockets.mpr (h.sockets hknown))
      refine ⟨{ n₁ with
        routingTable := t.invalidateRoutesWithDst v.now
          ((t.unreachable nextHop).insert nextHop e.seqNo) }, ?_, ?_⟩
      · rw [hrun, hheaders]
        refine (bind_run (bind_run hsend)).trans ?_
        show some ((), { n₁ with
          routingTable := n₁.routingTable.invalidateRoutesWithDst v.now _ }) = _
        rw [show n₁.routingTable = t from htable]
      refine ⟨fun d hd => ?_, fun rerr hrerr => ?_, fun rerr hrerr => ?_, ?_, ?_⟩
      · rw [ht] at hd ⊢
        rw [hheaders]
        exact ⟨_, List.mem_singleton_self _, contains_linkBreakHeader.mpr (.inr hd)⟩
      · rw [ht, hheaders] at hrerr
        rw [List.mem_singleton.mp hrerr, hsize]
        exact hfew
      · rw [ht, hheaders] at hrerr
        rw [List.mem_singleton.mp hrerr]
        exact decodes_of_size (by rw [hsize]; exact hfew)
      · rw [ht]
        exact hinvalid
      · rw [ht]
        exact hroutes.mpr (h.direct e hfind)

/-! ## A neighbour with 255 destinations behind it -/

/-- The destinations 10.0.0.1 to 10.0.1.0. -/
def crowdedEntry (i : ℕ) : Ipv4Address × RoutingTableEntry :=
  (UInt32.ofNat (0x0a000001 + i),
    ofRoute 0 (some 0x0a0000ff) (UInt32.ofNat (0x0a000001 + i)) true 1 2 0x0a000001 3000000000)

/-- All of them go through the first. -/
def crowded : Node :=
  { Node.up [] with
    routingTable :=
      { entries :=
          { entries := (List.range 256).map crowdedEntry
            sorted := by
              refine List.pairwise_map.mpr (List.pairwise_lt_range.imp_of_mem ?_)
              intro i j hi hj hij
              rw [List.mem_range] at hi hj
              show UInt32.ofNat _ < UInt32.ofNat _
              rw [UInt32.lt_iff_toNat_lt, UInt32.toNat_ofNat_of_lt' (by show _ < 2 ^ 32; omega),
                UInt32.toNat_ofNat_of_lt' (by show _ < 2 ^ 32; omega)]
              omega }
        badLinkLifetime := 15000000000 } }

theorem crowded_purge : crowded.routingTable.purge 0 = crowded.routingTable := by
  have hentries : (crowded.routingTable.purge 0).entries = crowded.routingTable.entries := by
    ext d : 1
    rw [RoutingTable.find_purge]
    cases hd : crowded.routingTable.entries.find d with
    | none => rfl
    | some e =>
      obtain ⟨i, -, hi⟩ := List.mem_map.mp (StdMap.mem_entries.mpr hd)
      obtain rfl : (crowdedEntry i).2 = e := congrArg Prod.snd hi
      rfl
  exact congrArg (fun es => ({ crowded.routingTable with entries := es } : RoutingTable)) hentries

theorem crowded_affected :
    (crowded.routingTable.affected 0x0a000001).length = 256 := by
  have hall : (crowded.routingTable.entries.entries.filter fun e =>
      e.1 = 0x0a000001 ∨ e.2.nextHop = 0x0a000001) = (List.range 256).map crowdedEntry := by
    refine List.filter_eq_self.mpr fun e he => ?_
    obtain ⟨i, -, rfl⟩ := List.mem_map.mp he
    exact decide_eq_true (.inr rfl)
  unfold RoutingTable.affected
  rw [hall, List.length_map, List.length_map, List.length_range]

/-- The count of the one header is 0, so that it is not even sent. -/
theorem crowded_not_handled :
    ¬ ∃ n', sendRerrWhenBreaksLinkToNextHop ⟨{}, 0⟩ 0x0a000001 crowded = some ((), n') ∧
      BreakHandled ⟨{}, 0⟩ crowded n' 0x0a000001 := by
  rintro ⟨n', -, hlisted, hfits, -⟩
  have hfind : crowded.routingTable.entries.find 0x0a000001 = some (crowdedEntry 0).2 :=
    StdMap.mem_entries.mp (List.mem_map.mpr ⟨0, by simp, rfl⟩)
  rw [show crowded.routingTable.purge (Env.mk {} 0).now = _ from crowded_purge] at hlisted hfits
  exact not_few hfind (by rw [crowded_affected]; decide) hlisted hfits

end Ns3.Aodv
