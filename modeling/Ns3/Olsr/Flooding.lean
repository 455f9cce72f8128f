import Mathlib.Data.Finset.Card
import Ns3.Lib.Flooding
import Ns3.Lib.Run
import Ns3.Olsr.Forwarding
import Ns3.Olsr.MprCoverage

/-!
# Flooding through the multipoint relays

A network of nodes with one interface each, whose neighbors hear all that they
send. Messages are originated, sent and read in any order, while the tables of
the nodes change and duplicate tuples expire. The messages of a packet are
taken one by one, with anything between them.
-/

namespace Ns3.Olsr

open Ns3.Lib

/-- Who hears whom, and what a node selects its relays by. -/
structure Topology where
  nodes : List Ipv4Address
  hears : Ipv4Address → Ipv4Address → Bool
  neighbors : Ipv4Address → NeighborSet
  twoHops : Ipv4Address → TwoHopNeighborSet

namespace Topology

variable (T : Topology)

def mprSet (w : Ipv4Address) : MprSet :=
  (mprComputation w (T.neighbors w) (T.twoHops w)).getD ∅

def Hears (w v : Ipv4Address) : Prop := T.hears w v = true

instance : DecidableRel T.Hears := fun w v => inferInstanceAs (Decidable (T.hears w v = true))

def Relays (w v : Ipv4Address) : Prop := v ∈ T.mprSet w

instance : DecidableRel T.Relays := fun w v => inferInstanceAs (Decidable (v ∈ T.mprSet w))

/-- The tables are about those who hear, and a message can go through all nodes. Some willing
neighbor reaches each two-hop neighbor. -/
structure Accurate : Prop where
  small : T.nodes.length < 255
  mem : ∀ w v, T.Hears w v → w ∈ T.nodes ∧ v ∈ T.nodes
  irrefl : ∀ w, ¬ T.Hears w w
  neighbor : ∀ w v, T.Hears w v ↔
    ∃ n ∈ (T.neighbors w).tuples, n.status = .sym ∧ n.neighborMainAddr = v
  sound : ∀ w, ∀ t ∈ (T.twoHops w).tuples, T.Hears t.neighborMainAddr t.twoHopNeighborAddr
  willing : ∀ w u v, T.Hears w u → T.Hears u v → v ≠ w → ¬ T.Hears w v →
    ∃ t ∈ (T.twoHops w).tuples, t.twoHopNeighborAddr = v ∧ ∃ n ∈ (T.neighbors w).tuples,
      n.status = .sym ∧ n.neighborMainAddr = t.neighborMainAddr ∧ n.willingness ≠ willNever

end Topology

/-- `log` has each transmission, with its sender. -/
structure Net where
  nodes : Ipv4Address → Node
  log : List (Ipv4Address × MessageHeader)
  originated : List MessageHeader

namespace Net

inductive Event where
  | originate (m : MessageHeader)
  | send (w : Ipv4Address) (now : Time)
  | dupTupleTimerExpire (v : Ipv4Address) (k : Key) (now : Time)
  | tables (v : Ipv4Address) (links : LinkSet) (mprSelectors : List MprSelectorTuple)
      (ifaceAssocs : List IfaceAssocTuple)

def setNode (net : Net) (v : Ipv4Address) (n : Node) : Net :=
  { net with nodes := Function.update net.nodes v n }

/-- `w` sends `m`, and its neighbors receive it. -/
def broadcast (T : Topology) (net : Net) (w : Ipv4Address) (m : MessageHeader) (now : Time) : Net :=
  { net with
    nodes := fun v => if T.hears w v then (net.nodes v).recvMessage m v w now else net.nodes v
    log := net.log ++ [(w, m)] }

def step (T : Topology) (net : Net) : Event → Option Net
  | .originate m =>
    let n := net.nodes m.originatorAddress
    some { net.setNode m.originatorAddress (n.queueMessage m) with
      originated := net.originated ++ [m] }
  | .send w now =>
    match (net.nodes w).queuedMessages with
    | [] => none
    | m :: rest => some
      ((net.setNode w { net.nodes w with queuedMessages := rest }).broadcast T w m now)
  | .dupTupleTimerExpire v k now =>
    some (net.setNode v ((net.nodes v).dupTupleTimerExpire k now))
  | .tables v links mprSelectors ifaceAssocs =>
    some (net.setNode v { net.nodes v with links, mprSelectors, ifaceAssocs })

/-- Nothing is known of any message. -/
def Fresh (net : Net) : Prop :=
  (∀ v, (net.nodes v).mainAddress = v ∧ (net.nodes v).duplicates = [] ∧
    (net.nodes v).queuedMessages = [] ∧ (net.nodes v).processed = []) ∧
  net.log = [] ∧ net.originated = []

def system (T : Topology) : System Net Event where
  init := Fresh
  step net e net' := net.step T e = some net'

/-- A message starts with a full TTL and a new sequence number. What is sent is received over
symmetric links, by nodes that know whose relays they are. A duplicate tuple is kept while a copy
of its message waits. -/
def Steady (T : Topology) (net : Net) : Event → Prop
  | .originate m => m.originatorAddress ∈ T.nodes ∧ m.timeToLive = 255 ∧ m.isHello = false ∧
      ∀ m' ∈ net.originated, m'.key ≠ m.key
  | .send w now => ∀ v ∈ T.nodes, T.hears w v = true →
      (findSymLinkTuple (net.nodes v).links w now).isSome = true ∧
        (((net.nodes v).findMprSelectorTuple ((net.nodes v).getMainAddress w)).isSome = true ↔
          T.Relays w v)
  | .dupTupleTimerExpire _ k _ => ∀ w ∈ T.nodes, (net.nodes w).queued k = []
  | .tables _ _ _ _ => True

instance (T : Topology) (net : Net) (e : Event) : Decidable (Steady T net e) :=
  match e with
  | .originate _ => inferInstanceAs (Decidable (_ ∧ _))
  | .send _ _ | .dupTupleTimerExpire _ _ _ => List.decidableBAll _ T.nodes
  | .tables _ _ _ _ => inferInstanceAs (Decidable True)

/-- Those who have sent a message, in order. -/
def sent (net : Net) (k : Key) : List Ipv4Address :=
  (net.log.filter fun x => x.2.key = k).map Prod.fst

end Net

/-! ## The relays -/

theorem Topology.Accurate.cover {T : Topology} (h : T.Accurate) :
    Flooding.Cover T.Hears T.Relays := by
  intro w u v hwu huv hvw hnot
  obtain ⟨t, ht, rfl, n, hn, hsym, haddr, hwill⟩ := h.willing w u v hwu huv hvw hnot
  obtain ⟨hwilling, hcovers, -⟩ := covers_beforeGreedy w (T.neighbors w) (T.twoHops w)
  obtain ⟨mprSet, hout, -, hfinal⟩ := Covers.selectGreedy (T.neighbors w) (T.twoHops w) hwilling
    (distinct_symNeighbors (T.neighbors w)) hcovers (Nat.le_refl _)
  have hrecord : t ∈ (T.twoHops w).tuples.filter (isN2 w (symNeighbors (T.neighbors w))) := by
    refine List.mem_filter.mpr ⟨ht, (isN2_iff t).mpr ⟨hvw, ⟨n, ?_, haddr, hwill⟩, fun n' hn' => ?_⟩⟩
    · exact List.mem_filter.mpr ⟨hn, decide_eq_true hsym⟩
    · obtain ⟨hn', hsym'⟩ := List.mem_filter.mp hn'
      rintro heq
      exact hnot ((h.neighbor w _).mpr ⟨n', hn', of_decide_eq_true hsym', heq⟩)
  rcases hfinal.covered t hrecord with hleft | ⟨o, ho, hto, hmpr⟩
  · cases hleft
  obtain ⟨n', hn', haddr', -⟩ := hfinal.relays _ hmpr
  obtain ⟨hn', hsym'⟩ := List.mem_filter.mp hn'
  refine ⟨o.neighborMainAddr, ?_, (h.neighbor w _).mpr ⟨n', hn', of_decide_eq_true hsym', haddr'⟩,
    hto ▸ h.sound w o (List.mem_filter.mp ho).1⟩
  show _ ∈ (mprComputation w (T.neighbors w) (T.twoHops w)).getD ∅
  have hcomp : mprComputation w (T.neighbors w) (T.twoHops w) = some mprSet := hout
  rw [hcomp]
  exact hmpr

/-! ## One message -/

/-- A message as it is passed on: a hop is counted and taken from the TTL. -/
structure Copy (m₀ m : MessageHeader) : Prop where
  eq : m = { m₀ with timeToLive := m.timeToLive, hopCount := m.hopCount }
  hops : m.hopCount + m.timeToLive = m₀.hopCount + m₀.timeToLive

/-- The node has originated the message, or the first one that it hears has selected it. -/
def Called (T : Topology) (origin : Ipv4Address) (sent : List Ipv4Address) (v : Ipv4Address) :
    Prop :=
  v = origin ∨ ∃ w, Flooding.first T.Hears sent v = some w ∧ T.Relays w v

/-- What a node has of a message, after some nodes have sent it. -/
structure Holds (T : Topology) (m₀ : MessageHeader) (sent : List Ipv4Address) (v : Ipv4Address)
    (n : Node) : Prop where
  waiting : Called T m₀.originatorAddress sent v → v ∉ sent →
    ∃ m, n.queued m₀.key = [m] ∧ Copy m₀ m ∧ 255 ≤ m.timeToLive.toNat + sent.length
  idle : ¬ (Called T m₀.originatorAddress sent v ∧ v ∉ sent) → n.queued m₀.key = []
  heard : v ≠ m₀.originatorAddress → (Flooding.first T.Hears sent v).isSome →
    ∃ m, n.read m₀.key = [m] ∧ Copy m₀ m
  unheard : v = m₀.originatorAddress ∨ Flooding.first T.Hears sent v = none →
    n.read m₀.key = []
  unknown : Flooding.first T.Hears sent v = none → n.findDuplicateTuple m₀.key = none

variable {T : Topology} {m₀ m : MessageHeader} {sent : List Ipv4Address} {v w : Ipv4Address}
  {n n' : Node} {origin : Ipv4Address} {now : Time}

theorem Copy.key (h : Copy m₀ m) : m.key = m₀.key := by
  rw [h.eq]
  rfl

theorem Copy.isHello (h : Copy m₀ m) : m.isHello = m₀.isHello := by
  rw [h.eq]
  rfl

theorem Copy.originatorAddress (h : Copy m₀ m) : m.originatorAddress = m₀.originatorAddress := by
  rw [h.eq]

theorem Copy.relay (h : Copy m₀ m) : Copy m₀ m.relay where
  eq := by
    unfold MessageHeader.relay
    rw [h.eq]
  hops := by
    have := h.hops
    show m.hopCount + 1 + (m.timeToLive - 1) = _
    grind

/-- What a node hears first does not change. -/
theorem first_send (h : v = origin ∨ (Flooding.first T.Hears sent v).isSome ∨ ¬ T.Hears w v) :
    (Called T origin (sent ++ [w]) v ↔ Called T origin sent v) ∧
      (v = origin ∨ Flooding.first T.Hears (sent ++ [w]) v = Flooding.first T.Hears sent v) := by
  rcases h with rfl | h
  · exact ⟨⟨fun _ => .inl rfl, fun _ => .inl rfl⟩, .inl rfl⟩
  · have hfirst : Flooding.first T.Hears (sent ++ [w]) v = Flooding.first T.Hears sent v := by
      rw [Flooding.first_append]
      rcases h with h | h
      · obtain ⟨x, hx⟩ := Option.isSome_iff_exists.mp h
        rw [hx, Option.some_or]
      · rw [if_neg h, Option.or_none]
    exact ⟨by unfold Called; rw [hfirst], .inr hfirst⟩

/-- A node that nothing comes to. -/
theorem Holds.other (h : Holds T m₀ sent v n) (hvw : v ≠ w)
    (hfirst : v = m₀.originatorAddress ∨ (Flooding.first T.Hears sent v).isSome ∨ ¬ T.Hears w v) :
    Holds T m₀ (sent ++ [w]) v n := by
  obtain ⟨hcalled, hsame⟩ := first_send hfirst
  have hmem : v ∈ sent ++ [w] ↔ v ∈ sent := by simp [hvw]
  refine ⟨fun hc hv => ?_, fun hc => ?_, fun hv hheard => ?_, fun hv => ?_, fun hnone => ?_⟩
  · obtain ⟨m, hm, hcopy, hle⟩ := h.waiting (hcalled.mp hc) fun hv' => hv (hmem.mpr hv')
    refine ⟨m, hm, hcopy, ?_⟩
    rw [List.length_append]
    omega
  · exact h.idle fun ⟨hc', hv'⟩ => hc ⟨hcalled.mpr hc', fun hv => hv' (hmem.mp hv)⟩
  · rw [hsame.resolve_left hv] at hheard
    exact h.heard hv hheard
  · rcases hsame with horigin | hsame
    · exact h.unheard (.inl horigin)
    · rw [hsame] at hv
      exact h.unheard hv
  · rw [Flooding.first_append, Option.or_eq_none_iff] at hnone
    exact h.unknown hnone.1

/-- The node that has sent its copy. -/
theorem Holds.pop (h : Holds T m₀ sent w n) (hirrefl : ¬ T.Hears w w)
    (hqueued : n'.queued m₀.key = []) (hread : n'.read m₀.key = n.read m₀.key)
    (hdup : n'.findDuplicateTuple m₀.key = n.findDuplicateTuple m₀.key) :
    Holds T m₀ (sent ++ [w]) w n' := by
  have hfirst : Flooding.first T.Hears (sent ++ [w]) w = Flooding.first T.Hears sent w := by
    rw [Flooding.first_append, if_neg hirrefl, Option.or_none]
  refine ⟨fun _ hw => absurd (by simp) hw, fun _ => hqueued, ?_, ?_, ?_⟩
  · rw [hfirst, hread]
    exact h.heard
  · rw [hfirst, hread]
    exact h.unheard
  · rw [hfirst, hdup]
    exact h.unknown

/-- A node that hears its first one. -/
theorem Holds.receive (h : Holds T m₀ sent v n) (hvw : v ≠ w) (hsent : v ∉ sent)
    (horigin : v ≠ m₀.originatorAddress) (hnone : Flooding.first T.Hears sent v = none)
    (hears : T.Hears w v) (hcopy : Copy m₀ m) (hhello : m₀.isHello = false)
    (hmain : n.mainAddress = v) (hlink : (findSymLinkTuple n.links w now).isSome = true)
    (hrelay : (n.findMprSelectorTuple (n.getMainAddress w)).isSome = true ↔ T.Relays w v)
    (hTtl : 255 ≤ m.timeToLive.toNat + sent.length) (hlen : sent.length < 254) :
    Holds T m₀ (sent ++ [w]) v (n.recvMessage m v w now) ∧
      ∃ d, (n.recvMessage m v w now).findDuplicateTuple m₀.key = some d ∧ v ∈ d.ifaceList := by
  have hcalled : ¬ Called T m₀.originatorAddress sent v := by
    rintro (heq | ⟨x, hx, -⟩)
    · exact horigin heq
    · rw [hnone] at hx
      cases hx
  have hfirst : Flooding.first T.Hears (sent ++ [w]) v = some w := by
    rw [Flooding.first_append, hnone, if_pos hears, Option.none_or]
  have hcalled' : Called T m₀.originatorAddress (sent ++ [w]) v ↔ T.Relays w v := by
    unfold Called
    rw [hfirst]
    simp [horigin]
  have hnot : v ∉ sent ++ [w] := by simp [hsent, hvw]
  have hlive : 1 < m.timeToLive := by
    rw [UInt8.lt_iff_toNat_lt]
    show 1 < m.timeToLive.toNat
    omega
  have hrelay' : n.retransmits m w = true ↔ T.Relays w v := by
    unfold Node.retransmits
    rw [Bool.and_eq_true, ← hrelay]
    exact and_iff_right (decide_eq_true hlive)
  have hunknown := h.unknown hnone
  rw [← hcopy.key] at hunknown
  obtain ⟨hdup, hread, hqueued⟩ := @Node.recvMessage_of_unknown n m v w now
    (fun heq => by rw [heq] at hlive; cases hlive)
    (by rw [hcopy.originatorAddress, hmain]; exact Ne.symm horigin)
    (hcopy.isHello.trans hhello) hunknown hlink
  rw [hcopy.key] at hdup hread hqueued
  rw [h.unheard (.inr hnone), List.nil_append] at hread
  rw [h.idle fun hc => hcalled hc.1, List.nil_append] at hqueued
  refine ⟨⟨fun hc _ => ?_, fun hc => ?_, fun _ _ => ⟨m, hread, hcopy⟩, fun hv => ?_,
    fun hv => ?_⟩, hdup⟩
  · rw [if_pos (hrelay'.mpr (hcalled'.mp hc))] at hqueued
    refine ⟨m.relay, hqueued, hcopy.relay, ?_⟩
    have hone : m.relay.timeToLive.toNat = m.timeToLive.toNat - 1 :=
      UInt8.toNat_sub_of_le _ _ (UInt8.le_of_lt hlive)
    rw [hone, List.length_append, List.length_singleton]
    omega
  · rw [hqueued, if_neg fun hr => hc ⟨hcalled'.mpr (hrelay'.mp hr), hnot⟩]
  · rw [hfirst] at hv
    exact hv.elim (fun heq => absurd heq horigin) fun hv => (by cases hv)
  · rw [hfirst] at hv
    cases hv

/-! ## All nodes -/

/-- What the network has of a message that was originated. -/
structure Floods (T : Topology) (net : Net) (m₀ : MessageHeader) : Prop where
  origin : m₀.originatorAddress ∈ T.nodes
  hello : m₀.isHello = false
  nodup : (net.sent m₀.key).Nodup
  called : ∀ v ∈ net.sent m₀.key, Called T m₀.originatorAddress (net.sent m₀.key) v
  holds : ∀ v, Holds T m₀ (net.sent m₀.key) v (net.nodes v)
  known : (∃ w, Called T m₀.originatorAddress (net.sent m₀.key) w ∧ w ∉ net.sent m₀.key) →
    ∀ v, v ≠ m₀.originatorAddress →
      (Flooding.first T.Hears (net.sent m₀.key) v).isSome →
        ∃ d, (net.nodes v).findDuplicateTuple m₀.key = some d ∧ v ∈ d.ifaceList

/-- What it has of any other. -/
def Untouched (net : Net) (k : Key) : Prop :=
  net.sent k = [] ∧ ∀ v, (net.nodes v).queued k = [] ∧ (net.nodes v).read k = [] ∧
    (net.nodes v).findDuplicateTuple k = none

structure Invariant (T : Topology) (net : Net) : Prop where
  main : ∀ v, (net.nodes v).mainAddress = v
  floods : ∀ m₀ ∈ net.originated, Floods T net m₀
  untouched : ∀ k, (∀ m₀ ∈ net.originated, m₀.key ≠ k) → Untouched net k

variable {net net' : Net} {k : Key}

theorem Holds.same (h : Holds T m₀ sent v n) (hsame : Node.Same m₀.key n n') :
    Holds T m₀ sent v n' := by
  obtain ⟨-, hdup, hqueued, hread⟩ := hsame
  refine ⟨?_, ?_, ?_, ?_, ?_⟩
  · rw [hqueued]
    exact h.waiting
  · rw [hqueued]
    exact h.idle
  · rw [hread]
    exact h.heard
  · rw [hread]
    exact h.unheard
  · rw [hdup]
    exact h.unknown

theorem Floods.same (h : Floods T net m₀) (hsent : net'.sent m₀.key = net.sent m₀.key)
    (hsame : ∀ v, Node.Same m₀.key (net.nodes v) (net'.nodes v)) : Floods T net' m₀ := by
  refine ⟨h.origin, h.hello, ?_, ?_, fun v => ?_, ?_⟩
  · rw [hsent]
    exact h.nodup
  · rw [hsent]
    exact h.called
  · rw [hsent]
    exact (h.holds v).same (hsame v)
  · rw [hsent]
    intro hwait v hv hfirst
    rw [(hsame v).2.1]
    exact h.known hwait v hv hfirst

theorem Untouched.same (h : Untouched net k) (hsent : net'.sent k = net.sent k)
    (hsame : ∀ v, Node.Same k (net.nodes v) (net'.nodes v)) : Untouched net' k := by
  refine ⟨hsent.trans h.1, fun v => ?_⟩
  obtain ⟨-, hdup, hqueued, hread⟩ := hsame v
  rw [hdup, hqueued, hread]
  exact h.2 v

/-- A node has a copy to send only of a message that was originated. -/
theorem Invariant.originated (h : Invariant T net) (hm : m ∈ (net.nodes v).queuedMessages) :
    ∃ m₀ ∈ net.originated, m₀.key = m.key := by
  by_contra hnone
  have hmem : m ∈ (net.nodes v).queued m.key := List.mem_filter.mpr ⟨hm, decide_eq_true rfl⟩
  rw [((h.untouched m.key fun m₀ hm₀ heq => hnone ⟨m₀, hm₀, heq⟩).2 v).1] at hmem
  cases hmem

theorem Called.mem (hT : T.Accurate) (horigin : origin ∈ T.nodes)
    (h : Called T origin sent v) : v ∈ T.nodes := by
  rcases h with rfl | ⟨w, hw, -⟩
  · exact horigin
  · exact (hT.mem w v (Flooding.first_eq_some.mp hw).1).2

/-- While a copy waits, not all nodes have sent one. -/
theorem Floods.length_sent (hT : T.Accurate) (h : Floods T net m₀)
    (hw : Called T m₀.originatorAddress (net.sent m₀.key) w) (hnew : w ∉ net.sent m₀.key) :
    (net.sent m₀.key).length < 254 := by
  have hsub : w :: net.sent m₀.key ⊆ T.nodes := by
    intro v hv
    rcases List.mem_cons.mp hv with rfl | hv
    · exact hw.mem hT h.origin
    · exact (h.called v hv).mem hT h.origin
  have hle := ((List.nodup_cons.mpr ⟨hnew, h.nodup⟩).subperm hsub).length_le
  have hsmall := hT.small
  rw [List.length_cons] at hle
  omega

theorem sent_broadcast (net : Net) (m : MessageHeader) (now : Time) (k : Key) :
    (net.broadcast T w m now).sent k = net.sent k ++ if m.key = k then [w] else [] := by
  unfold Net.sent Net.broadcast
  rw [List.filter_append, List.map_append]
  congr 1
  split
  · rename_i heq
    simp [heq]
  · rename_i hne
    simp [hne]

/-- The nodes after a message is sent. -/
theorem nodes_send (hT : T.Accurate) (net : Net) (rest : List MessageHeader) (m : MessageHeader)
    (now : Time) (v : Ipv4Address) :
    ((net.setNode w { net.nodes w with queuedMessages := rest }).broadcast T w m now).nodes v =
      if v = w then { net.nodes w with queuedMessages := rest }
      else if T.Hears w v then (net.nodes v).recvMessage m v w now else net.nodes v := by
  show (if T.Hears w v then _ else _) = _
  unfold Net.setNode
  dsimp only
  by_cases hv : v = w
  · subst hv
    rw [if_neg (hT.irrefl v), if_pos rfl, Function.update_self]
  · rw [if_neg hv, Function.update_of_ne hv]

/-- A node after the message is sent once more. -/
theorem Floods.node_send (hT : T.Accurate) (hmain : ∀ v, (net.nodes v).mainAddress = v)
    (h : Floods T net m₀) (hcalled : Called T m₀.originatorAddress (net.sent m₀.key) w)
    (hnew : w ∉ net.sent m₀.key) (hcopy : Copy m₀ m)
    (hTtl : 255 ≤ m.timeToLive.toNat + (net.sent m₀.key).length) {rest : List MessageHeader}
    (hrest : (rest.filter fun m => m.key = m₀.key) = [])
    (hsteady : Net.Steady T net (.send w now)) (hn : n = if v = w then
      { net.nodes w with queuedMessages := rest }
      else if T.Hears w v then (net.nodes v).recvMessage m v w now else net.nodes v) :
    Holds T m₀ (net.sent m₀.key ++ [w]) v n ∧
      (v ≠ m₀.originatorAddress →
        (Flooding.first T.Hears (net.sent m₀.key ++ [w]) v).isSome →
          ∃ d, n.findDuplicateTuple m₀.key = some d ∧ v ∈ d.ifaceList) := by
  subst hn
  by_cases hvw : v = w
  · subst hvw
    rw [if_pos rfl]
    refine ⟨(h.holds v).pop (hT.irrefl v) hrest rfl rfl, fun hv hfirst => ?_⟩
    rw [Flooding.first_append, if_neg (hT.irrefl v), Option.or_none] at hfirst
    exact h.known ⟨v, hcalled, hnew⟩ v hv hfirst
  rw [if_neg hvw]
  by_cases hears : T.Hears w v
  · rw [if_pos hears]
    obtain ⟨hlink, hrelay⟩ := hsteady v (hT.mem w v hears).2 hears
    by_cases horigin : v = m₀.originatorAddress
    · rw [Node.recvMessage_of_own (by rw [hcopy.originatorAddress, hmain, horigin])]
      exact ⟨(h.holds v).other hvw (.inl horigin), fun hv => absurd horigin hv⟩
    cases hfirst : Flooding.first T.Hears (net.sent m₀.key) v with
    | some x =>
      have hheard : (Flooding.first T.Hears (net.sent m₀.key) v).isSome := by
        rw [hfirst]
        rfl
      obtain ⟨d, hd, hmem⟩ := h.known ⟨w, hcalled, hnew⟩ v horigin hheard
      have hd' := hd
      rw [← hcopy.key] at hd'
      rw [Node.recvMessage_of_known hd' hmem]
      exact ⟨(h.holds v).other hvw (.inr (.inl hheard)), fun _ _ => ⟨d, hd, hmem⟩⟩
    | none =>
      have hsilent : v ∉ net.sent m₀.key := fun hv => by
        rcases h.called v hv with heq | ⟨x, hx, -⟩
        · exact horigin heq
        · rw [hfirst] at hx
          cases hx
      obtain ⟨hholds, hdup⟩ := (h.holds v).receive hvw hsilent horigin hfirst hears hcopy
        h.hello (hmain v) hlink hrelay hTtl (h.length_sent hT hcalled hnew)
      exact ⟨hholds, fun _ _ => hdup⟩
  · rw [if_neg hears]
    refine ⟨(h.holds v).other hvw (.inr (.inr hears)), fun hv hfirst => ?_⟩
    rw [Flooding.first_append, if_neg hears, Option.or_none] at hfirst
    exact h.known ⟨w, hcalled, hnew⟩ v hv hfirst

/-- What a node hears first stays. -/
theorem Called.append (h : Called T origin sent v) (w : Ipv4Address) :
    Called T origin (sent ++ [w]) v := by
  rcases h with heq | ⟨x, hx, hr⟩
  · exact .inl heq
  · exact .inr ⟨x, by rw [Flooding.first_append, hx, Option.some_or], hr⟩

/-- The message is sent once more. -/
theorem Floods.send (hT : T.Accurate) (hmain : ∀ v, (net.nodes v).mainAddress = v)
    (h : Floods T net m₀) (hk : m.key = m₀.key) {rest : List MessageHeader}
    (hqueue : (net.nodes w).queuedMessages = m :: rest)
    (hsteady : Net.Steady T net (.send w now)) :
    Floods T ((net.setNode w { net.nodes w with queuedMessages := rest }).broadcast T w m now)
      m₀ := by
  have hqueued : (net.nodes w).queued m₀.key = m :: rest.filter fun m => m.key = m₀.key := by
    unfold Node.queued
    rw [hqueue]
    exact List.filter_cons_of_pos (decide_eq_true hk)
  -- the copy of this message is the only one
  have hturn : Called T m₀.originatorAddress (net.sent m₀.key) w ∧ w ∉ net.sent m₀.key := by
    by_contra hnot
    rw [(h.holds w).idle hnot] at hqueued
    cases hqueued
  obtain ⟨hcalled, hnew⟩ := hturn
  obtain ⟨m', hm', hcopy, hTtl⟩ := (h.holds w).waiting hcalled hnew
  rw [hqueued] at hm'
  obtain ⟨rfl, hrest⟩ := List.cons.inj hm'
  have hnode := fun v => h.node_send hT hmain hcalled hnew hcopy hTtl hrest hsteady
    (nodes_send hT net rest m now v)
  have hsent : ((net.setNode w { net.nodes w with queuedMessages := rest }).broadcast T w m
      now).sent m₀.key = net.sent m₀.key ++ [w] := by
    rw [sent_broadcast, if_pos hk]
    rfl
  refine ⟨h.origin, h.hello, ?_, ?_, ?_, ?_⟩
  · rw [hsent]
    exact List.nodup_append.mpr ⟨h.nodup, List.nodup_singleton w, fun a ha b hb => by
      rintro rfl
      exact hnew (List.mem_singleton.mp hb ▸ ha)⟩
  · rw [hsent]
    intro v hv
    rcases List.mem_append.mp hv with hv | hv
    · exact (h.called v hv).append w
    · exact List.mem_singleton.mp hv ▸ hcalled.append w
  · rw [hsent]
    exact fun v => (hnode v).1
  · rw [hsent]
    exact fun _ v => (hnode v).2

/-! ## Runs -/

theorem same_setNode (hsame : Node.Same k (net.nodes w) n) (v : Ipv4Address) :
    Node.Same k (net.nodes v) ((net.setNode w n).nodes v) := by
  unfold Net.setNode
  dsimp only
  by_cases hv : v = w
  · subst hv
    rw [Function.update_self]
    exact hsame
  · rw [Function.update_of_ne hv]
    exact .refl k _

theorem Invariant.originate (h : Invariant T net) (hsteady : Net.Steady T net (.originate m)) :
    Invariant T { net.setNode m.originatorAddress
      ((net.nodes m.originatorAddress).queueMessage m) with
        originated := net.originated ++ [m] } := by
  obtain ⟨horigin, hTtl, hhello, hfresh⟩ := hsteady
  have hsame : ∀ k, k ≠ m.key → ∀ v, Node.Same k (net.nodes v) ((net.setNode m.originatorAddress
      ((net.nodes m.originatorAddress).queueMessage m)).nodes v) := by
    intro k hk
    have hnode : Node.Same k (net.nodes m.originatorAddress)
        ((net.nodes m.originatorAddress).queueMessage m) :=
      ⟨rfl, rfl, Node.queued_queueMessage_other (Ne.symm hk), rfl⟩
    exact same_setNode hnode
  have hmain : ∀ v, ((net.setNode m.originatorAddress
      ((net.nodes m.originatorAddress).queueMessage m)).nodes v).mainAddress = v := by
    intro v
    unfold Net.setNode
    dsimp only
    by_cases hv : v = m.originatorAddress
    · subst hv
      rw [Function.update_self]
      exact h.main m.originatorAddress
    · rw [Function.update_of_ne hv]
      exact h.main v
  refine ⟨hmain, fun m₀ hm₀ => ?_, fun k hk => ?_⟩
  · rcases List.mem_append.mp hm₀ with hm₀ | hm₀
    · exact (h.floods m₀ hm₀).same rfl (hsame m₀.key (hfresh m₀ hm₀))
    rw [List.mem_singleton.mp hm₀]
    obtain ⟨hsent, hnodes⟩ := h.untouched m.key hfresh
    have hsent' : ∀ net' : Net, net'.log = net.log → net'.sent m.key = [] := by
      intro net' hlog
      unfold Net.sent
      rw [hlog]
      exact hsent
    have hcalled : ∀ v, Called T m.originatorAddress [] v ↔ v = m.originatorAddress :=
      fun v => or_iff_left fun ⟨w, hw, _⟩ => (by cases hw)
    refine ⟨horigin, hhello, ?_, ?_, fun v => ?_, fun _ v _ hfirst => ?_⟩
    · rw [hsent' _ (by rfl)]
      exact List.nodup_nil
    · rw [hsent' _ (by rfl)]
      exact fun v hv => by cases hv
    · rw [hsent' _ (by rfl)]
      obtain ⟨hqueued, hread, hdup⟩ := hnodes v
      by_cases hv : v = m.originatorAddress
      · subst hv
        show Holds T m [] _ (Function.update net.nodes _ _ _)
        rw [Function.update_self]
        refine ⟨fun _ _ => ⟨m, ?_, ⟨rfl, rfl⟩, ?_⟩, fun hc => absurd ⟨.inl rfl, by simp⟩ hc,
          fun hne => absurd rfl hne, fun _ => hread, fun _ => hdup⟩
        · show (_ ++ [m]).filter _ = _
          rw [List.filter_append]
          show Node.queued _ _ ++ _ = _
          rw [hqueued, List.nil_append]
          exact List.filter_cons_of_pos (decide_eq_true rfl)
        · rw [hTtl]
          decide
      · show Holds T m [] _ (Function.update net.nodes _ _ _)
        rw [Function.update_of_ne hv]
        exact ⟨fun hc => absurd ((hcalled v).mp hc) hv, fun _ => hqueued, fun _ hfirst => (by
          cases hfirst), fun _ => hread, fun _ => hdup⟩
    · rw [hsent' _ (by rfl)] at hfirst
      cases hfirst
  · exact (h.untouched k fun m₀ hm₀ => hk m₀ (List.mem_append_left _ hm₀)).same rfl
      (hsame k (Ne.symm (hk m (List.mem_append_right _ (List.mem_singleton_self m)))))

theorem Invariant.send (hT : T.Accurate) (h : Invariant T net) {rest : List MessageHeader}
    (hqueue : (net.nodes w).queuedMessages = m :: rest)
    (hsteady : Net.Steady T net (.send w now)) :
    Invariant T
      ((net.setNode w { net.nodes w with queuedMessages := rest }).broadcast T w m now) := by
  have hsame : ∀ k, m.key ≠ k → ∀ v, Node.Same k (net.nodes v)
      (((net.setNode w { net.nodes w with queuedMessages := rest }).broadcast T w m
        now).nodes v) := by
    intro k hk v
    rw [nodes_send hT]
    split
    · rename_i hv
      subst hv
      refine ⟨rfl, rfl, ?_, rfl⟩
      unfold Node.queued
      rw [hqueue, List.filter_cons_of_neg (by simpa using hk)]
    split
    · exact Node.same_recvMessage hk
    · exact .refl k _
  have hsent : ∀ k, m.key ≠ k → ((net.setNode w { net.nodes w with
      queuedMessages := rest }).broadcast T w m now).sent k = net.sent k := by
    intro k hk
    rw [sent_broadcast, if_neg hk, List.append_nil]
    rfl
  refine ⟨fun v => ?_, fun m₀ hm₀ => ?_, fun k hk => ?_⟩
  · rw [nodes_send hT]
    split
    · rename_i hv
      exact (h.main w).trans hv.symm
    split
    · rw [Node.mainAddress_recvMessage]
      exact h.main v
    · exact h.main v
  · by_cases hkey : m.key = m₀.key
    · exact (h.floods m₀ hm₀).send hT h.main hkey hqueue hsteady
    · exact (h.floods m₀ hm₀).same (hsent _ hkey) (hsame _ hkey)
  · have hother : m.key ≠ k := by
      obtain ⟨m₀, hm₀, hkey⟩ := h.originated (v := w) (by
        rw [hqueue]
        exact List.mem_cons_self)
      exact hkey ▸ hk m₀ hm₀
    exact (h.untouched k hk).same (hsent k hother) (hsame k hother)

theorem Invariant.dupTupleTimerExpire (hT : T.Accurate) (h : Invariant T net)
    (hsteady : Net.Steady T net (.dupTupleTimerExpire v k now)) :
    Invariant T (net.setNode v ((net.nodes v).dupTupleTimerExpire k now)) := by
  have hother : ∀ k', k' ≠ k → ∀ w, Node.Same k' (net.nodes w)
      ((net.setNode v ((net.nodes v).dupTupleTimerExpire k now)).nodes w) :=
    fun k' hk => same_setNode (Node.same_dupTupleTimerExpire hk)
  have hkeep : ∀ k' w, ((net.setNode v ((net.nodes v).dupTupleTimerExpire k now)).nodes
        w).mainAddress = (net.nodes w).mainAddress ∧
      ((net.setNode v ((net.nodes v).dupTupleTimerExpire k now)).nodes w).queued k' =
        (net.nodes w).queued k' ∧
      ((net.setNode v ((net.nodes v).dupTupleTimerExpire k now)).nodes w).read k' =
        (net.nodes w).read k' ∧
      ((net.nodes w).findDuplicateTuple k' = none →
        ((net.setNode v ((net.nodes v).dupTupleTimerExpire k now)).nodes w).findDuplicateTuple k' =
          none) := by
    intro k' w
    unfold Net.setNode
    dsimp only
    by_cases hw : w = v
    · subst hw
      rw [Function.update_self]
      exact Node.dupTupleTimerExpire_keeps _ _ _ _
    · rw [Function.update_of_ne hw]
      exact ⟨rfl, rfl, rfl, id⟩
  refine ⟨fun w => (hkeep k w).1.trans (h.main w), fun m₀ hm₀ => ?_, fun k' hk' => ?_⟩
  · by_cases hkey : m₀.key = k
    · obtain ⟨horigin, hhello, hnodup, hcalled, hholds, -⟩ := h.floods m₀ hm₀
      refine ⟨horigin, hhello, hnodup, hcalled, fun w => ?_, ?_⟩
      · obtain ⟨-, hqueued, hread, hdup⟩ := hkeep m₀.key w
        obtain ⟨hwaiting, hidle, hheard, hunheard, hunknown⟩ := hholds w
        refine ⟨?_, ?_, ?_, ?_, fun hnone => hdup (hunknown hnone)⟩
        · rw [hqueued]
          exact hwaiting
        · rw [hqueued]
          exact hidle
        · rw [hread]
          exact hheard
        · rw [hread]
          exact hunheard
      · -- no copy of this message waits
        rintro ⟨w, hw, hnew⟩
        obtain ⟨m, hm, -⟩ := (hholds w).waiting hw hnew
        rw [hkey, hsteady w (hw.mem hT horigin)] at hm
        cases hm
    · exact (h.floods m₀ hm₀).same rfl (hother m₀.key hkey)
  · obtain ⟨hsent, hnodes⟩ := h.untouched k' hk'
    refine ⟨hsent, fun w => ?_⟩
    obtain ⟨-, hqueued, hread, hdup⟩ := hkeep k' w
    rw [hqueued, hread]
    exact ⟨(hnodes w).1, (hnodes w).2.1, hdup (hnodes w).2.2⟩

/-- Every step keeps the invariant. -/
theorem Invariant.step (hT : T.Accurate) (h : Invariant T net) {e : Net.Event}
    (hsteady : Net.Steady T net e) (hstep : net.step T e = some net') : Invariant T net' := by
  cases e with
  | originate m =>
    cases hstep
    exact h.originate hsteady
  | send w now =>
    cases hqueue : (net.nodes w).queuedMessages with
    | nil =>
      simp only [Net.step, hqueue] at hstep
      cases hstep
    | cons m rest =>
      simp only [Net.step, hqueue] at hstep
      cases hstep
      exact h.send hT hqueue hsteady
  | dupTupleTimerExpire v k now =>
    cases hstep
    exact h.dupTupleTimerExpire hT hsteady
  | tables v links mprSelectors ifaceAssocs =>
    cases hstep
    have hsame : ∀ k w, Node.Same k (net.nodes w)
        ((net.setNode v { net.nodes v with links, mprSelectors, ifaceAssocs }).nodes w) := by
      intro k
      have hnode : Node.Same k (net.nodes v)
          { net.nodes v with links, mprSelectors, ifaceAssocs } := ⟨rfl, rfl, rfl, rfl⟩
      exact same_setNode hnode
    exact ⟨fun w => (hsame (0, 0) w).1.trans (h.main w),
      fun m₀ hm₀ => (h.floods m₀ hm₀).same rfl (hsame m₀.key),
      fun k hk => (h.untouched k hk).same rfl (hsame k)⟩

theorem Invariant.init (h : (Net.system T).init net) : Invariant T net := by
  obtain ⟨hnodes, hlog, horiginated⟩ := h
  refine ⟨fun v => (hnodes v).1, fun m₀ hm₀ => ?_, fun k _ => ⟨?_, fun v => ?_⟩⟩
  · rw [horiginated] at hm₀
    cases hm₀
  · unfold Net.sent
    rw [hlog]
    rfl
  · obtain ⟨-, hdup, hqueued, hread⟩ := hnodes v
    unfold Node.queued Node.read Node.findDuplicateTuple
    rw [hdup, hqueued, hread]
    exact ⟨rfl, rfl, rfl⟩

def diamondEdges : List (Ipv4Address × Ipv4Address) :=
  [(1, 2), (2, 1), (1, 3), (3, 1), (2, 4), (4, 2), (3, 4), (4, 3), (4, 5), (5, 4)]

/-- The first node has two neighbors, which both reach the fourth, and this alone the fifth. -/
def diamond : Topology where
  nodes := [1, 2, 3, 4, 5]
  hears w v := decide ((w, v) ∈ diamondEdges)
  neighbors w := (diamondEdges.filter fun e => e.1 = w).foldl
    (fun ns e => ns.insertNeighborTuple ⟨e.2, .sym, 3⟩) ⟨[], List.nodup_nil⟩
  twoHops w := ((diamondEdges.filter fun e => e.1 = w).flatMap fun e =>
      diamondEdges.filter fun e' => e'.1 = e.2).foldl
    (fun ts e => ts.addTwoHopNeighborTuple ⟨e.1, e.2, 100⟩) ⟨[], List.nodup_nil⟩

/-- What is computed of each connection holds of it. -/
theorem diamond_all {p : Ipv4Address → Ipv4Address → Bool}
    (hp : (diamondEdges.all fun e => p e.1 e.2) = true) {w v : Ipv4Address}
    (h : diamond.Hears w v) : p w v = true :=
  List.all_eq_true.mp hp (w, v) (of_decide_eq_true h)

/-- What is computed of each node holds of any address, or it has empty tables. -/
theorem diamond_tables {p : Ipv4Address → Bool} (hp : diamond.nodes.all p = true)
    (w : Ipv4Address) :
    p w = true ∨ (diamond.neighbors w).tuples = [] ∧ (diamond.twoHops w).tuples = [] := by
  by_cases hw : w ∈ diamond.nodes
  · exact .inl (List.all_eq_true.mp hp w hw)
  · have hnone : diamondEdges.filter (fun e => e.1 = w) = [] := by
      refine List.filter_eq_nil_iff.mpr fun e he heq => hw ?_
      have hmem := List.all_eq_true.mp (by decide +kernel :
        (diamondEdges.all fun e => decide (e.1 ∈ diamond.nodes)) = true) e he
      exact of_decide_eq_true heq ▸ of_decide_eq_true hmem
    refine .inr ⟨?_, ?_⟩
    · simp [diamond, hnone]
    · simp [diamond, hnone]

theorem diamond_accurate : diamond.Accurate where
  small := by decide +kernel
  mem w v h := of_decide_eq_true (diamond_all (p := fun w v =>
    decide (w ∈ diamond.nodes ∧ v ∈ diamond.nodes)) (by decide +kernel) h)
  irrefl w h := of_decide_eq_true (diamond_all (p := fun w v => decide (w ≠ v))
    (by decide +kernel) h) rfl
  neighbor w v := by
    constructor
    · intro h
      exact of_decide_eq_true (diamond_all (p := fun w v =>
        decide (∃ n ∈ (diamond.neighbors w).tuples, n.status = .sym ∧ n.neighborMainAddr = v))
        (by decide +kernel) h)
    · rintro ⟨n, hn, -, rfl⟩
      rcases diamond_tables (p := fun w => (diamond.neighbors w).tuples.all fun n =>
        diamond.hears w n.neighborMainAddr) (by decide +kernel) w with hall | ⟨hnone, -⟩
      · exact List.all_eq_true.mp hall n hn
      · rw [hnone] at hn
        cases hn
  sound w t ht := by
    rcases diamond_tables (p := fun w => (diamond.twoHops w).tuples.all fun t =>
      diamond.hears t.neighborMainAddr t.twoHopNeighborAddr) (by decide +kernel) w
      with hall | ⟨-, hnone⟩
    · exact List.all_eq_true.mp hall t ht
    · rw [hnone] at ht
      cases ht
  willing w u v hwu huv _ _ := by
    have hall := diamond_all (p := fun w u => diamondEdges.all fun e => decide (u = e.1 →
      ∃ t ∈ (diamond.twoHops w).tuples, t.twoHopNeighborAddr = e.2 ∧
        ∃ n ∈ (diamond.neighbors w).tuples, n.status = .sym ∧
          n.neighborMainAddr = t.neighborMainAddr ∧ n.willingness ≠ willNever))
      (by decide +kernel) hwu
    exact of_decide_eq_true (List.all_eq_true.mp hall (u, v) (of_decide_eq_true huv)) rfl

def diamondNet : Net where
  nodes v :=
    { mainAddress := v
      links := (diamond.nodes.filter fun w => diamond.Hears w v).map fun w => ⟨v, w, 100, 100, 100⟩
      mprSelectors := (diamond.nodes.filter fun w => diamond.Hears w v ∧ diamond.Relays w v).map
        fun w => ⟨w, 100⟩
      ifaceAssocs := []
      duplicates := []
      queuedMessages := []
      processed := [] }
  log := []
  originated := []

end Ns3.Olsr
