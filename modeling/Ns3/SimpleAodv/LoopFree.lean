import Ns3.Lib.Loops
import Ns3.Lib.Run
import Ns3.SimpleAodv.Protocol

/-!
# Loops of the flooding routing protocol

The network: any nodes, each at its address, and all packets ever sent, any of
which any node in whatever range may take in at any time, any number of times
or never. When data is made, timers fire and acknowledgements are due is left
open. Nothing in the protocol tells a new packet from an old one, so a node can
be told to route through a node that routes through it; `loopFree_iff` says
that this, and nothing else, closes a loop.
-/

namespace Ns3.SimpleAodv

open Ns3.Lib
open Ns3.Ferry2 (Ipv4Address)
open Relation

structure World where
  now : ℕ
  node : Ipv4Address → Option Node
  /-- Every packet ever sent. -/
  sent : List Frame

inductive Event where
  | wait (t : ℕ)
  | addData (me : Ipv4Address) (key : DataKey)
  | sendRouteRequest (me dst : Ipv4Address) (seqNo : UInt32) (ttl : UInt8)
  | sendAck (me source : Ipv4Address) (seqNo : UInt32)
  | recv (me : Ipv4Address) (f : Frame)

namespace World

/-- A node has handled something: its new state and the packets it sends. -/
def put (w : World) (me : Ipv4Address) (out : Node × List Frame) : World :=
  { w with node := Function.update w.node me (some out.1), sent := w.sent ++ out.2 }

/-- A packet that another node has sent to everyone or to this node. -/
def Hears (w : World) (me : Ipv4Address) (f : Frame) : Prop :=
  f ∈ w.sent ∧ f.sender ≠ me ∧ (f.receiver = none ∨ f.receiver = some me)

instance (w : World) (me : Ipv4Address) (f : Frame) : Decidable (w.Hears me f) :=
  inferInstanceAs (Decidable (_ ∧ _ ∧ _))

def step (w : World) : Event → Option World
  | .wait t => some { w with now := w.now + t }
  | .addData me key => do
    let n ← w.node me
    return w.put me (n.addData key, [])
  | .sendRouteRequest me dst seqNo ttl => do
    let n ← w.node me
    return w.put me (n.sendRouteRequest me w.now dst seqNo ttl)
  | .sendAck me source seqNo => do
    let n ← w.node me
    return w.put me (n, n.sendAck me source seqNo)
  | .recv me f => do
    let n ← w.node me
    if w.Hears me f then return w.put me (n.recvProto me w.now f.sender f.packet) else none

/-- The nodes have just come up; `0.0.0.0` is the address of none. -/
def Started (w : World) : Prop :=
  w.sent = [] ∧ w.node 0 = none ∧ ∀ a n, w.node a = some n → ∃ net, n = .up net

def system : System World Event where
  init := Started
  step w e w' := w.step e = some w'

/-! ## Next hops -/

/-- The next hop a node has stored. -/
def nextHop (w : World) (dst a : Ipv4Address) : Option Ipv4Address := do
  (← w.node a).lookupRoute dst

/-- One hop towards a destination: at the destination there is none to take. -/
def Hop (w : World) (dst a b : Ipv4Address) : Prop := a ≠ dst ∧ w.nextHop dst a = some b

/-- Following the stored next hops towards any destination never visits a node twice. -/
def LoopFree (w : World) : Prop :=
  ∀ dst, ∀ walk : List Ipv4Address, walk.IsChain (w.Hop dst) → walk.Nodup

/-- The next hops from `b` towards `dst` lead to `a`. -/
def Leads (w : World) (dst b a : Ipv4Address) : Prop := ReflTransGen (w.Hop dst) b a

/-- A node takes up a packet from a node that routes through it to the packet's source. -/
def Backtracks (w : World) : Event → Prop
  | .recv me f => (∃ n, w.node me = some n ∧ n.takesUp w.now f.packet = true) ∧
      f.packet.source ≠ me ∧ w.Leads f.packet.source f.sender me
  | _ => False

theorem loopFree_iff_acyclic {w : World} : w.LoopFree ↔ ∀ dst, Acyclic (w.Hop dst) :=
  forall_congr' fun _ => acyclic_iff_nodup.symm

theorem Started.loopFree {w : World} (h : w.Started) : w.LoopFree := by
  refine loopFree_iff_acyclic.mpr fun dst a ha => ?_
  -- a fresh node's one next hop is no node
  have hzero : ∀ b c, w.Hop dst b c → c = 0 ∧ b ≠ 0 := by
    rintro b c ⟨-, hbc⟩
    obtain ⟨n, hn, hc⟩ := Option.bind_eq_some_iff.mp hbc
    obtain ⟨net, rfl⟩ := h.2.2 b n hn
    refine ⟨?_, ?_⟩
    · have hc : (StdMap.empty.insert net (0 : Ipv4Address)).find dst = some c := hc
      rw [StdMap.insert_of_find_none StdMap.find_empty, StdMap.find_assign] at hc
      split_ifs at hc
      · exact (Option.some.inj hc).symm
      · cases hc
    · rintro rfl
      rw [h.2.1] at hn
      cases hn
  obtain ⟨b, hab, -⟩ := TransGen.head'_iff.mp ha
  obtain ⟨c, -, hca⟩ := TransGen.tail'_iff.mp ha
  exact (hzero a b hab).2 (hzero c a hca).1

/-! ## One step -/

theorem nextHop_put {w : World} {me dst a : Ipv4Address} {out : Node × List Frame} :
    (w.put me out).nextHop dst a =
      if a = me then out.1.lookupRoute dst else w.nextHop dst a := by
  unfold nextHop put
  by_cases h : a = me
  · subst h
    simp
  · simp [h]

/-- A node that changes nothing in its table changes no hop. -/
theorem nextHop_put_of_same {w : World} {me dst a : Ipv4Address} {n : Node}
    {out : Node × List Frame} (hn : w.node me = some n)
    (hout : out.1.lookupRoute dst = n.lookupRoute dst) :
    (w.put me out).nextHop dst a = w.nextHop dst a := by
  rw [nextHop_put]
  split_ifs with h
  · subst h
    rw [hout]
    simp [nextHop, hn]
  · rfl

/-- A node takes a packet up: it now routes to the sender and the source through the sender. -/
def Learnt (w w' : World) (me sender source : Ipv4Address) : Prop :=
  ∀ dst a, w'.nextHop dst a =
    if a = me ∧ (dst = sender ∨ dst = source) then some sender else w.nextHop dst a

/-- What a step does to the next hops: nothing, or a node takes up a packet. -/
theorem step_cases {w w' : World} {e : Event} (h : w.step e = some w') :
    (¬ w.Backtracks e ∧ ∀ dst a, w'.nextHop dst a = w.nextHop dst a) ∨
    ∃ me f, e = .recv me f ∧ f.sender ≠ me ∧ Learnt w w' me f.sender f.packet.source ∧
      (w.Backtracks e ↔ f.packet.source ≠ me ∧ w.Leads f.packet.source f.sender me) := by
  cases e with
  | wait t =>
    cases h
    exact .inl ⟨id, fun _ _ => rfl⟩
  | addData me key =>
    obtain ⟨n, hn, hout⟩ := Option.bind_eq_some_iff.mp h
    cases hout
    exact .inl ⟨id, fun dst a => nextHop_put_of_same hn Node.lookupRoute_addData⟩
  | sendRouteRequest me dst seqNo ttl =>
    obtain ⟨n, hn, hout⟩ := Option.bind_eq_some_iff.mp h
    cases hout
    exact .inl ⟨id, fun dst a => nextHop_put_of_same hn rfl⟩
  | sendAck me source seqNo =>
    obtain ⟨n, hn, hout⟩ := Option.bind_eq_some_iff.mp h
    cases hout
    exact .inl ⟨id, fun dst a => nextHop_put_of_same hn rfl⟩
  | recv me f =>
    obtain ⟨n, hn, hout⟩ := Option.bind_eq_some_iff.mp h
    split_ifs at hout with hears
    cases hout
    cases htake : n.takesUp w.now f.packet with
    | false =>
      refine .inl ⟨?_, fun dst a => nextHop_put_of_same hn ?_⟩
      · rintro ⟨⟨n', hn', htake'⟩, -⟩
        cases hn.symm.trans hn'
        rw [htake] at htake'
        cases htake'
      · rw [Node.lookupRoute_recvProto]
        simp only [htake, Bool.false_eq_true, false_and, if_false]
    | true =>
      refine .inr ⟨me, f, rfl, hears.2.1, fun dst a => ?_, ?_⟩
      · rw [nextHop_put]
        by_cases ha : a = me
        · subst ha
          simp only [Node.lookupRoute_recvProto, htake, true_and, nextHop, hn]
          rfl
        · simp only [ha, false_and, if_false]
      · constructor
        · exact fun hb => hb.2
        · exact fun hb => ⟨⟨n, hn, htake⟩, hb⟩

/-- Towards one destination, the node that learns closes a loop exactly when the packet came from
a node that routes through it. -/
theorem Learnt.acyclic_iff {w w' : World} {me sender source dst : Ipv4Address}
    (h : Learnt w w' me sender source) (hne : sender ≠ me) (hw : Acyclic (w.Hop dst)) :
    Acyclic (w'.Hop dst) ↔ ¬ (dst = source ∧ source ≠ me ∧ w.Leads source sender me) := by
  have hoff : ∀ a b, a ≠ me → (w'.Hop dst a b ↔ w.Hop dst a b) := by
    intro a b ha
    unfold Hop
    rw [h dst a, if_neg fun hc => ha hc.1]
  rw [hw.replace_iff hoff]
  have hnew : ∀ b, w'.Hop dst me b ↔ me ≠ dst ∧
      (if dst = sender ∨ dst = source then some sender else w.nextHop dst me) = some b := by
    intro b
    unfold Hop
    rw [h dst me]
    simp only [true_and]
  -- no walk starts at the destination, so a node next to it closes no loop
  have hstuck : ¬ ReflTransGen (w.Hop sender) sender me := by
    intro hs
    rcases hs.cases_head with heq | ⟨c, hc, -⟩
    · exact hne heq
    · exact hc.1 rfl
  constructor
  · rintro hall ⟨rfl, hsrc, hleads⟩
    refine hall sender ((hnew _).mpr ⟨hsrc.symm, ?_⟩) hleads
    rw [if_pos (.inr rfl)]
  · intro hnot b hb hleads
    obtain ⟨hdst, hb⟩ := (hnew b).mp hb
    split_ifs at hb with hcase
    · cases hb
      rcases hcase with rfl | rfl
      · exact hstuck hleads
      · exact hnot ⟨rfl, hdst.symm, hleads⟩
    · exact hw me (TransGen.head' ⟨hdst, hb⟩ hleads)

theorem loopFree_step {w w' : World} {e : Event} (hw : w.LoopFree) (h : w.step e = some w') :
    w'.LoopFree ↔ ¬ w.Backtracks e := by
  rw [loopFree_iff_acyclic] at hw ⊢
  rcases step_cases h with ⟨hback, hsame⟩ | ⟨me, f, rfl, hne, hlearnt, hback⟩
  · have hhop : w'.Hop = w.Hop := by
      funext dst a b
      unfold Hop
      rw [hsame]
    rw [hhop]
    exact ⟨fun _ => hback, fun _ => hw⟩
  · rw [hback]
    constructor
    · intro hall hb
      exact (hlearnt.acyclic_iff hne (hw _)).mp (hall _) ⟨rfl, hb⟩
    · intro hnot dst
      exact (hlearnt.acyclic_iff hne (hw dst)).mpr fun hb => hnot hb.2

/-! ## Runs -/

/-- The runs in which no node takes up a packet from a node that routes through it. -/
abbrev careful : System World Event := system.restrict fun w e => ¬ w.Backtracks e

/-- While no node takes up a packet from a node that routes through it to the packet's source,
following next hops never visits a node twice; the first node that does closes a loop. -/
theorem loopFree_iff {w : World} (h : careful.Reachable w) :
    w.LoopFree ∧ ∀ e w', w.step e = some w' → (w'.LoopFree ↔ ¬ w.Backtracks e) := by
  have hw : w.LoopFree := by
    refine h.invariant (P := LoopFree) (fun _ h₀ => Started.loopFree h₀) ?_
    intro s e s' hs hstep
    exact (loopFree_step hs hstep.2).mpr hstep.1
  exact ⟨hw, fun _ _ hstep => loopFree_step hw hstep⟩

/-! ## A loop -/

/-- A packet heard from its source itself closes no loop. -/
theorem not_backtracks_of_source {w : World} {me : Ipv4Address} {f : Frame}
    (hf : f.sender = f.packet.source) (hne : f.sender ≠ me) : ¬ w.Backtracks (.recv me f) := by
  rintro ⟨-, -, hleads⟩
  rw [← hf] at hleads
  rcases hleads.cases_head with heq | ⟨c, hc, -⟩
  · exact hne heq
  · exact hc.1 rfl

/-- What is heard comes from its source. -/
def Direct : Event → Prop
  | .recv me f => f.sender = f.packet.source ∧ f.sender ≠ me
  | _ => True

instance : DecidablePred Direct := fun e => by
  cases e <;> unfold Direct <;> infer_instance

theorem Direct.not_backtracks {w : World} {e : Event} (h : Direct e) : ¬ w.Backtracks e := by
  cases e with
  | recv me f => exact not_backtracks_of_source h.1 h.2
  | _ => exact id

/-- Three nodes that have just come up in the network `10.0.0.0`. -/
def sampleFlood : World where
  now := 0
  node a := if a = 1 ∨ a = 2 ∨ a = 3 then some (.up 167772160) else none
  sent := []

/-- Node 1 looks for node 9; node 2 takes the first request, and node 3 the second, up from it. -/
def sampleRequests : List Event :=
  [.sendRouteRequest 1 9 0 18,
    .recv 2 ⟨1, none, .routeRequest ⟨1, 9, 0, 18, 0⟩⟩,
    .sendRouteRequest 1 9 1 21,
    .recv 3 ⟨1, none, .routeRequest ⟨1, 9, 1, 21, 1⟩⟩]

/-- Node 2 hears the second request from node 3. -/
def sampleRelayed : Event := .recv 2 ⟨3, none, .routeRequest ⟨1, 9, 1, 20, 1⟩⟩

/-- The first request, as node 2 has sent it on, reaches node 3 late. -/
def sampleLate : Event := .recv 3 ⟨2, none, .routeRequest ⟨1, 9, 0, 17, 0⟩⟩

theorem sampleFlood_started : sampleFlood.Started := by
  refine ⟨rfl, rfl, fun a n h => ?_⟩
  simp only [sampleFlood] at h
  split_ifs at h
  cases h
  exact ⟨_, rfl⟩

/-- Up to the relayed request, and after it, no walk towards node 1 comes back. -/
theorem loopFree_iff_sample : ∃ w w', careful.Reachable w ∧ w.step sampleRelayed = some w' ∧
    w'.nextHop 1 2 = some 3 ∧ w.LoopFree ∧ w'.LoopFree := by
  have hrun : (System.exec World.step (fun _ e => Direct e) sampleFlood sampleRequests).map
      (fun w => (w.nextHop 1 3, (w.step sampleRelayed).map fun w' => w'.nextHop 1 2)) =
      some (some 1, some (some 3)) := by decide +kernel
  obtain ⟨w, hw, hview⟩ := System.reachable_of_exec (S := system) (fun _ _ _ => id)
    sampleFlood_started hrun
  obtain ⟨h₃, hstep⟩ := Prod.mk.inj hview
  obtain ⟨w', hstep, h₂⟩ := Option.map_eq_some_iff.mp hstep
  have hcareful : careful.Reachable w := hw.weaken fun _ _ => Direct.not_backtracks
  refine ⟨w, w', hcareful, hstep, h₂, (loopFree_iff hcareful).1,
    ((loopFree_iff hcareful).2 _ _ hstep).mpr ?_⟩
  -- from node 3 the next hop is node 1 itself
  rintro ⟨-, -, hleads⟩
  rcases hleads.cases_head with heq | ⟨c, ⟨-, hc⟩, hrest⟩
  · exact absurd heq (by decide)
  cases h₃.symm.trans hc
  rcases hrest.cases_head with heq | ⟨c, ⟨hc, -⟩, -⟩
  · exact absurd heq (by decide)
  · exact hc rfl

/-- A late request makes two nodes route through each other. -/
theorem not_loopFree : ¬ ∀ w, system.Reachable w → w.LoopFree := by
  intro h
  have hrun : (System.exec World.step (fun _ _ => True) sampleFlood
      (sampleRequests ++ [sampleRelayed, sampleLate])).map (fun w => (w.nextHop 1 2, w.nextHop 1 3)) =
      some (some 3, some 2) := by decide +kernel
  obtain ⟨w, hw, hview⟩ := System.reachable_of_exec (S := system) (fun _ _ _ => id)
    sampleFlood_started hrun
  obtain ⟨h₂, h₃⟩ := Prod.mk.inj hview
  have hnodup := h w hw.of_restrict 1 [2, 3, 2] <| by
    refine .cons_cons ⟨by decide, h₂⟩ (.cons_cons ⟨by decide, h₃⟩ (.singleton _))
  exact absurd hnodup (by decide)

end World

end Ns3.SimpleAodv
