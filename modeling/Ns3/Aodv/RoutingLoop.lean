import Ns3.Aodv.Network
import Ns3.Lib.Loops

/-!
# Routing loops in AODV

For each destination the nodes form a graph: a node whose entry for it is valid
points to the next hop. A handler may give a node a next hop that leads back to
it; `Backtracks` says of the state before when it does. In every run in which
it never does the graphs have no cycle (`noLoop_of_reachable`), and a request
that arrives late makes one (`hasLoop`).
-/

namespace Ns3.Aodv

open Ns3.Lib
open Relation

namespace World

variable {N : Type} (ns : Nodes N)

/-- The node's entry for `dst` is valid and its next hop is an address of `b`. -/
def Hop (w : World N) (dst : Ipv4Address) (a b : N) : Prop :=
  ¬ ns.Owns a dst ∧ ∃ e, (w.node a).routingTable.entries.find dst = some e ∧ e.flag = .valid ∧
    ns.Owns b e.nextHop

/-- The graph of valid next hops towards any one destination has no cycle. -/
def NoLoop (w : World N) : Prop := ∀ dst, Acyclic (w.Hop ns dst)

/-- The valid next hops towards `dst` lead from the node with the address `a` to `me`. -/
def Leads (w : World N) (dst a : Ipv4Address) (me : N) : Prop :=
  ∃ b, ns.Owns b a ∧ ReflTransGen (w.Hop ns dst) b me

/-- The entry that a lookup at the node would find now. -/
def entry (w : World N) (me : N) (dst : Ipv4Address) : Option RoutingTableEntry :=
  ((w.node me).routingTable.purge w.now).entries.find dst

/-- The node takes up a message about a destination, other than from this destination itself, by
which its next hop becomes one that leads back to the node: a request that is no duplicate, from a
relay, when the entry for the originator is valid or missing; a reply from a relay, when it is
accepted; an acknowledgement, when the entry for the sender is not valid and goes by a relay. -/
def Backtracks (w : World N) : Event N → Prop
  | .wait _ => False
  | .act me (.recv f _) =>
    match f.message with
    | .rreq h =>
      ((w.node me).rreqIdCache.isDuplicate w.now h.origin h.id).1 = false ∧
        h.origin ≠ f.sender ∧ (∀ e, w.entry me h.origin = some e → e.flag = .valid) ∧
        w.Leads ns h.origin f.sender me
    | .rrep h =>
      h.dst ≠ h.origin ∧ h.dst ≠ f.sender ∧
        Accepts (w.node me) { h with hopCount := h.hopCount + 1 } (w.entry me h.dst) ∧
        w.Leads ns h.dst f.sender me
    | .rrepAck => ∃ e, w.entry me f.sender = some e ∧ e.flag ≠ .valid ∧ e.nextHop ≠ f.sender ∧
        w.Leads ns f.sender e.nextHop me
    | .rerr _ => False
  | .act _ _ => False

variable [DecidableEq N]

/-- The runs in which no step makes a next hop lead back. -/
abbrev careful : System (World N) (Event N) :=
  (system ns).restrict fun w e => ¬ w.Backtracks ns e

variable {ns} {w w' : World N} {e : Event N}

/-! ## What an entry may be made of -/

/-- The valid next hops that node `me` may have after its step: the one it had, the destination
itself, and those that do not lead back. -/
def Sound (ns : Nodes N) (w : World N) (me : N) (e : RoutingTableEntry) : Prop :=
  e.flag = .valid →
    (∃ old, (w.node me).routingTable.entries.find e.dst = some old ∧ old.flag = .valid ∧
      old.nextHop = e.nextHop) ∨ e.nextHop = e.dst ∨ ¬ w.Leads ns e.dst e.nextHop me

omit [DecidableEq N] in
theorem sound_lasting {me : N} : RoutingTable.Lasting (Sound ns w me) where
  lifeTime e l h := h
  precursors e ps h := h
  invalidate e h hv := by cases hv
  settle e h _ := h

omit [DecidableEq N] in
theorem sound_near {me : N} : Near (Sound ns w me) := fun _ hhop _ _ _ => .inr (.inl hhop)

omit [DecidableEq N] in
/-- A node's own entries are sound. -/
theorem Tidy.sound (hw : w.Tidy ns) (me : N) :
    (w.node me).routingTable.All (Good (fun _ _ => True) (Sound ns w me)) := by
  intro d e he
  obtain ⟨hdst, -⟩ := hw.keyed me d e he
  exact ⟨hdst, fun _ => trivial, fun hv => .inl ⟨e, hdst ▸ he, hv, rfl⟩⟩

omit [DecidableEq N] in
/-- A message that does not make the node backtrack makes sound entries only. -/
theorem admits_of_not_backtracks (hw : w.Tidy ns) {me : N} {f : Frame}
    {receiver : Ipv4Address} (h : ¬ w.Backtracks ns (.act me (.recv f receiver))) :
    Admits (fun _ _ _ => True) (Sound ns w me) ⟨ns.cfg me, w.now⟩ (w.node me).seqNo (w.node me) f
      receiver := by
  refine ⟨?_, fun hd hm hdup old hold hfound => ?_, fun hd hm hhello hrelay old hold hacc _ => ?_,
    fun hm e he hgood _ => ?_⟩
  · cases f.message <;> simp [Message.Claims]
  · intro hvalid
    have hhop : (reverseEntry ⟨ns.cfg me, w.now⟩ hd (hd.hopCount + 1) receiver f.sender old).nextHop
        = f.sender := by cases old <;> rfl
    have hdst : (reverseEntry ⟨ns.cfg me, w.now⟩ hd (hd.hopCount + 1) receiver f.sender old).dst =
        hd.origin := by
      cases old with
      | none => rfl
      | some e => exact (hfound e rfl).1
    rw [hhop, hdst]
    rcases eq_or_ne hd.origin f.sender with heq | hne
    · exact .inr (.inl heq.symm)
    · refine .inr (.inr fun hleads => ?_)
      have hold := hold.resolve_right hne
      unfold Backtracks at h
      simp only [hm] at h
      refine h ⟨hdup, hne, fun e he => ?_, hleads⟩
      obtain rfl : old = some e := hold.symm.trans he
      exact hvalid
  · refine .inr (.inr fun hleads => ?_)
    unfold Backtracks at h
    simp only [hm] at h
    have hentry : w.entry me hd.dst = old := hold
    exact h ⟨hhello, hrelay, hentry.symm ▸ hacc, hleads⟩
  · have hdst : e.dst = f.sender :=
      ((hw.keyed me).purge ⟨fun _ _ _ => trivial, fun _ _ _ => trivial, fun _ _ => trivial,
        fun _ _ _ => trivial⟩ _ e he).1
    show _ ∨ e.nextHop = e.dst ∨ ¬ w.Leads ns e.dst e.nextHop me
    by_cases hvalid : e.flag = .valid
    · exact hgood.2 hvalid
    · by_cases hnear : e.nextHop = e.dst
      · exact .inr (.inl hnear)
      · refine .inr (.inr fun hleads => ?_)
        unfold Backtracks at h
        simp only [hm] at h
        rw [hdst] at hnear hleads
        exact h ⟨e, he, hvalid, hnear, hleads⟩

/-- When all entries of a node are sound after its step, the step closes no loop. -/
theorem NoLoop.put (hw : w.NoLoop ns) {me : N} {n : Node} (hn : n.routingTable.All (Sound ns w me)) :
    (w.put me n).NoLoop ns := by
  intro dst
  have hoff : ∀ a b, a ≠ me → ((w.put me n).Hop ns dst a b ↔ w.Hop ns dst a b) := by
    intro a b ha
    unfold Hop
    rw [node_put_ne ha]
  refine ((hw dst).replace_iff hoff).mpr ?_
  rintro b ⟨hme, e, he, hvalid, hb⟩ hback
  rw [node_put_self] at he
  obtain ⟨hdst, hsound⟩ := hn dst e he
  rcases hsound hvalid with ⟨old, hold, hv, hsame⟩ | hnear | hnot
  · refine hw dst me (TransGen.head' ⟨hme, old, hdst ▸ hold, hv, ?_⟩ hback)
    rw [hsame]
    exact hb
  · -- no next hop is asked for at the destination
    rw [hnear, hdst] at hb
    rcases hback.cases_head with rfl | ⟨c, hc, -⟩
    · exact hme hb
    · exact hc.1 hb
  · rw [hdst] at hnot
    exact hnot ⟨b, hb, hback⟩

/-! ## Runs -/

theorem noLoop_step (hw : w.Tidy ns ∧ w.NoLoop ns) (hback : ¬ w.Backtracks ns e)
    (h : w.step ns e = some w') : w'.Tidy ns ∧ w'.NoLoop ns := by
  obtain ⟨t, rfl, rfl⟩ | ⟨me, ev, n, rfl, hocc, hstep, rfl⟩ := step_cases h
  · exact ⟨⟨hw.1.ifaces, hw.1.outbox, hw.1.keyed⟩, hw.2⟩
  have hallows : Allows (fun _ _ _ => True) (Sound ns w me) ⟨ns.cfg me, w.now⟩ (w.node me).seqNo
      (w.node me) ev := by
    refine ⟨?_, fun dst old _ _ _ hv => ?_⟩
    · rintro f receiver rfl
      exact admits_of_not_backtracks hw.1 hback
    · cases old <;> cases hv
  have hput : ∀ s, Meets (fun _ _ _ => True) (Sound ns w me) (fun _ => True) s (ns.ifaces me) n →
      (w.put me n).Tidy ns ∧ (w.put me n).NoLoop ns := fun s hn =>
    ⟨hw.1.put hn, hw.2.put fun d e he => ⟨(hn.table d e he).1, (hn.table d e he).2.2⟩⟩
  rcases Node.step_meets sound_lasting sound_near (fun _ _ h => h) (fun _ _ _ => trivial)
    (fun _ => trivial) (fun _ _ _ => trivial) (hw.1.meets (hw.1.sound me)) hallows hstep with hn | hn
  · exact hput _ hn
  · exact hput _ hn

omit [DecidableEq N] in
/-- The routes of a node that has just come up lead straight to their destinations. -/
theorem Started.noLoop (h : w.Started ns) : w.NoLoop ns := by
  intro dst a ha
  obtain ⟨b, hab, hba⟩ := TransGen.head'_iff.mp ha
  obtain ⟨hnot, e, he, -, hb⟩ := hab
  rw [h.1 a] at he
  have hstart : (startRoutes (ns.ifaces a)).All fun e => e.nextHop = e.dst :=
    startRoutes_all fun _ _ => rfl
  obtain ⟨hdst, hhop⟩ := hstart dst e he
  rw [hhop, hdst] at hb
  rcases hba.cases_head with rfl | ⟨c, hc, -⟩
  · exact hnot hb
  · exact hc.1 hb

/-- While no node takes up a message by which its next hop becomes one that leads back to it, the
graph of valid next hops towards any one destination has no cycle. -/
theorem noLoop_of_reachable (h : (careful ns).Reachable w) : w.NoLoop ns := by
  have hw : w.Tidy ns ∧ w.NoLoop ns := by
    refine h.invariant (P := fun w => w.Tidy ns ∧ w.NoLoop ns) ?_ ?_
    · exact fun s hs => ⟨hs.tidy, hs.noLoop⟩
    · exact fun s e s' hs hstep => noLoop_step hs hstep.1 hstep.2
  exact hw.2

/-! ## A loop -/

/-- A request, reply or acknowledgement that is heard comes from the node it is about. -/
def Direct : Event N → Prop
  | .act _ (.recv f _) =>
    match f.message with
    | .rreq h => h.origin = f.sender
    | .rrep h => h.dst = f.sender
    | .rrepAck => False
    | .rerr _ => True
  | _ => True

instance : DecidablePred (Direct (N := N)) := fun e => by
  unfold Direct
  split
  · split <;> infer_instance
  · infer_instance

omit [DecidableEq N] in
theorem Direct.not_backtracks (h : Direct e) : ¬ w.Backtracks ns e := by
  unfold Direct Backtracks at *
  intro hback
  split at hback
  · exact hback
  · split at hback
    · rename_i hm
      simp only [hm] at h
      exact hback.2.1 h
    · rename_i hm
      simp only [hm] at h
      exact hback.2.1 h
    · rename_i hm
      simp only [hm] at h
    · exact hback
  · exact hback

/-- The flag and the next hop of a node's entry. -/
def route (w : World N) (m : N) (dst : Ipv4Address) : Option (RouteFlags × Ipv4Address) :=
  ((w.node m).routingTable.entries.find dst).map fun e => (e.flag, e.nextHop)

omit [DecidableEq N] in
theorem hop_of_route {a b : N} {dst nextHop : Ipv4Address} (ha : ¬ ns.Owns a dst)
    (hb : ns.Owns b nextHop) (h : w.route a dst = some (.valid, nextHop)) : w.Hop ns dst a b := by
  obtain ⟨e, he, heq⟩ := Option.map_eq_some_iff.mp h
  obtain ⟨hflag, hhop⟩ := Prod.mk.inj heq
  exact ⟨ha, e, he, hflag, hhop ▸ hb⟩

/-- A request of node 0 for the address 20, when it has come some hops. -/
def sampleRreq (hops : UInt8) (id : UInt32) : Message :=
  .rreq ⟨true, false, true, hops, id, 20, 0, 10, id⟩

/-- Node 0 looks for the address 20, and again each time its timer expires. Node 2 hears the second
request and node 1 the third. -/
def sampleRing : List (Event (Fin 3)) :=
  [.act 0 (.outbound ⟨1, none⟩ ⟨10, 20, 64⟩ 1),
    .wait 240000000, .act 0 (.retryExpire 20),
    .act 2 (.recv ⟨10, none, 3, sampleRreq 0 2⟩ 12),
    .wait 400000000, .act 0 (.retryExpire 20),
    .act 1 (.recv ⟨10, none, 5, sampleRreq 0 3⟩ 11)]

/-- Node 2 hears the third request from node 1. -/
def sampleThird : Event (Fin 3) := .act 2 (.recv ⟨11, none, 4, sampleRreq 1 3⟩ 12)

/-- The second request, as node 2 has sent it on, reaches node 1 late. -/
def sampleSecond : Event (Fin 3) := .act 1 (.recv ⟨12, none, 2, sampleRreq 1 2⟩ 11)

/-- Node 2 may route to node 0 through node 1, which routes to node 0 itself. -/
theorem noLoop_sample : ∃ w, (careful sampleNodes).Reachable w ∧ w.NoLoop sampleNodes ∧
    w.Hop sampleNodes 10 2 1 ∧ w.Hop sampleNodes 10 1 0 := by
  have hrun : (System.exec (World.step sampleNodes) (fun _ e => Direct e) sampleIdle
      sampleRing).map (fun w => (w.route 1 10, (w.step sampleNodes sampleThird).map fun w' =>
        (w'.route 2 10, w'.route 1 10))) =
      some (some (.valid, 10), some (some (.valid, 11), some (.valid, 10))) := by decide +kernel
  obtain ⟨w, hw, hview⟩ := System.reachable_of_exec (S := system sampleNodes) (fun _ _ _ => id)
    sampleIdle_started hrun
  obtain ⟨h₁, hstep⟩ := Prod.mk.inj hview
  obtain ⟨w', hstep, hroutes⟩ := Option.map_eq_some_iff.mp hstep
  obtain ⟨h₂, h₁'⟩ := Prod.mk.inj hroutes
  have hcareful : (careful sampleNodes).Reachable w := hw.weaken fun _ _ => Direct.not_backtracks
  -- from node 1 the next hop is node 0 itself
  have hnot : ¬ w.Backtracks sampleNodes sampleThird := by
    rintro ⟨-, -, -, b, hb, hleads⟩
    obtain rfl : b = 1 := hb.unique (by decide)
    rcases hleads.cases_head with heq | ⟨c, ⟨-, e, he, -, hc⟩, hrest⟩
    · exact absurd heq (by decide)
    have he : (w.node 1).routingTable.entries.find 10 = some e := he
    have hroute : w.route 1 10 = some (e.flag, e.nextHop) := by
      unfold route
      rw [he]
      rfl
    obtain ⟨-, hhop⟩ := Prod.mk.inj (Option.some.inj (hroute.symm.trans h₁))
    rw [hhop] at hc
    obtain rfl : c = 0 := hc.unique (by decide)
    rcases hrest.cases_head with heq | ⟨c, ⟨hown, -⟩, -⟩
    · exact absurd heq (by decide)
    · exact hown (by decide)
  have hw' : (careful sampleNodes).Reachable w' := hcareful.run (.snoc (.nil w) ⟨hnot, hstep⟩)
  exact ⟨w', hw', noLoop_of_reachable hw', hop_of_route (by decide) (by decide) h₂,
    hop_of_route (by decide) (by decide) h₁'⟩

/-- A late request makes two nodes route to its originator through each other. -/
theorem hasLoop : ¬ ∀ w, (system sampleNodes).Reachable w → w.NoLoop sampleNodes := by
  intro h
  have hrun : (System.exec (World.step sampleNodes) (fun _ _ => True) sampleIdle
      (sampleRing ++ [sampleThird, sampleSecond])).map (fun w => (w.route 1 10, w.route 2 10)) =
      some (some (.valid, 12), some (.valid, 11)) := by decide +kernel
  obtain ⟨w, hw, hview⟩ := System.reachable_of_exec (S := system sampleNodes) (fun _ _ _ => id)
    sampleIdle_started hrun
  obtain ⟨h₁, h₂⟩ := Prod.mk.inj hview
  refine h w hw.of_restrict 10 1 (TransGen.head (hop_of_route (b := 2) ?_ ?_ h₁)
    (.single (hop_of_route ?_ ?_ h₂)))
  all_goals decide

end World

end Ns3.Aodv
