import Ns3.Aodv.Network

/-!
# AODV sequence numbers are never made up

Every number that a routing table holds as valid for an address, and every
number that a request carries as known or a reply carries, came from the node
with that address, and is at most its number now. The invariant is over all
tables and all frames ever sent; what a single handler does is `NodeSpec`.
-/

namespace Ns3.Aodv

open Ns3.Lib

namespace World

variable {N : Type} (ns : Nodes N)

/-- The number is at most that of the node with the address, if there is one. -/
def Fresh (w : World N) (a : Ipv4Address) (x : UInt32) : Prop :=
  ∀ m, ns.Owns m a → x ≤ (w.node m).seqNo

/-- What the invariant says of a world. -/
structure Authentic (w : World N) : Prop where
  tidy : w.Tidy ns
  table : ∀ m, (w.node m).routingTable.All (Good (w.Fresh ns) fun _ => True)
  sent : ∀ f ∈ w.sent, f.message.Claims (w.Fresh ns)

/-- No number for the address is greater than that of the node with the address: neither one that
is marked as valid in a table, nor one that a request in flight carries as known for its
destination or a reply in flight carries. -/
def NotFabricated (w : World N) : Prop :=
  ∀ owner a, ns.Owns owner a →
    (∀ m e, (w.node m).routingTable.entries.find a = some e → e.validSeqNo = true →
      e.seqNo ≤ (w.node owner).seqNo) ∧
    ∀ f ∈ w.sent,
      (∀ h, f.message = .rreq h → h.dst = a → h.unknownSeqno = false →
        h.dstSeqno ≤ (w.node owner).seqNo) ∧
      ∀ h, f.message = .rrep h → h.dst = a → h.dstSeqno ≤ (w.node owner).seqNo

variable [DecidableEq N]

/-- Numbers start at 0 and grow by one at a time (`Authentic.step_seqNo`): these are the runs in
which no node has increased its own `2 ^ 31` times. -/
abbrev young : System (World N) (Event N) :=
  (system ns).restrict fun w e => ∀ w', w.step ns e = some w' → ∀ m, (w'.node m).seqNo < 2 ^ 31

variable {ns} {w w' : World N} {e : Event N}

/-- The numbers that are known for an address while node `me` has the number `s`. -/
def FreshAt (ns : Nodes N) (w : World N) (me : N) (s : UInt32) (a : Ipv4Address) (x : UInt32) :
    Prop :=
  ∀ m, ns.Owns m a → x ≤ Function.update (fun m => (w.node m).seqNo) me s m

theorem freshAt_self (me : N) : FreshAt ns w me (w.node me).seqNo = w.Fresh ns := by
  funext a x
  unfold FreshAt Fresh
  rw [Function.update_eq_self me fun m => (w.node m).seqNo]

theorem fresh_put {me : N} {n : Node} : (w.put me n).Fresh ns = FreshAt ns w me n.seqNo := by
  funext a x
  unfold FreshAt Fresh
  refine propext (forall_congr' fun m => imp_congr_right fun _ => ?_)
  rcases eq_or_ne m me with rfl | hne
  · rw [node_put_self, Function.update_self]
  · rw [node_put_ne hne, Function.update_of_ne hne]

theorem FreshAt.grow {me : N} {s s' : UInt32} {a : Ipv4Address} {x : UInt32} (hs : s ≤ s')
    (h : FreshAt ns w me s a x) : FreshAt ns w me s' a x := by
  intro m hm
  have hx := h m hm
  rcases eq_or_ne m me with rfl | hne
  · rw [Function.update_self] at hx ⊢
    exact hx.trans hs
  · rw [Function.update_of_ne hne] at hx ⊢
    exact hx

theorem own_freshAt {me : N} : Own (FreshAt ns w me) (ns.ifaces me) := by
  intro s i hi m hm
  obtain rfl : m = me := hm.unique ⟨i, hi, rfl⟩
  rw [Function.update_self]

theorem le_add_one_of_lt {s : UInt32} (h : s < 2 ^ 31) : s ≤ s + 1 := by
  have h' := UInt32.lt_iff_toNat_lt.mp h
  rw [UInt32.le_iff_toNat_le, UInt32.toNat_add]
  have : (2 ^ 31 : UInt32).toNat = 2147483648 := by decide
  have : (1 : UInt32).toNat = 1 := rfl
  omega

/-- After a node's step, too, no number is greater than its owner's. -/
theorem Authentic.put (hw : w.Authentic ns) {me : N} {s : UInt32} {n : Node}
    (hs : (w.node me).seqNo ≤ s)
    (hn : Meets (FreshAt ns w me) (fun _ => True) (fun _ => True) s (ns.ifaces me) n) :
    (w.put me n).Authentic ns := by
  have hgrow : ∀ a x, w.Fresh ns a x → (w.put me n).Fresh ns a x := by
    intro a x hx
    rw [fresh_put, hn.seqNo]
    rw [← freshAt_self me] at hx
    exact hx.grow hs
  have hnow : FreshAt ns w me s = (w.put me n).Fresh ns := by
    rw [fresh_put, hn.seqNo]
  refine ⟨hw.tidy.put hn, fun m => ?_, fun f hf => ?_⟩
  · rcases eq_or_ne m me with rfl | hne
    · rw [node_put_self, ← hnow]
      exact hn.table
    · rw [node_put_ne hne]
      exact fun d e he => ⟨(hw.table m d e he).1, (hw.table m d e he).2.mono hgrow⟩
  · rcases List.mem_append.mp hf with hold | hnew
    · exact (hw.sent f hold).mono hgrow
    · rw [← hnow]
      exact hn.outbox f hnew

theorem Authentic.step (hw : w.Authentic ns) (hyoung : ∀ m, (w.node m).seqNo < 2 ^ 31)
    (h : w.step ns e = some w') : w'.Authentic ns ∧
      ∀ m, (w'.node m).seqNo = (w.node m).seqNo ∨ (w'.node m).seqNo = (w.node m).seqNo + 1 := by
  obtain ⟨t, rfl, rfl⟩ | ⟨me, ev, n, rfl, hocc, hstep, rfl⟩ := step_cases h
  · exact ⟨⟨⟨hw.tidy.ifaces, hw.tidy.outbox, hw.tidy.keyed⟩, hw.table, hw.sent⟩, fun _ => .inl rfl⟩
  have hallows : Allows (FreshAt ns w me) (fun _ => True) ⟨ns.cfg me, w.now⟩ (w.node me).seqNo
      (w.node me) ev := by
    refine ⟨?_, fun _ _ _ _ _ => trivial⟩
    rintro f receiver rfl
    refine ⟨?_, fun _ _ _ _ _ _ => trivial, fun _ _ _ _ _ _ _ => trivial, fun _ _ _ _ => trivial⟩
    rw [freshAt_self _]
    exact hw.sent f hocc.1
  have htable : (w.node me).routingTable.All (Good (FreshAt ns w me (w.node me).seqNo) fun _ => True) := by
    rw [freshAt_self _]
    exact hw.table me
  have hle := le_add_one_of_lt (hyoung me)
  have hzero : ∀ a, FreshAt ns w me (w.node me).seqNo a 0 := fun _ _ _ => UInt32.zero_le
  have hsame : ∀ s, n.seqNo = s → ∀ m, ((w.put me n).node m).seqNo =
      if m = me then s else (w.node m).seqNo := by
    rintro s rfl m
    rcases eq_or_ne m me with rfl | hne
    · rw [node_put_self, if_pos rfl]
    · rw [node_put_ne hne, if_neg hne]
  rcases Node.step_meets ⟨fun _ _ _ => trivial, fun _ _ _ => trivial, fun _ _ => trivial,
    fun _ _ _ => trivial⟩ (fun _ _ _ _ => trivial) (fun a x hx => hx.grow hle) own_freshAt hzero
    (fun _ _ _ => trivial) (hw.tidy.meets htable) hallows hstep with hn | hn
  · refine ⟨hw.put UInt32.le_rfl hn, fun m => .inl ?_⟩
    rw [hsame _ hn.seqNo]
    split
    · rename_i hm
      rw [hm]
    · rfl
  · refine ⟨hw.put hle hn, fun m => ?_⟩
    rw [hsame _ hn.seqNo]
    split
    · rename_i hm
      rw [hm]
      exact .inr rfl
    · exact .inl rfl

omit [DecidableEq N] in
theorem Started.authentic (h : w.Started ns) : w.Authentic ns := by
  refine ⟨h.tidy, fun m => ?_, fun f hf => ?_⟩
  · rw [h.1 m]
    exact startRoutes_all fun _ _ => ⟨fun _ _ _ => UInt32.zero_le, trivial⟩
  · rw [h.2] at hf
    cases hf

/-- In every run in which no node has increased its own number `2 ^ 31` times, no number that a
table or a message in flight passes off as known for an address is greater than the number of the
node with that address. -/
theorem notFabricated_of_reachable (h : (young ns).Reachable w) : w.NotFabricated ns := by
  have hw : w.Authentic ns ∧ ∀ m, (w.node m).seqNo < 2 ^ 31 := by
    refine h.invariant (P := fun w => w.Authentic ns ∧ ∀ m, (w.node m).seqNo < 2 ^ 31) ?_ ?_
    · intro s hs
      refine ⟨hs.authentic, fun m => ?_⟩
      rw [hs.1 m]
      show (0 : UInt32) < 2 ^ 31
      decide
    · intro s e s' hs hstep
      exact ⟨(hs.1.step hs.2 hstep.2).1, hstep.1 s' hstep.2⟩
  intro owner a hown
  refine ⟨fun m e he hv => ?_, fun f hf => ⟨fun hd hm hdst hknown => ?_, fun hd hm hdst => ?_⟩⟩
  · obtain ⟨hdst, hgood⟩ := hw.1.table m a e he
    exact hgood.1 hv owner (hdst ▸ hown)
  · have hc := hw.1.sent f hf
    rw [hm] at hc
    exact hc.2 hknown owner (hdst ▸ hown)
  · have hc := hw.1.sent f hf
    rw [hm] at hc
    exact hc owner (hdst ▸ hown)

/-- `j`, with the address 12, looks for `i`, which hears the request and replies. -/
def sampleSearch {ι : Type} (i j : ι) : List (Event ι) :=
  [.act j (.outbound ⟨1, none⟩ ⟨12, 10, 64⟩ 1),
    .act i (.recv ⟨12, none, 1, .rreq ⟨true, false, true, 0, 1, 10, 0, 12, 1⟩⟩ 10),
    .act j (.recv ⟨10, some 12, 1, .rrep ⟨false, 0, 10, 0, 12, 11200⟩⟩ 12)]

/-- The number that node 0 holds for node 2 after that is node 2's own. -/
theorem notFabricated_sample : ∃ w, (young sampleNodes).Reachable w ∧
    w.NotFabricated sampleNodes ∧ (w.node 2).seqNo = 1 ∧
    ((w.node 0).routingTable.entries.find 12).map (fun e => (e.seqNo, e.flag)) =
      some (1, .valid) ∧
    ((w.node 2).routingTable.entries.find 10).map (fun e => (e.validSeqNo, e.seqNo)) =
      some (true, 0) := by
  have hrun : (System.exec (World.step sampleNodes) (fun w e => (w.step sampleNodes e).all
      fun w' => decide (∀ m, (w'.node m).seqNo < 2 ^ 31)) sampleIdle (sampleSearch 0 2)).map (fun w =>
        ((w.node 2).seqNo,
          ((w.node 0).routingTable.entries.find 12).map (fun e => (e.seqNo, e.flag)),
          ((w.node 2).routingTable.entries.find 10).map (fun e => (e.validSeqNo, e.seqNo)))) =
      some (1, some (1, .valid), some (true, 0)) := by decide +kernel
  obtain ⟨w, hw, hview⟩ := System.reachable_of_exec (S := system sampleNodes) (fun _ _ _ => id)
    sampleIdle_started hrun
  have hyoung : (young sampleNodes).Reachable w := hw.weaken fun w e h w' hstep m => by
    rw [hstep] at h
    exact of_decide_eq_true h m
  obtain ⟨h₁, hrest⟩ := Prod.mk.inj hview
  obtain ⟨h₂, h₃⟩ := Prod.mk.inj hrest
  exact ⟨w, hyoung, notFabricated_of_reachable hyoung, h₁, h₂, h₃⟩

end World

end Ns3.Aodv
