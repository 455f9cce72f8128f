import Ns3.Aodv.Protocol
import Ns3.Lib.Triple

/-!
# What a handler can do to a node

One rule for each handler, for any property `P` of entries and any relation `K`
that says which sequence numbers may be known for an address by a node with a
given number of its own. All entries of the table are `Good`, all frames sent
carry known numbers only, and a handler keeps both as long as the entries it
makes out of a message or for a search are good: these are the hypotheses of
the rules.
-/

namespace Ns3.Aodv

open Ns3.Lib
open RoutingTable (Lasting)
open RoutingTableEntry (blank ofRoute)

/-- The sequence numbers that a message carries as known. -/
def Message.Claims (K : Ipv4Address → UInt32 → Prop) : Message → Prop
  | .rreq h => K h.origin h.originSeqno ∧ (h.unknownSeqno = false → K h.dst h.dstSeqno)
  | .rrep h => K h.dst h.dstSeqno
  | .rerr _ => True
  | .rrepAck => True

/-- What is claimed stays so when more numbers are known. -/
theorem Message.Claims.mono {K K' : Ipv4Address → UInt32 → Prop} (hK : ∀ a x, K a x → K' a x)
    {m : Message} (h : m.Claims K) : m.Claims K' := by
  cases m with
  | rreq hd => exact ⟨hK _ _ h.1, fun hu => hK _ _ (h.2 hu)⟩
  | rrep hd => exact hK _ _ h
  | rerr hd => trivial
  | rrepAck => trivial

variable {K : UInt32 → Ipv4Address → UInt32 → Prop} {P : RoutingTableEntry → Prop}
  {T : UInt16 → Prop}

/-- An entry's number, if it is marked as valid, is known, and the entry has `P`. -/
def Good (K : Ipv4Address → UInt32 → Prop) (P : RoutingTableEntry → Prop)
    (e : RoutingTableEntry) : Prop :=
  (e.validSeqNo = true → K e.dst e.seqNo) ∧ P e

theorem Good.lasting {K : Ipv4Address → UInt32 → Prop} (hP : Lasting P) : Lasting (Good K P) where
  lifeTime e l h := ⟨h.1, hP.lifeTime e l h.2⟩
  precursors e ps h := ⟨h.1, hP.precursors e ps h.2⟩
  invalidate e h := ⟨h.1, hP.invalidate e h.2⟩
  settle e h hs := ⟨h.1, hP.settle e h.2 hs⟩

theorem Good.mono {K K' : Ipv4Address → UInt32 → Prop} (hK : ∀ a x, K a x → K' a x)
    {e : RoutingTableEntry} (h : Good K P e) : Good K' P e :=
  ⟨fun hv => hK _ _ (h.1 hv), h.2⟩

/-- Every entry that leads straight to its destination has `P`. -/
def Near (P : RoutingTableEntry → Prop) : Prop :=
  ∀ e : RoutingTableEntry, e.nextHop = e.dst → e.flag = .valid → e.reqCount = 0 → P e

/-- A node with number `s` and interfaces `is` whose entries are good and whose frames carry
known numbers. -/
structure Meets (K : UInt32 → Ipv4Address → UInt32 → Prop) (P : RoutingTableEntry → Prop)
    (T : UInt16 → Prop) (s : UInt32) (is : List Iface) (n : Node) : Prop where
  seqNo : n.seqNo = s
  ifaces : n.ifaces = is
  table : n.routingTable.All (Good (K s) P)
  outbox : ∀ f ∈ n.outbox, f.message.Claims (K s)
  timers : ∀ d t b, n.addressReqTimer.find d = some t → t.backoff = some b → T b

/-- The handler keeps `Meets`. -/
abbrev Keeps (K : UInt32 → Ipv4Address → UInt32 → Prop) (P : RoutingTableEntry → Prop)
    (T : UInt16 → Prop) (s : UInt32) (is : List Iface) {α : Type} (m : Handler α) : Prop :=
  Triple (Meets K P T s is) m fun _ => Meets K P T s is

/-- What a lookup has found is good. -/
def Found (K : Ipv4Address → UInt32 → Prop) (P : RoutingTableEntry → Prop) (id : Ipv4Address)
    (r : Option RoutingTableEntry) : Prop :=
  ∀ e, r = some e → e.dst = id ∧ Good K P e

section
variable {s : UInt32} {is : List Iface} {v : Env} {id : Ipv4Address} {α : Type}

/-- A change of the table alone. -/
theorem Meets.setTable {n : Node} (h : Meets K P T s is n) {t : RoutingTable}
    (ht : t.All (Good (K s) P)) : Meets K P T s is { n with routingTable := t } :=
  ⟨h.seqNo, h.ifaces, ht, h.outbox, h.timers⟩

/-- Frames are added to the outbox. -/
theorem Meets.send {n : Node} (h : Meets K P T s is n) {fs : List Frame}
    (hfs : ∀ f ∈ fs, f.message.Claims (K s)) :
    Meets K P T s is { n with outbox := n.outbox ++ fs } :=
  ⟨h.seqNo, h.ifaces, h.table, fun f hf =>
    (List.mem_append.mp hf).elim (h.outbox f) (hfs f), h.timers⟩

theorem Meets.eraseTimer {n : Node} (h : Meets K P T s is n) :
    Meets K P T s is { n with addressReqTimer := n.addressReqTimer.erase id } := by
  refine ⟨h.seqNo, h.ifaces, h.table, h.outbox, fun d t b hd hb => ?_⟩
  have hfind : (n.addressReqTimer.erase id).find d = some t := hd
  rw [StdMap.find_erase] at hfind
  split at hfind
  · cases hfind
  · exact h.timers d t b hfind hb

/-! ## Sending -/

theorem sendTo_keeps {iface receiver : Option Ipv4Address} {ttl : UInt8} {m : Message}
    (hm : m.Claims (K s)) : Keeps K P T s is (sendTo iface receiver ttl m) := by
  unfold sendTo
  refine Triple.bind (Triple.read (Q := fun _ => Meets K P T s is) fun _ h => h) fun n => ?_
  cases iface with
  | none => exact Triple.fail
  | some a =>
    dsimp only
    split
    · refine Triple.write fun n h => h.send ?_
      intro f hf
      rw [List.mem_singleton.mp hf]
      exact hm
    · exact Triple.fail

theorem sendBroadcast_keeps {ttl : UInt8} {m : Iface → Message}
    (hm : ∀ i ∈ is, (m i).Claims (K s)) : Keeps K P T s is (sendBroadcast ttl m) := by
  unfold sendBroadcast
  refine Triple.write fun n h => h.send ?_
  intro f hf
  obtain ⟨i, hi, rfl⟩ := List.mem_map.mp hf
  exact hm i (h.ifaces ▸ hi)

/-! ## The table -/

variable (hP : Lasting P)
include hP

/-- The table after a lookup has been purged, and what is found is in it. -/
theorem lookupRoute_spec {t : RoutingTable} :
    Triple (fun n => Meets K P T s is n ∧ n.routingTable = t) (lookupRoute v id) fun r n =>
      (Meets K P T s is n ∧ n.routingTable = t.purge v.now) ∧
        r = (t.purge v.now).entries.find id ∧ Found (K s) P id r := by
  unfold lookupRoute
  refine Triple.bind (Triple.read (Q := fun a n => (Meets K P T s is n ∧ n.routingTable = t) ∧ a = n)
    fun n h => ⟨h, rfl⟩) fun n => ?_
  refine Triple.bind (Triple.write (Q := fun _ n' => (Meets K P T s is n' ∧
    n'.routingTable = t.purge v.now) ∧ Found (K s) P id ((t.purge v.now).entries.find id) ∧
      n.routingTable = t) ?_) fun _ => Triple.ret ?_
  · rintro n' ⟨⟨h, ht⟩, rfl⟩
    have hall : (t.purge v.now).All (Good (K s) P) := (ht ▸ h.table).purge (Good.lasting hP)
    refine ⟨⟨?_, ?_⟩, ?_, ht⟩
    · rw [ht]
      exact h.setTable hall
    · rw [ht]
      rfl
    · exact fun e he => hall id e he
  · rintro n' ⟨h, hfound, ht⟩
    refine ⟨h, ?_, ?_⟩
    · rw [ht]
      rfl
    · rw [ht]
      exact hfound

/-- Nothing but the table is changed by a lookup. -/
theorem lookupRoute_at {n₀ : Node} : Triple (fun n => Meets K P T s is n ∧ n = n₀)
    (lookupRoute v id) fun r n =>
      (Meets K P T s is n ∧ n = { n₀ with routingTable := n₀.routingTable.purge v.now }) ∧
        (n₀.routingTable.purge v.now).entries.find id = r ∧ Found (K s) P id r := by
  rintro n r n' ⟨h, rfl⟩ hrun
  obtain ⟨⟨hn', -⟩, hr, hfound⟩ := lookupRoute_spec hP n r n' ⟨h, rfl⟩ hrun
  cases hrun
  exact ⟨⟨hn', rfl⟩, hr.symm, hfound⟩

theorem lookupRoute_keeps : Triple (Meets K P T s is) (lookupRoute v id) fun r n =>
    Meets K P T s is n ∧ Found (K s) P id r := by
  intro n r n' h hrun
  obtain ⟨⟨hn, -⟩, -, hfound⟩ := lookupRoute_spec hP n r n' ⟨h, rfl⟩ hrun
  exact ⟨hn, hfound⟩

theorem addRoute_keeps {rt : RoutingTableEntry} (hrt : Good (K s) P rt.settle) :
    Keeps K P T s is (addRoute v rt) :=
  Triple.write fun _ h => h.setTable (h.table.addRoute (Good.lasting hP) hrt)

omit hP in
theorem update_keeps {rt : RoutingTableEntry} (hrt : Good (K s) P rt.settle) :
    Keeps K P T s is (update rt) :=
  Triple.write fun _ h => h.setTable (h.table.update hrt)

theorem putRoute_keeps {old : Option RoutingTableEntry} {rt : RoutingTableEntry}
    (hrt : Good (K s) P rt.settle) : Keeps K P T s is (putRoute v old rt) := by
  unfold putRoute
  split
  · exact update_keeps hrt
  · exact addRoute_keeps hP hrt

theorem deleteRoute_keeps : Keeps K P T s is (deleteRoute v id) :=
  Triple.write fun _ h => h.setTable (h.table.deleteRoute (Good.lasting hP))

theorem invalidateRoutesWithDst_keeps {unreachable : RerrHeader} :
    Keeps K P T s is (invalidateRoutesWithDst v unreachable) :=
  Triple.write fun _ h => h.setTable (h.table.invalidateRoutesWithDst (Good.lasting hP))

/-! ## Route errors and neighbours -/

theorem getListOfDestinationWithNextHop_keeps :
    Keeps K P T s is (getListOfDestinationWithNextHop v id) := by
  unfold getListOfDestinationWithNextHop
  refine Triple.bind (Triple.read (Q := fun a n => Meets K P T s is n ∧ a = n)
    fun n h => ⟨h, rfl⟩) fun n => ?_
  refine Triple.bind (Triple.write (Q := fun _ => Meets K P T s is) ?_) fun _ => Triple.ret fun _ h => h
  rintro n' ⟨h, rfl⟩
  exact h.setTable (h.table.purge (Good.lasting hP))

theorem precursorsOf_keeps {dsts prec : List Ipv4Address} :
    Keeps K P T s is (precursorsOf v dsts prec) := by
  refine Triple.foldlM (fun prec dst => ?_) dsts prec
  exact Triple.bind (lookupRoute_keeps hP) fun _ => Triple.ret fun _ h => h.1

theorem ifacesOf_keeps {precursors : List Ipv4Address} :
    Keeps K P T s is (ifacesOf v precursors) := by
  refine Triple.foldlM (fun ifaces p => ?_) precursors []
  refine Triple.bind (lookupRoute_keeps hP) fun r => ?_
  cases r with
  | none => exact Triple.ret fun _ h => h.1
  | some rt => exact Triple.ret fun _ h => h.1

theorem sendRerrMessage_keeps {rerr : RerrHeader} {precursors : List Ipv4Address} :
    Keeps K P T s is (sendRerrMessage v rerr precursors) := by
  unfold sendRerrMessage
  refine Triple.bind (Triple.read (Q := fun _ => Meets K P T s is) fun _ h => h) fun n => ?_
  split
  · exact Triple.ret fun _ h => h
  · split
    · refine Triple.bind (lookupRoute_keeps hP) fun r => Triple.assume fun _ => ?_
      cases r with
      | none => exact Triple.ret fun _ h => h
      | some rt =>
        dsimp only
        split
        · refine Triple.bind (sendTo_keeps trivial) fun _ => Triple.write fun n h => ?_
          exact ⟨h.seqNo, h.ifaces, h.table, h.outbox, h.timers⟩
        · exact Triple.ret fun _ h => h
    · refine Triple.bind (ifacesOf_keeps hP) fun ifaces => ?_
      refine Triple.forM (fun i => ?_) ifaces
      exact sendTo_keeps (m := .rerr rerr) trivial

theorem sendRerrWhenBreaksLinkToNextHop_keeps :
    Keeps K P T s is (sendRerrWhenBreaksLinkToNextHop v id) := by
  unfold sendRerrWhenBreaksLinkToNextHop
  refine Triple.bind (lookupRoute_keeps hP) fun r => Triple.assume fun _ => ?_
  cases r with
  | none => exact Triple.ret fun _ h => h
  | some toNextHop =>
    refine Triple.bind (getListOfDestinationWithNextHop_keeps hP) fun unreachable => ?_
    refine Triple.bind (precursorsOf_keeps hP) fun precursors => ?_
    refine Triple.bind (R := fun _ => Meets K P T s is) ?_ fun _ => invalidateRoutesWithDst_keeps hP
    split
    · exact Triple.ret fun _ h => h
    · exact sendRerrMessage_keeps hP

theorem sendRerrWhenNoRouteToForward_keeps {dst origin : Ipv4Address} {dstSeqNo : UInt32} :
    Keeps K P T s is (sendRerrWhenNoRouteToForward v dst dstSeqNo origin) := by
  unfold sendRerrWhenNoRouteToForward
  refine Triple.bind (Triple.read (Q := fun _ => Meets K P T s is) fun _ h => h) fun n => ?_
  split
  · exact Triple.ret fun _ h => h
  · refine Triple.bind (lookupRoute_keeps hP) fun r => Triple.assume fun _ => ?_
    cases r with
    | none => exact sendBroadcast_keeps fun _ _ => trivial
    | some toOrigin =>
      dsimp only
      split
      · exact sendTo_keeps trivial
      · exact sendBroadcast_keeps fun _ _ => trivial

omit hP in
/-- A change of the neighbours alone. -/
theorem Meets.setNeighbors {n : Node} (h : Meets K P T s is n) (nb : List Neighbor) :
    Meets K P T s is { n with nb := nb } := ⟨h.seqNo, h.ifaces, h.table, h.outbox, h.timers⟩

theorem nbPurge_keeps : Keeps K P T s is (nbPurge v) := by
  unfold nbPurge
  refine Triple.bind (Triple.read (Q := fun _ => Meets K P T s is) fun _ h => h) fun n => ?_
  refine Triple.bind (Triple.forM (fun nb => sendRerrWhenBreaksLinkToNextHop_keeps hP) _) fun _ => ?_
  exact Triple.write fun _ h => h.setNeighbors _

theorem nbUpdate_keeps {expire : ℤ} : Keeps K P T s is (nbUpdate v id expire) := by
  unfold nbUpdate
  refine Triple.bind (Triple.read (Q := fun _ => Meets K P T s is) fun _ h => h) fun n => ?_
  split
  · exact Triple.write fun _ h => h.setNeighbors _
  · exact Triple.bind (Triple.write fun _ h => h.setNeighbors _) fun _ => nbPurge_keeps hP

theorem processTxError_keeps {addrs : List Ipv4Address} : Keeps K P T s is (processTxError v addrs) :=
  Triple.bind (Triple.write fun _ h => h.setNeighbors _) fun _ => nbPurge_keeps hP

theorem recvError_keeps {h : RerrHeader} {src : Ipv4Address} :
    Keeps K P T s is (recvError v h src) := by
  unfold recvError
  refine Triple.bind (getListOfDestinationWithNextHop_keeps hP) fun list => ?_
  refine Triple.bind (precursorsOf_keeps hP) fun precursors => ?_
  refine Triple.bind (R := fun _ => Meets K P T s is) ?_ fun _ => invalidateRoutesWithDst_keeps hP
  split
  · exact Triple.ret fun _ h => h
  · exact sendRerrMessage_keeps hP

/-! ## Lifetimes and neighbour entries -/

theorem updateRouteLifeTime_keeps {lifetime : ℤ} :
    Keeps K P T s is (updateRouteLifeTime v id lifetime) := by
  unfold updateRouteLifeTime
  refine Triple.bind (lookupRoute_keeps hP) fun r => Triple.assume fun hr => ?_
  cases r with
  | none => exact Triple.ret fun _ h => h
  | some rt =>
    dsimp only
    split
    · rename_i hvalid
      refine update_keeps ?_
      have hgood := (hr rt rfl).2
      have hL := Good.lasting (K := K s) hP
      refine hL.settled (hL.lifeTime { rt with reqCount := 0 } _ (hL.settle rt hgood ?_))
      rw [hvalid]
      decide
    · exact Triple.ret fun _ h => h

omit hP in
/-- An entry without a known number that leads straight to its destination is good. -/
theorem Near.good {K : Ipv4Address → UInt32 → Prop} (hnear : Near P) {e : RoutingTableEntry}
    (hhop : e.nextHop = e.dst) (hflag : e.flag = .valid) (hcount : e.reqCount = 0)
    (hseq : e.validSeqNo = false) : Good K P e := by
  refine ⟨fun h => ?_, hnear e hhop hflag hcount⟩
  rw [hseq] at h
  cases h

omit hP in
@[simp] theorem settle_of_valid {e : RoutingTableEntry} (h : e.flag = .valid) :
    e.settle = { e with reqCount := 0 } := by
  unfold RoutingTableEntry.settle
  rw [h]
  rfl

theorem updateRouteToNeighbor_keeps (hnear : Near P) {sender receiver : Ipv4Address} :
    Keeps K P T s is (updateRouteToNeighbor v sender receiver) := by
  unfold updateRouteToNeighbor
  refine Triple.bind (lookupRoute_keeps hP) fun r => Triple.assume fun _ => ?_
  cases r with
  | none => exact addRoute_keeps hP (hnear.good rfl rfl rfl rfl)
  | some toNeighbor =>
    dsimp only
    split
    · exact Triple.ret fun _ h => h
    · exact update_keeps (hnear.good rfl rfl rfl rfl)

omit hP in
/-- A variable that holds an entry that was found, or else the blank one. -/
theorem Found.getD_blank {K : Ipv4Address → UInt32 → Prop} (hnear : Near P)
    {r : Option RoutingTableEntry} (h : Found K P id r) : Good K P (r.getD (blank v.now)) := by
  cases r with
  | none => exact hnear.good rfl rfl rfl rfl
  | some e => exact (h e rfl).2

theorem Good.inserted {K : Ipv4Address → UInt32 → Prop} {e : RoutingTableEntry}
    (h : Good K P e) (p : Ipv4Address) : Good K P (e.insertPrecursor p).settle :=
  (Good.lasting hP).settled ((Good.lasting hP).insertPrecursor h)

/-! ## Sending a request -/

/-- After a handler the node's number is what it was or one more. -/
def After (K : UInt32 → Ipv4Address → UInt32 → Prop) (P : RoutingTableEntry → Prop)
    (T : UInt16 → Prop) (s : UInt32) (is : List Iface) (n : Node) : Prop :=
  Meets K P T s is n ∨ Meets K P T (s + 1) is n

omit hP in
/-- What is known stays known when the node's number grows. -/
theorem Meets.grow {n : Node} (h : Meets K P T s is n) (hgrow : ∀ a x, K s a x → K (s + 1) a x) :
    Meets K P T (s + 1) is { n with seqNo := n.seqNo + 1 } where
  seqNo := congrArg (· + 1) h.seqNo
  ifaces := h.ifaces
  table d e he := ⟨(h.table d e he).1, (h.table d e he).2.mono hgrow⟩
  outbox f hf := (h.outbox f hf).mono hgrow
  timers := h.timers

/-- The numbers known for the node's own addresses: its own. -/
def Own (K : UInt32 → Ipv4Address → UInt32 → Prop) (is : List Iface) : Prop :=
  ∀ s, ∀ i ∈ is, K s i.addr s

/-- The shifts that the counts of entries with `P` give rise to. -/
def Shifts (P : RoutingTableEntry → Prop) (T : UInt16 → Prop) : Prop :=
  ∀ e, P e → e.reqCount ≠ 0 → T (e.reqCount.toUInt16 - 1)

theorem scheduleRreqRetry_keeps (hshift : Shifts P T) :
    Keeps K P T s is (scheduleRreqRetry v id) := by
  unfold scheduleRreqRetry
  refine Triple.bind (lookupRoute_keeps hP) fun r => Triple.assume fun hr => ?_
  dsimp only
  split
  · exact Triple.fail
  rename_i hok
  refine Triple.write fun n h => ⟨h.seqNo, h.ifaces, h.table, h.outbox, fun d t b hd hb => ?_⟩
  have hfind : (n.addressReqTimer.assign id (retryTimer v (r.getD (blank v.now)))).find d =
      some t := hd
  rw [StdMap.find_assign] at hfind
  split at hfind
  · cases hfind
    unfold retryTimer at hb
    split at hb
    · cases hb
    · rename_i hfull
      have hcount : (r.getD (blank v.now)).reqCount ≠ 0 := fun hzero => hok ⟨hfull, hzero⟩
      cases hb
      cases r with
      | none => exact absurd rfl hcount
      | some e => exact hshift e (hr e rfl).2.2 hcount
  · exact h.timers d t b hfind hb

/-- The entry that a request leaves for its destination is good. -/
theorem sendRequest_spec {dst : Ipv4Address} {t : RoutingTable} {c : UInt16}
    (hgrow : ∀ a x, K s a x → K (s + 1) a x) (hown : Own K is) (hshift : Shifts P T)
    (hsearch : c ≠ v.cfg.rreqRateLimit → ∀ old, (t.purge v.now).entries.find dst = old →
      Found (K s) P dst old → P (searchEntry v dst old)) :
    Triple (fun n => Meets K P T s is n ∧ n.routingTable = t ∧ n.rreqCount = c)
      (sendRequest v dst) fun _ => After K P T s is := by
  unfold sendRequest
  refine Triple.bind (Triple.read (Q := fun a n => (Meets K P T s is n ∧ n.routingTable = t) ∧
    a.rreqCount = c) fun _ h => ⟨⟨h.1, h.2.1⟩, h.2.2⟩) fun n => Triple.assume fun hc => ?_
  split
  · exact Triple.write fun n h => .inl ⟨h.1.seqNo, h.1.ifaces, h.1.table, h.1.outbox, h.1.timers⟩
  rename_i hlimit
  have hsearch := hsearch (hc ▸ hlimit)
  refine Triple.bind (Triple.write (Q := fun _ n => Meets K P T s is n ∧ n.routingTable = t)
    fun n h => ⟨⟨h.1.seqNo, h.1.ifaces, h.1.table, h.1.outbox, h.1.timers⟩, h.2⟩) fun _ => ?_
  refine Triple.bind (lookupRoute_spec hP) fun old => Triple.assume fun ⟨hold, hfound⟩ => ?_
  have hentry : Good (K s) P (searchEntry v dst old) := by
    refine ⟨?_, hsearch old hold.symm hfound⟩
    cases old with
    | none => exact fun h => by cases h
    | some e => exact (hfound e rfl).2.1
  have hput : Triple (Meets K P T s is) (putRoute v old (searchEntry v dst old))
      fun _ => Meets K P T s is := putRoute_keeps hP hentry
  refine Triple.bind (hput.weaken (fun _ h => h.1) fun _ _ h => h) fun _ => ?_
  refine Triple.bind (Triple.write (Q := fun _ => Meets K P T (s + 1) is) fun n h => ?_) fun _ => ?_
  · have h' := h.grow hgrow
    exact ⟨h'.seqNo, h'.ifaces, h'.table, h'.outbox, h'.timers⟩
  refine Triple.bind (Triple.write (Q := fun _ => Meets K P T (s + 1) is)
    fun n h => ⟨h.seqNo, h.ifaces, h.table, h.outbox, h.timers⟩) fun _ => ?_
  refine Triple.bind (Triple.read (Q := fun a n => Meets K P T (s + 1) is n ∧ a.seqNo = s + 1)
    fun n h => ⟨h, h.seqNo⟩) fun n => Triple.assume fun hn => ?_
  refine Triple.bind (sendBroadcast_keeps fun i hi => ?_) fun _ =>
    (scheduleRreqRetry_keeps hP hshift).weaken (fun _ h => h) fun _ _ h => .inr h
  refine ⟨?_, fun hknown => ?_⟩
  · show K (s + 1) i.addr n.seqNo
    rw [hn]
    exact hown (s + 1) i hi
  · cases old with
    | none => cases hknown
    | some e =>
      have hvalid : e.validSeqNo = true := by simpa [requestHeader] using hknown
      have hk := hgrow _ _ ((hfound e rfl).2.1 hvalid)
      rw [(hfound e rfl).1] at hk
      simpa [requestHeader, hvalid] using hk

/-! ## Replying -/

omit hP in
/-- The node replies with its own number, which it may raise first. -/
theorem sendReply_keeps {h : RreqHeader} {toOrigin : RoutingTableEntry} {i : Iface}
    (hgrow : ∀ a x, K s a x → K (s + 1) a x) (hown : Own K is) (hi : i ∈ is)
    (hdst : i.addr = h.dst) : Triple (Meets K P T s is) (sendReply v h toOrigin)
      fun _ => After K P T s is := by
  have hsend : ∀ s', Triple (Meets K P T s' is) (do
      let n ← get
      sendTo toOrigin.iface toOrigin.nextHop toOrigin.hops.toUInt8 (.rrep
        { ackRequired := false
          hopCount := 0
          dst := h.dst
          dstSeqno := n.seqNo
          origin := toOrigin.dst
          lifeTime := toLifeTime v.cfg.myRouteTimeout })) fun _ => Meets K P T s' is := by
    intro s'
    refine Triple.bind (Triple.read (Q := fun a n => Meets K P T s' is n ∧ a.seqNo = s')
      fun n h => ⟨h, h.seqNo⟩) fun n => Triple.assume fun hn => sendTo_keeps ?_
    show K s' h.dst n.seqNo
    rw [hn, ← hdst]
    exact hown s' i hi
  unfold sendReply
  refine Triple.bind (Triple.write (Q := fun _ n => After K P T s is n) fun n h => ?_) fun _ => ?_
  · split
    · exact .inr (h.grow hgrow)
    · exact .inl h
  · exact Triple.either ((hsend s).weaken (fun _ h => h) fun _ _ h => .inl h)
      ((hsend (s + 1)).weaken (fun _ h => h) fun _ _ h => .inr h)

/-- An intermediate node replies with the numbers of its entries. -/
theorem sendReplyByIntermediateNode_keeps {toDst toOrigin : RoutingTableEntry} {gratRep : Bool}
    (hd : Good (K s) P toDst) (ho : Good (K s) P toOrigin) (hvalid : toDst.validSeqNo = true)
    (hknown : K s toOrigin.dst toOrigin.seqNo) :
    Keeps K P T s is (sendReplyByIntermediateNode v toDst toOrigin gratRep) := by
  have hawait : Keeps K P T s is (awaitAck v toDst toOrigin) := by
    unfold awaitAck
    split
    · exact Triple.bind (lookupRoute_keeps hP) fun _ => Triple.ret fun _ h => h.1
    · exact Triple.ret fun _ h => h
  unfold sendReplyByIntermediateNode
  refine Triple.bind hawait fun _ => ?_
  refine Triple.bind (update_keeps (hd.inserted hP _)) fun _ => ?_
  refine Triple.bind (update_keeps (ho.inserted hP _)) fun _ => ?_
  refine Triple.bind (sendTo_keeps (hd.1 hvalid)) fun _ => ?_
  split
  · exact sendTo_keeps hknown
  · exact Triple.ret fun _ h => h

/-! ## Receiving a request -/

omit hP in
/-- The request stays known when it is sent on. -/
theorem forwardRequest_keeps {h : RreqHeader} {ttl : UInt8}
    (hh : (Message.rreq h).Claims (K s)) : Keeps K P T s is (forwardRequest h ttl) := by
  unfold forwardRequest
  split
  · exact Triple.ret fun _ h => h
  · exact sendBroadcast_keeps fun _ _ => hh

theorem relayRequest_keeps {h : RreqHeader} {ttl : UInt8} {src : Ipv4Address}
    {toOrigin : RoutingTableEntry} (hh : (Message.rreq h).Claims (K s))
    (ho : Good (K s) P toOrigin) (hknown : K s toOrigin.dst toOrigin.seqNo)
    (hfound : ∀ e, e.dst = h.origin → Good (K s) P e → K s e.dst e.seqNo) :
    Keeps K P T s is (relayRequest v h ttl src toOrigin) := by
  unfold relayRequest
  refine Triple.bind (lookupRoute_keeps hP) fun r => Triple.assume fun hr => ?_
  cases r with
  | none => exact forwardRequest_keeps hh
  | some toDst =>
    obtain ⟨hdst, hgood⟩ := hr toDst rfl
    dsimp only
    split
    · exact Triple.ret fun _ h => h
    split
    · rename_i hfresh
      split
      · refine Triple.bind (lookupRoute_keeps hP) fun r' => Triple.assume fun hr' => ?_
        cases r' with
        | none => exact sendReplyByIntermediateNode_keeps hP hgood ho hfresh.2 hknown
        | some e =>
          obtain ⟨he, hg⟩ := hr' e rfl
          exact sendReplyByIntermediateNode_keeps hP hgood hg hfresh.2 (hfound e he hg)
      · refine forwardRequest_keeps ⟨hh.1, fun _ => ?_⟩
        have hk := hgood.1 hfresh.2
        rw [hdst] at hk
        exact hk
    · exact forwardRequest_keeps hh

/-- The number of an entry for `a` is known, whether it is marked as valid or not. -/
def Known (K : Ipv4Address → UInt32 → Prop) (P : RoutingTableEntry → Prop) (a : Ipv4Address)
    (e : RoutingTableEntry) : Prop := P e ∧ (e.dst = a → K e.dst e.seqNo)

theorem Known.lasting {K : Ipv4Address → UInt32 → Prop} {a : Ipv4Address} :
    Lasting (Known K P a) where
  lifeTime e l h := ⟨hP.lifeTime e l h.1, h.2⟩
  precursors e ps h := ⟨hP.precursors e ps h.1, h.2⟩
  invalidate e h := ⟨hP.invalidate e h.1, h.2⟩
  settle e h hs := ⟨hP.settle e h.1 hs, h.2⟩

/-- After an entry with a known number is put in the table, the number found there is known. -/
theorem putRoute_known {t : RoutingTable} {old : Option RoutingTableEntry}
    {rt : RoutingTableEntry} (hold : old = (t.purge v.now).entries.find rt.dst)
    (hrt : Good (K s) P rt.settle) (hknown : K s rt.dst rt.seqNo) :
    Triple (fun n => Meets K P T s is n ∧ n.routingTable = t.purge v.now) (putRoute v old rt)
      fun _ => Meets K (Known (K s) P rt.dst) T s is := by
  have hseq : rt.settle.seqNo = rt.seqNo := by
    unfold RoutingTableEntry.settle
    split <;> rfl
  rintro n ⟨⟩ n' ⟨h, ht⟩ hrun
  have hn' : Meets K P T s is n' := putRoute_keeps hP hrt n _ n' h hrun
  refine ⟨hn'.seqNo, hn'.ifaces, fun d e he => ?_, hn'.outbox, hn'.timers⟩
  obtain ⟨hd, hg⟩ := hn'.table d e he
  refine ⟨hd, hg.1, hg.2, fun hdst => ?_⟩
  -- the entry found for that destination is the one just put there
  have hent : e = rt.settle := by
    rw [hd] at hdst
    subst hdst
    unfold putRoute at hrun
    cases hfind : (t.purge v.now).entries.find rt.dst with
    | none =>
      rw [hold, hfind] at hrun
      cases hrun
      have hnew : (n.routingTable.purge v.now).entries.find rt.dst = none := by
        rw [ht, RoutingTable.purge_purge, hfind]
      have he := ((RoutingTable.find_addRoute_new hnew).trans (if_pos rfl)).symm.trans he
      exact (Option.some_inj.mp he).symm
    | some e' =>
      rw [hold, hfind] at hrun
      cases hrun
      have hold' : n.routingTable.entries.find rt.dst = some e' := by
        rw [ht, hfind]
      have he := ((RoutingTable.find_update_old hold').trans (if_pos rfl)).symm.trans he
      exact (Option.some_inj.mp he).symm
  rw [hent, RoutingTable.dst_settle, hseq]
  exact hknown

omit hP in
theorem Meets.of_known {a : Ipv4Address} {s' : UInt32} {n : Node}
    (h : Meets K (Known (K s') P a) T s is n) : Meets K P T s is n :=
  ⟨h.seqNo, h.ifaces, fun d e he =>
    ⟨(h.table d e he).1, (h.table d e he).2.1, (h.table d e he).2.2.1⟩, h.outbox, h.timers⟩

omit hP in
/-- The number of a reverse route is the entry's own or the originator's. -/
theorem reverseEntry_known {K : Ipv4Address → UInt32 → Prop} (v : Env) {h : RreqHeader}
    (hop : UInt8) (receiver src : Ipv4Address) {old : Option RoutingTableEntry}
    (hh : K h.origin h.originSeqno) (hfound : Found K P h.origin old) :
    (reverseEntry v h hop receiver src old).dst = h.origin ∧
      K h.origin (reverseEntry v h hop receiver src old).seqNo := by
  cases old with
  | none => exact ⟨rfl, hh⟩
  | some e =>
    obtain ⟨hdst, hgood⟩ := hfound e rfl
    refine ⟨hdst, ?_⟩
    show K h.origin (if _ then _ else _)
    split
    · rename_i hold
      rw [← hdst]
      exact hgood.1 hold.1
    · exact hh

omit hP in
theorem previousEntry_good {K : Ipv4Address → UInt32 → Prop} {h : RreqHeader}
    {receiver src : Ipv4Address} {prev : Option RoutingTableEntry} (hnear : Near P)
    (hh : K h.origin h.originSeqno) (hfound : Found K (Known K P h.origin) src prev) :
    Good K (Known K P h.origin) (previousEntry v h receiver src prev).settle := by
  have hdst : (previousEntry v h receiver src prev).dst = src := by
    cases prev with
    | none => rfl
    | some e => exact (hfound e rfl).1
  have hflag : (previousEntry v h receiver src prev).flag = .valid := by cases prev <;> rfl
  have hhop : (previousEntry v h receiver src prev).nextHop = src := by cases prev <;> rfl
  have hseq : (previousEntry v h receiver src prev).seqNo = h.originSeqno := by cases prev <;> rfl
  have hknow : (previousEntry v h receiver src prev).validSeqNo = false := by cases prev <;> rfl
  rw [settle_of_valid hflag]
  refine ⟨fun hv => ?_, hnear _ (hhop.trans hdst.symm) hflag rfl, fun horigin => ?_⟩
  · have hv : (previousEntry v h receiver src prev).validSeqNo = true := hv
    rw [hknow] at hv
    cases hv
  · show K (previousEntry v h receiver src prev).dst (previousEntry v h receiver src prev).seqNo
    have horigin : (previousEntry v h receiver src prev).dst = h.origin := horigin
    rw [horigin, hseq]
    exact hh

theorem takeRequest_spec {h : RreqHeader} {ttl : UInt8} {receiver src : Ipv4Address}
    {t : RoutingTable} (hnear : Near P) (hgrow : ∀ a x, K s a x → K (s + 1) a x) (hown : Own K is)
    (hzero : ∀ a, K s a 0) (hh : (Message.rreq h).Claims (K s))
    (hrev : ∀ old, old = (t.purge v.now).entries.find h.origin → Found (K s) P h.origin old →
      P (reverseEntry v h (h.hopCount + 1) receiver src old)) :
    Triple (fun n => Meets K P T s is n ∧ n.routingTable = t) (takeRequest v h ttl receiver src)
      fun _ => After K P T s is := by
  have hP' : Lasting (Known (K s) P h.origin) := Known.lasting hP
  unfold takeRequest
  refine Triple.bind (lookupRoute_spec hP) fun old => Triple.assume fun ⟨hold, hfound⟩ => ?_
  have hfind := hrev old hold hfound
  obtain ⟨hdst, hknown⟩ := reverseEntry_known v (h.hopCount + 1) receiver src hh.1 hfound
  -- the hop count in the header is not read
  have hhop : reverseEntry v { h with hopCount := h.hopCount + 1 } (h.hopCount + 1) receiver src old
      = reverseEntry v h (h.hopCount + 1) receiver src old := by
    cases old <;> rfl
  have hgood : Good (K s) P (reverseEntry v h (h.hopCount + 1) receiver src old) := by
    refine ⟨fun _ => ?_, hfind⟩
    rw [hdst]
    exact hknown
  dsimp only
  rw [hhop]
  refine Triple.bind (putRoute_known hP (hold.trans (congrArg _ hdst.symm))
    ((Good.lasting hP).settled hgood) (hdst.symm ▸ hknown)) fun _ => ?_
  rw [hdst]
  refine Triple.bind (lookupRoute_keeps hP') fun prev => Triple.assume fun hprev => ?_
  refine Triple.bind (putRoute_keeps hP' (previousEntry_good hnear hh.1 hprev)) fun _ => ?_
  refine Triple.bind (nbUpdate_keeps hP') fun _ => ?_
  refine Triple.bind (Triple.read (Q := fun a n => Meets K (Known (K s) P h.origin) T s is n ∧
    a.ifaces = is) fun n h => ⟨h, h.ifaces⟩) fun n => Triple.assume fun hn => ?_
  split
  · rename_i howns
    obtain ⟨i, hi, haddr⟩ := howns
    refine Triple.bind (lookupRoute_keeps hP') fun found => Triple.assume fun _ => ?_
    refine (sendReply_keeps hgrow hown (hn ▸ hi) haddr).weaken (fun _ h => h) fun _ _ h => ?_
    exact h.imp Meets.of_known Meets.of_known
  · have hvar : Good (K s) (Known (K s) P h.origin)
          (localOrigin v h (h.hopCount + 1) receiver src old) ∧
        K s (localOrigin v h (h.hopCount + 1) receiver src old).dst
          (localOrigin v h (h.hopCount + 1) receiver src old).seqNo := by
      cases old with
      | none =>
        have hblank : Good (K s) P (blank v.now) := hnear.good rfl rfl rfl rfl
        exact ⟨⟨hblank.1, hblank.2, fun _ => hzero _⟩, hzero _⟩
      | some e => exact ⟨⟨hgood.1, hgood.2, fun _ => hgood.1 rfl⟩, hgood.1 rfl⟩
    have hlocal : localOrigin v { h with hopCount := h.hopCount + 1 } (h.hopCount + 1) receiver src
        old = localOrigin v h (h.hopCount + 1) receiver src old := by
      cases old <;> rfl
    rw [hlocal]
    have hbump : (Message.rreq { h with hopCount := h.hopCount + 1 }).Claims (K s) := hh
    exact (relayRequest_keeps hP' hbump hvar.1 hvar.2 fun e he hg => hg.2.2 he).weaken
      (fun _ h => h) fun _ _ h => Or.inl h.of_known

theorem recvRequest_spec {h : RreqHeader} {ttl : UInt8} {receiver src : Ipv4Address}
    {n₀ : Node} (hnear : Near P) (hgrow : ∀ a x, K s a x → K (s + 1) a x) (hown : Own K is)
    (hzero : ∀ a, K s a 0) (hh : (Message.rreq h).Claims (K s))
    (hrev : (n₀.rreqIdCache.isDuplicate v.now h.origin h.id).1 = false →
      ∀ old, (n₀.routingTable.purge v.now).entries.find h.origin = old →
        Found (K s) P h.origin old → P (reverseEntry v h (h.hopCount + 1) receiver src old)) :
    Triple (fun n => Meets K P T s is n ∧ n = n₀) (recvRequest v h ttl receiver src)
      fun _ => After K P T s is := by
  unfold recvRequest
  refine Triple.bind (lookupRoute_at hP) fun r => Triple.assume fun _ => ?_
  split
  · exact Triple.ret fun _ h => .inl h.1
  refine Triple.bind (Triple.read (Q := fun a n => (Meets K P T s is n ∧
      n.routingTable = n₀.routingTable.purge v.now) ∧ a.rreqIdCache = n₀.rreqIdCache)
    fun n h => ⟨⟨h.1, by rw [h.2]⟩, by rw [h.2]⟩) fun n => Triple.assume fun hcache => ?_
  refine Triple.bind (Triple.write (Q := fun _ n => Meets K P T s is n ∧
      n.routingTable = n₀.routingTable.purge v.now)
    fun n h => ⟨⟨h.1.seqNo, h.1.ifaces, h.1.table, h.1.outbox, h.1.timers⟩, h.2⟩) fun _ => ?_
  split
  · exact Triple.ret fun _ h => .inl h.1
  · rename_i hdup
    refine takeRequest_spec hP hnear hgrow hown hzero hh fun old hold => ?_
    rw [RoutingTable.purge_purge] at hold
    rw [hcache] at hdup
    exact hrev (by simpa using hdup) old hold.symm

/-! ## Receiving a reply -/

omit hP in
theorem helloEntry_good {K : Ipv4Address → UInt32 → Prop} {h : RrepHeader}
    {receiver : Ipv4Address} {old : Option RoutingTableEntry} (hnear : Near P)
    (hh : K h.dst h.dstSeqno) (hfound : Found K P h.dst old) :
    Good K P (helloEntry v h receiver old).settle := by
  have hdst : (helloEntry v h receiver old).dst = h.dst := by
    cases old with
    | none => rfl
    | some e => exact (hfound e rfl).1
  have hflag : (helloEntry v h receiver old).flag = .valid := by cases old <;> rfl
  have hhop : (helloEntry v h receiver old).nextHop = h.dst := by cases old <;> rfl
  have hseq : (helloEntry v h receiver old).seqNo = h.dstSeqno := by cases old <;> rfl
  rw [settle_of_valid hflag]
  refine ⟨fun _ => ?_, hnear _ (hhop.trans hdst.symm) hflag rfl⟩
  show K (helloEntry v h receiver old).dst (helloEntry v h receiver old).seqNo
  rw [hdst, hseq]
  exact hh

theorem processHello_keeps {h : RrepHeader} {receiver : Ipv4Address} (hnear : Near P)
    (hh : K s h.dst h.dstSeqno) : Keeps K P T s is (processHello v h receiver) := by
  unfold processHello
  refine Triple.bind (lookupRoute_keeps hP) fun old => Triple.assume fun hold => ?_
  refine Triple.bind (putRoute_keeps hP (helloEntry_good hnear hh hold)) fun _ => ?_
  split
  · exact nbUpdate_keeps hP
  · exact Triple.ret fun _ h => h

theorem sendReplyAck_keeps : Keeps K P T s is (sendReplyAck v id) :=
  Triple.bind (lookupRoute_keeps hP) fun _ => Triple.assume fun _ => sendTo_keeps trivial

omit hP in
theorem sendPacketFromQueue_keeps {rt : RoutingTableEntry} :
    Keeps K P T s is (sendPacketFromQueue v id rt) :=
  Triple.write fun _ h => ⟨h.seqNo, h.ifaces, h.table, h.outbox, h.timers⟩

theorem notePrecursors_keeps {h : RrepHeader} {toOrigin : RoutingTableEntry} (hnear : Near P)
    (ho : Good (K s) P toOrigin) : Keeps K P T s is (notePrecursors v h toOrigin) := by
  unfold notePrecursors
  refine Triple.bind (lookupRoute_keeps hP) fun r => Triple.assume fun hr => ?_
  cases r with
  | none => exact Triple.ret fun _ h => h
  | some toDst =>
    dsimp only
    split
    · refine Triple.bind (update_keeps ((hr toDst rfl).2.inserted hP _)) fun _ => ?_
      refine Triple.bind (lookupRoute_keeps hP) fun r' => Triple.assume fun hr' => ?_
      refine Triple.bind (update_keeps ((hr'.getD_blank hnear).inserted hP _)) fun _ => ?_
      refine Triple.bind (update_keeps (ho.inserted hP _)) fun _ => ?_
      refine Triple.bind (lookupRoute_keeps hP) fun r'' => Triple.assume fun hr'' => ?_
      refine Triple.bind (update_keeps ((hr''.getD_blank hnear).inserted hP _)) fun _ => ?_
      exact Triple.ret fun _ h => h
    · exact Triple.ret fun _ h => h

theorem relayReply_keeps {h : RrepHeader} {ttl : UInt8} (hnear : Near P)
    (hh : K s h.dst h.dstSeqno) : Keeps K P T s is (relayReply v h ttl) := by
  unfold relayReply
  refine Triple.bind (lookupRoute_keeps hP) fun r => Triple.assume fun hr => ?_
  cases r with
  | none => exact Triple.ret fun _ h => h
  | some toOrigin =>
    dsimp only
    split
    · exact Triple.ret fun _ h => h
    · have ho := (Good.lasting (K := K s) hP).lifeTime toOrigin
        (max v.cfg.activeRouteTimeout (toOrigin.getLifeTime v.now) + v.now) (hr toOrigin rfl).2
      refine Triple.bind (update_keeps ((Good.lasting hP).settled ho)) fun _ => ?_
      refine Triple.bind (notePrecursors_keeps hP hnear ho) fun e => ?_
      split
      · exact Triple.ret fun _ h => h
      · exact sendTo_keeps hh

/-- A node takes up what a reply says: there was no entry, or it supersedes the entry, or the node
was waiting for it. -/
def Accepts (n : Node) (h : RrepHeader) (old : Option RoutingTableEntry) : Prop :=
  ∀ e, old = some e → Supersedes h e ∨ n.owns h.origin ∧ e.flag = .inSearch

instance (n : Node) (h : RrepHeader) (old : Option RoutingTableEntry) :
    Decidable (Accepts n h old) := by
  unfold Accepts
  cases old with
  | none => exact isTrue fun e he => by cases he
  | some e =>
    exact decidable_of_iff (Supersedes h e ∨ n.owns h.origin ∧ e.flag = .inSearch)
      ⟨fun h e he => by cases he; exact h, fun h => h e rfl⟩

omit hP in
theorem replyEntry_good {K : Ipv4Address → UInt32 → Prop} {h : RrepHeader}
    {receiver sender : Ipv4Address} (hh : K h.dst h.dstSeqno)
    (hP' : P (replyEntry v h receiver sender)) : Good K P (replyEntry v h receiver sender).settle :=
  ⟨fun _ => hh, hP'⟩

theorem takeReply_spec {h : RrepHeader} {ttl : UInt8} {receiver sender : Ipv4Address}
    {n₀ : Node} (hnear : Near P) (hh : K s h.dst h.dstSeqno)
    (hrep : ∀ old, (n₀.routingTable.purge v.now).entries.find h.dst = old → Accepts n₀ h old →
      P (replyEntry v h receiver sender)) :
    Triple (fun n => Meets K P T s is n ∧ n = n₀) (takeReply v h ttl receiver sender)
      fun _ => Meets K P T s is := by
  rintro n r n' ⟨hn, rfl⟩ hrun
  have howns : ∀ m, Meets K P T s is m → (m.owns h.origin ↔ n.owns h.origin) := by
    intro m hm
    unfold Node.owns
    rw [hm.ifaces, hn.ifaces]
  suffices hall : Triple (fun m => Meets K P T s is m ∧ m.routingTable = n.routingTable)
      (takeReply v h ttl receiver sender) fun _ => Meets K P T s is from
    hall n r n' ⟨hn, rfl⟩ hrun
  unfold takeReply
  refine Triple.bind (lookupRoute_spec hP) fun old => Triple.assume fun ⟨hold, hfound⟩ => ?_
  have hinstall : Keeps K P T s is (installReply v h receiver sender old) := by
    cases old with
    | none =>
      exact addRoute_keeps hP (replyEntry_good hh (hrep none hold.symm fun e he => by cases he))
    | some e =>
      show Triple _ (if _ then _ else _) _
      split
      · rename_i hsup
        refine update_keeps (replyEntry_good hh (hrep (some e) hold.symm fun e' he' => ?_))
        cases he'
        exact .inl hsup
      · exact Triple.ret fun _ h => h
  refine Triple.bind (hinstall.weaken (fun _ h => h.1) fun _ _ h => h) fun _ => ?_
  refine Triple.bind (R := fun _ => Meets K P T s is) (Q := fun _ => Meets K P T s is) ?_ fun _ => ?_
  · split
    · exact sendReplyAck_keeps hP
    · exact Triple.ret fun _ h => h
  refine Triple.bind (Triple.read (Q := fun a m => Meets K P T s is m ∧
    (a.owns h.origin ↔ n.owns h.origin)) fun m hm => ⟨hm, howns m hm⟩) fun m =>
      Triple.assume fun hm => ?_
  split
  · rename_i hown
    unfold replyArrived
    refine Triple.bind (Q := fun _ => Meets K P T s is) ?_ fun _ => ?_
    · unfold endSearch
      split
      · rename_i hsearch
        refine Triple.bind (update_keeps (replyEntry_good hh (hrep old hold.symm fun e he => ?_)))
          fun _ => Triple.write fun _ h => h.eraseTimer
        rw [he] at hsearch
        exact .inr ⟨hm.mp hown, by simpa using hsearch⟩
      · exact Triple.ret fun _ h => h
    · refine Triple.bind (lookupRoute_keeps hP) fun _ => Triple.assume fun _ => ?_
      exact sendPacketFromQueue_keeps
  · have hh' : K s ({ h with ackRequired := false } : RrepHeader).dst
        ({ h with ackRequired := false } : RrepHeader).dstSeqno := hh
    exact relayReply_keeps hP hnear hh'

/-- `recvReplyAck` marks the entry for the neighbour as valid, whatever its next hop. -/
theorem recvReplyAck_spec {neighbor : Ipv4Address} {t : RoutingTable}
    (hack : ∀ e, (t.purge v.now).entries.find neighbor = some e → Good (K s) P e →
      P { e with flag := .valid, reqCount := 0 }) :
    Triple (fun n => Meets K P T s is n ∧ n.routingTable = t) (recvReplyAck v neighbor)
      fun _ => Meets K P T s is := by
  unfold recvReplyAck
  refine Triple.bind (lookupRoute_spec hP) fun r => Triple.assume fun ⟨hr, hfound⟩ => ?_
  cases r with
  | none => exact Triple.ret fun _ h => h.1
  | some e =>
    have hgood := (hfound e rfl).2
    have hvalid : Good (K s) P ({ e with flag := .valid } : RoutingTableEntry).settle := by
      rw [settle_of_valid rfl]
      exact ⟨hgood.1, hack e hr.symm hgood⟩
    exact (update_keeps hvalid).weaken (fun _ h => h.1) fun _ _ h => h

/-! ## The neighbour's entry -/

omit hP in
/-- Exactly what a lookup does. -/
theorem lookupRoute_exact {n₀ : Node} : Triple (fun n => n = n₀) (lookupRoute v id) fun r n =>
    n = { n₀ with routingTable := n₀.routingTable.purge v.now } ∧
      (n₀.routingTable.purge v.now).entries.find id = r := by
  rintro n r n' rfl hrun
  cases hrun
  exact ⟨rfl, rfl⟩

omit hP in
/-- What a new entry in the place of the sender's leaves after a purge. -/
theorem find_purge_put (t₀ : RoutingTable) {t : RoutingTable} {e : RoutingTableEntry}
    (sender : Ipv4Address)
    (hbad : t.badLinkLifetime = t₀.badLinkLifetime) (hhop : e.nextHop = sender)
    (hat : t.entries.find sender = some e)
    (hoff : ∀ d, d ≠ sender → t.entries.find d = (t₀.purge v.now).entries.find d) :
    (∀ d, d ≠ sender → (t.purge v.now).entries.find d = (t₀.purge v.now).entries.find d) ∧
      ∀ e', (t.purge v.now).entries.find sender = some e' → e'.nextHop = sender := by
  refine ⟨fun d hd => RoutingTable.purge_frame hbad hoff hd, fun e' he' => ?_⟩
  rw [RoutingTable.find_purge, hat] at he'
  exact (RoutingTable.nextHop_of_purge he').trans hhop

omit hP in
/-- `updateRouteToNeighbor` changes the entry for the sender only, and there makes a route straight
to it or leaves what there is. -/
theorem updateRouteToNeighbor_frame {sender receiver : Ipv4Address} {n₀ : Node} :
    Triple (fun n => n = n₀) (updateRouteToNeighbor v sender receiver) fun _ n =>
      ∃ t : RoutingTable, n = { n₀ with routingTable := t } ∧
        (∀ d, d ≠ sender → (t.purge v.now).entries.find d =
          (n₀.routingTable.purge v.now).entries.find d) ∧
        ∀ e, (t.purge v.now).entries.find sender = some e →
          e.nextHop = sender ∨ (n₀.routingTable.purge v.now).entries.find sender = some e := by
  unfold updateRouteToNeighbor
  refine Triple.bind lookupRoute_exact fun r => Triple.assume fun hfind => ?_
  cases r with
  | none =>
    refine Triple.write ?_
    rintro n rfl
    have hnew : ((n₀.routingTable.purge v.now).purge v.now).entries.find sender = none := by
      rw [RoutingTable.purge_purge, hfind]
    obtain ⟨hoff, hat⟩ := find_purge_put (v := v) n₀.routingTable sender
      (t := (n₀.routingTable.purge v.now).addRoute v.now (ofRoute v.now receiver sender false 0 1
        sender v.cfg.activeRouteTimeout)) rfl rfl ((RoutingTable.find_addRoute_new hnew).trans (if_pos rfl))
      fun d hd => by
        refine ((RoutingTable.find_addRoute_new hnew).trans (if_neg hd)).trans ?_
        rw [RoutingTable.purge_purge]
    exact ⟨_, rfl, hoff, fun e he => .inl (hat e he)⟩
  | some e =>
    dsimp only
    split
    · refine Triple.ret ?_
      rintro n rfl
      refine ⟨_, rfl, fun d _ => ?_, fun e he => .inr ?_⟩
      · rw [RoutingTable.purge_purge]
      · rw [RoutingTable.purge_purge, hfind] at he
        exact hfind.trans he
    · refine Triple.write ?_
      rintro n rfl
      obtain ⟨hoff, hat⟩ := find_purge_put (v := v) n₀.routingTable sender
        (t := (n₀.routingTable.purge v.now).update (ofRoute v.now receiver sender false 0 1 sender
          (max v.cfg.activeRouteTimeout (e.getLifeTime v.now))))
        RoutingTable.badLinkLifetime_update rfl ((RoutingTable.find_update_old hfind).trans (if_pos rfl))
        fun d hd => (RoutingTable.find_update_old hfind).trans (if_neg hd)
      exact ⟨_, rfl, hoff, fun e he => .inl (hat e he)⟩

/-! ## Any message -/

/-- The entries that a message makes have `P`, whatever they replace. -/
structure Admits (K : UInt32 → Ipv4Address → UInt32 → Prop) (P : RoutingTableEntry → Prop)
    (v : Env) (s : UInt32) (n : Node) (f : Frame) (receiver : Ipv4Address) : Prop where
  known : f.message.Claims (K s)
  request : ∀ h, f.message = .rreq h → (n.rreqIdCache.isDuplicate v.now h.origin h.id).1 = false →
    ∀ old, (n.routingTable.purge v.now).entries.find h.origin = old ∨ h.origin = f.sender →
      Found (K s) P h.origin old → P (reverseEntry v h (h.hopCount + 1) receiver f.sender old)
  reply : ∀ h, f.message = .rrep h → h.dst ≠ h.origin → h.dst ≠ f.sender →
    ∀ old, (n.routingTable.purge v.now).entries.find h.dst = old →
      Accepts n { h with hopCount := h.hopCount + 1 } old →
      P (replyEntry v { h with hopCount := h.hopCount + 1 } receiver f.sender)
  ack : f.message = .rrepAck → ∀ e,
    (n.routingTable.purge v.now).entries.find f.sender = some e → Good (K s) P e →
      P { e with flag := .valid, reqCount := 0 }

theorem recvReply_spec {h : RrepHeader} {ttl : UInt8} {receiver sender : Ipv4Address}
    {n₀ : Node} (hnear : Near P) (hh : K s h.dst h.dstSeqno)
    (hrep : h.dst ≠ h.origin → ∀ old, (n₀.routingTable.purge v.now).entries.find h.dst = old →
      Accepts n₀ { h with hopCount := h.hopCount + 1 } old →
      P (replyEntry v { h with hopCount := h.hopCount + 1 } receiver sender)) :
    Triple (fun n => Meets K P T s is n ∧ n = n₀) (recvReply v h ttl receiver sender)
      fun _ => Meets K P T s is := by
  have hh' : K s ({ h with hopCount := h.hopCount + 1 } : RrepHeader).dst
      ({ h with hopCount := h.hopCount + 1 } : RrepHeader).dstSeqno := hh
  show Triple _ (if h.dst = h.origin then _ else _) _
  split
  · exact (processHello_keeps hP hnear hh').weaken (fun _ h => h.1) fun _ _ h => h
  · rename_i hne
    exact takeReply_spec hP hnear hh' (hrep hne)

theorem recvAodv_spec {f : Frame} {receiver : Ipv4Address} {n₀ : Node} (hnear : Near P)
    (hgrow : ∀ a x, K s a x → K (s + 1) a x) (hown : Own K is) (hzero : ∀ a, K s a 0)
    (hf : Admits K P v s n₀ f receiver) :
    Triple (fun n => Meets K P T s is n ∧ n = n₀) (recvAodv v f receiver)
      fun _ => After K P T s is := by
  unfold recvAodv
  have hneighbor : Triple (fun n => Meets K P T s is n ∧ n = n₀)
      (updateRouteToNeighbor v f.sender receiver) fun _ n => Meets K P T s is n ∧
        ∃ t : RoutingTable, n = { n₀ with routingTable := t } ∧
          (∀ d, d ≠ f.sender → (t.purge v.now).entries.find d =
            (n₀.routingTable.purge v.now).entries.find d) ∧
          ∀ e, (t.purge v.now).entries.find f.sender = some e → e.nextHop = f.sender ∨
            (n₀.routingTable.purge v.now).entries.find f.sender = some e := by
    rintro n r n' ⟨hn, rfl⟩ hrun
    exact ⟨updateRouteToNeighbor_keeps hP hnear n r n' hn hrun,
      updateRouteToNeighbor_frame n r n' rfl hrun⟩
  refine Triple.bind hneighbor fun _ => ?_
  rintro n r n' ⟨hn, t, ht, hoff, hat⟩ hrun
  have hclaims := hf.known
  cases hm : f.message with
  | rreq h =>
    rw [hm] at hrun hclaims
    refine recvRequest_spec hP hnear hgrow hown hzero hclaims (fun hdup old hold => ?_) n r n'
      ⟨hn, rfl⟩ hrun
    refine hf.request h hm (by rwa [ht] at hdup) old ?_
    rcases eq_or_ne h.origin f.sender with heq | hne
    · exact .inr heq
    · rw [ht] at hold
      exact .inl ((hoff _ hne).symm.trans hold)
  | rrep h =>
    rw [hm] at hrun hclaims
    refine .inl (recvReply_spec hP hnear hclaims (fun hhello old hold haccept => ?_) n r n'
      ⟨hn, rfl⟩ hrun)
    rcases eq_or_ne h.dst f.sender with heq | hne
    · exact hnear _ heq.symm rfl rfl
    · rw [ht] at hold haccept
      exact hf.reply h hm hhello hne old ((hoff _ hne).symm.trans hold) haccept
  | rerr h =>
    rw [hm] at hrun
    exact .inl (recvError_keeps hP n r n' hn hrun)
  | rrepAck =>
    rw [hm] at hrun
    refine .inl (recvReplyAck_spec hP (fun e he hgood => ?_) n r n' ⟨hn, rfl⟩ hrun)
    rw [ht] at he
    rcases hat e he with hhop | hold
    · refine hnear _ ?_ rfl rfl
      have hdst : e.dst = f.sender := by
        have hall := hn.table
        rw [ht] at hall
        exact ((hall.purge (Good.lasting hP)) _ e he).1
      exact hhop.trans hdst.symm
    · exact hf.ack hm e hold hgood

/-! ## Timers and data packets -/

theorem stopSearch_keeps : Keeps K P T s is (stopSearch v id) := by
  unfold stopSearch
  refine Triple.bind (Triple.write (Q := fun _ => Meets K P T s is) fun _ h => h.eraseTimer)
    fun _ => ?_
  refine Triple.bind (deleteRoute_keeps hP) fun _ => ?_
  exact Triple.write fun _ h => ⟨h.seqNo, h.ifaces, h.table, h.outbox, h.timers⟩

theorem routeOutput_keeps : Keeps K P T s is (routeOutput v id) := by
  unfold routeOutput
  refine Triple.bind (lookupRoute_keeps hP) fun r => Triple.assume fun _ => ?_
  cases r with
  | none => exact Triple.ret fun _ h => h
  | some rt =>
    dsimp only
    split
    · exact Triple.bind (updateRouteLifeTime_keeps hP) fun _ => updateRouteLifeTime_keeps hP
    · exact Triple.ret fun _ h => h

theorem localDelivery_keeps : Keeps K P T s is (localDelivery v id) := by
  unfold localDelivery
  refine Triple.bind (updateRouteLifeTime_keeps hP) fun _ => ?_
  refine Triple.bind (lookupRoute_keeps hP) fun r => Triple.assume fun _ => ?_
  cases r with
  | none => exact Triple.ret fun _ h => h
  | some toOrigin =>
    dsimp only
    split
    · exact Triple.bind (updateRouteLifeTime_keeps hP) fun _ => nbUpdate_keeps hP
    · exact Triple.ret fun _ h => h

theorem forwarding_keeps {dst origin : Ipv4Address} :
    Keeps K P T s is (forwarding v dst origin) := by
  unfold forwarding
  refine Triple.bind (Triple.write (Q := fun _ => Meets K P T s is)
    fun n h => h.setTable (h.table.purge (Good.lasting hP))) fun _ => ?_
  refine Triple.bind (lookupRoute_keeps hP) fun r => Triple.assume fun _ => ?_
  cases r with
  | none => exact sendRerrWhenNoRouteToForward_keeps hP
  | some toDst =>
    dsimp only
    split
    · refine Triple.bind (updateRouteLifeTime_keeps hP) fun _ => ?_
      refine Triple.bind (updateRouteLifeTime_keeps hP) fun _ => ?_
      refine Triple.bind (updateRouteLifeTime_keeps hP) fun _ => ?_
      refine Triple.bind (lookupRoute_keeps hP) fun toOrigin => Triple.assume fun _ => ?_
      refine Triple.bind (updateRouteLifeTime_keeps hP) fun _ => ?_
      exact Triple.bind (nbUpdate_keeps hP) fun _ => nbUpdate_keeps hP
    · split
      · exact sendRerrWhenNoRouteToForward_keeps hP
      · exact sendRerrWhenNoRouteToForward_keeps hP

omit hP in
/-- A Hello message carries the node's own number for its own address. -/
theorem sendHello_keeps (hown : Own K is) : Keeps K P T s is (sendHello v) := by
  unfold sendHello
  refine Triple.bind (Triple.read (Q := fun a n => Meets K P T s is n ∧ a.seqNo = s)
    fun n h => ⟨h, h.seqNo⟩) fun n => Triple.assume fun hn => sendBroadcast_keeps fun i hi => ?_
  show K s i.addr n.seqNo
  rw [hn]
  exact hown s i hi

/-! ## Any event -/

/-- The searches an event may start: for a destination, with the entry there is for it. -/
def Searches (v : Env) (n : Node) : NodeEvent → Ipv4Address → Option RoutingTableEntry → Prop
  | .outbound _ h _, dst, old =>
    n.rreqCount ≠ v.cfg.rreqRateLimit ∧ dst = h.destination ∧ ¬ old.any (·.flag = .inSearch)
  | .deferredRequest d, dst, _ => n.rreqCount ≠ v.cfg.rreqRateLimit ∧ dst = d
  | .retryExpire d, dst, old => n.rreqCount ≠ v.cfg.rreqRateLimit ∧ dst = d ∧
    ∃ e, old = some e ∧ e.flag = .inSearch ∧ e.reqCount.toUInt32 ≠ v.cfg.rreqRetries
  | _, _, _ => False

/-- The entries that an event makes out of a message or for a search have `P`. -/
structure Allows (K : UInt32 → Ipv4Address → UInt32 → Prop) (P : RoutingTableEntry → Prop)
    (v : Env) (s : UInt32) (n : Node) (e : NodeEvent) : Prop where
  message : ∀ f receiver, e = .recv f receiver → Admits K P v s n f receiver
  search : ∀ dst old, Searches v n e dst old →
    (n.routingTable.purge v.now).entries.find dst = old → Found (K s) P dst old →
      P (searchEntry v dst old)

theorem deferredRouteOutput_spec {p : Packet} {h : Ipv4Header} {callbacks : ℕ} {n₀ : Node}
    (hgrow : ∀ a x, K s a x → K (s + 1) a x) (hown : Own K is) (hshift : Shifts P T)
    (he : Allows K P v s n₀ (.outbound p h callbacks)) :
    Triple (fun n => Meets K P T s is n ∧ n = n₀) (deferredRouteOutput v p h callbacks)
      fun _ => After K P T s is := by
  unfold deferredRouteOutput
  refine Triple.bind (Triple.read (Q := fun _ n => Meets K P T s is n ∧ n = n₀) fun _ h => h)
    fun n => ?_
  split
  · exact Triple.fail
  rename_i result queue dropped hq
  refine Triple.bind (Triple.write (Q := fun _ n => Meets K P T s is n ∧
    n = { n₀ with queue := queue, reported := n₀.reported ++ dropped }) ?_) fun _ => ?_
  · rintro n ⟨hn, rfl⟩
    exact ⟨⟨hn.seqNo, hn.ifaces, hn.table, hn.outbox, hn.timers⟩, rfl⟩
  split
  · refine Triple.bind (lookupRoute_at hP) fun rt => Triple.assume fun ⟨hfind, hfound⟩ => ?_
    split
    · exact Triple.ret fun _ h => .inl h.1
    · rename_i hidle
      refine (sendRequest_spec (t := n₀.routingTable.purge v.now) (c := n₀.rreqCount) hP hgrow hown
        hshift fun hlimit old hold hfound => ?_).weaken (fun n hn => ⟨hn.1, by rw [hn.2], by rw [hn.2]⟩)
          fun _ _ h => h
      rw [RoutingTable.purge_purge] at hold
      refine he.search h.destination old ⟨hlimit, rfl, ?_⟩ hold hfound
      rw [← hold]
      rw [← hfind] at hidle
      simpa using hidle
  · exact Triple.ret fun _ h => .inl h.1

theorem routeRequestTimerExpire_spec {dst : Ipv4Address} {n₀ : Node}
    (hgrow : ∀ a x, K s a x → K (s + 1) a x) (hown : Own K is) (hshift : Shifts P T)
    (hsearch : n₀.rreqCount ≠ v.cfg.rreqRateLimit → ∀ e,
      (n₀.routingTable.purge v.now).entries.find dst = some e → e.flag = .inSearch →
      e.reqCount.toUInt32 ≠ v.cfg.rreqRetries → Found (K s) P dst (some e) →
        P (searchEntry v dst (some e))) :
    Triple (fun n => Meets K P T s is n ∧ n = n₀) (routeRequestTimerExpire v dst)
      fun _ => After K P T s is := by
  unfold routeRequestTimerExpire
  refine Triple.bind (lookupRoute_at hP) fun found => Triple.assume fun ⟨hfind, _⟩ => ?_
  dsimp only
  split
  · exact sendPacketFromQueue_keeps.weaken (fun _ h => h.1) fun _ _ h => .inl h
  split
  · exact (stopSearch_keeps hP).weaken (fun _ h => h.1) fun _ _ h => .inl h
  split
  · rename_i _ hcount hflag
    refine (sendRequest_spec (t := n₀.routingTable.purge v.now) (c := n₀.rreqCount) hP hgrow hown
      hshift fun hlimit old hold hfound => ?_).weaken
        (fun n hn => ⟨hn.1, by rw [hn.2], by rw [hn.2]⟩) fun _ _ h => h
    rw [RoutingTable.purge_purge] at hold
    cases found with
    | none => cases hflag
    | some e =>
      obtain rfl : old = some e := hold.symm.trans hfind
      exact hsearch hlimit e hfind hflag hcount hfound
  · exact (stopSearch_keeps hP).weaken (fun _ h => h.1) fun _ _ h => .inl h

/-- Whatever happens at a node, it meets its contract afterwards. -/
theorem handle_spec {e : NodeEvent} {n₀ : Node} (hnear : Near P)
    (hgrow : ∀ a x, K s a x → K (s + 1) a x) (hown : Own K is) (hzero : ∀ a, K s a 0)
    (hshift : Shifts P T) (he : Allows K P v s n₀ e) :
    Triple (fun n => Meets K P T s is n ∧ n = n₀) (handle v e) fun _ => After K P T s is := by
  have hkeep : ∀ {m : Handler Unit}, Keeps K P T s is m →
      Triple (fun n => Meets K P T s is n ∧ n = n₀) m fun _ => After K P T s is :=
    fun hm => hm.weaken (fun _ h => h.1) fun _ _ h => .inl h
  cases e with
  | recv f receiver => exact recvAodv_spec hP hnear hgrow hown hzero (he.message f receiver rfl)
  | outbound p h callbacks => exact deferredRouteOutput_spec hP hgrow hown hshift he
  | deferredRequest dst =>
    unfold handle
    refine Triple.bind (Triple.read (Q := fun _ n => Meets K P T s is n ∧ n = n₀) fun _ h => h)
      fun n => ?_
    split
    · refine Triple.bind (Triple.write (Q := fun _ n => Meets K P T s is n ∧
        n.routingTable = n₀.routingTable ∧ n.rreqCount = n₀.rreqCount) ?_) fun _ => ?_
      · rintro n ⟨hn, rfl⟩
        exact ⟨⟨hn.seqNo, hn.ifaces, hn.table, hn.outbox, hn.timers⟩, rfl, rfl⟩
      · exact sendRequest_spec hP hgrow hown hshift fun hlimit old hold hfound =>
          he.search dst old ⟨hlimit, rfl⟩ hold hfound
    · exact Triple.fail
  | retryExpire dst =>
    unfold handle
    refine Triple.bind (Triple.read (Q := fun a n => (Meets K P T s is n ∧ n = n₀) ∧ a = n₀)
      fun _ h => ⟨h, h.2⟩) fun n => Triple.assume fun hn => ?_
    subst hn
    split
    · exact Triple.fail
    rename_i timer htimer
    split
    · refine Triple.bind (Triple.write (Q := fun _ n' => Meets K P T s is n' ∧
        n' = { n with addressReqTimer :=
          n.addressReqTimer.assign dst { timer with running := false } }) ?_) fun _ => ?_
      · rintro n ⟨hn, rfl⟩
        refine ⟨⟨hn.seqNo, hn.ifaces, hn.table, hn.outbox, fun d t b hd hb => ?_⟩, rfl⟩
        have hfind : (n.addressReqTimer.assign dst { timer with running := false }).find d =
            some t := hd
        rw [StdMap.find_assign] at hfind
        split at hfind
        · cases hfind
          exact hn.timers dst timer b htimer hb
        · exact hn.timers d t b hfind hb
      · exact routeRequestTimerExpire_spec hP hgrow hown hshift
          fun hlimit e hfind hflag hcount hfound =>
            he.search dst (some e) ⟨hlimit, rfl, e, rfl, hflag, hcount⟩ hfind hfound
    · exact Triple.fail
  | rreqRateLimitExpire =>
    exact hkeep (Triple.write fun _ h => ⟨h.seqNo, h.ifaces, h.table, h.outbox, h.timers⟩)
  | rerrRateLimitExpire =>
    exact hkeep (Triple.write fun _ h => ⟨h.seqNo, h.ifaces, h.table, h.outbox, h.timers⟩)
  | hello =>
    refine hkeep ?_
    show Triple _ (if _ then _ else _) _
    split
    · exact sendHello_keeps hown
    · exact Triple.fail
  | nbExpire => exact hkeep (nbPurge_keeps hP)
  | txError addrs => exact hkeep (processTxError_keeps hP)
  | routeOutput dst => exact hkeep (routeOutput_keeps hP)
  | localDelivery origin => exact hkeep (localDelivery_keeps hP)
  | broadcastDelivery origin => exact hkeep (updateRouteLifeTime_keeps hP)
  | forwarding dst origin => exact hkeep (forwarding_keeps hP)

end

/-- A step takes a node that meets its contract to one that does. -/
theorem Node.step_meets {s : UInt32} {is : List Iface} {v : Env} {n n' : Node} {e : NodeEvent}
    (hP : Lasting P) (hnear : Near P) (hgrow : ∀ a x, K s a x → K (s + 1) a x) (hown : Own K is)
    (hzero : ∀ a, K s a 0) (hshift : Shifts P T) (hn : Meets K P T s is n)
    (he : Allows K P v s n e) (hstep : n.step v e = some n') : After K P T s is n' := by
  unfold Node.step at hstep
  obtain ⟨⟨r, m⟩, hrun, rfl⟩ := Option.map_eq_some_iff.mp hstep
  exact handle_spec hP hnear hgrow hown hzero hshift he n r m ⟨hn, rfl⟩ hrun

end Ns3.Aodv
