import Ns3.Aodv.LinkBreak

/-!
# The reverse route of a request

A node that takes a route request is to hold, from then on, a valid route to the
originator through the node the request came from. The entry for the originator
goes through the rest of the handler: purges, precursors, the neighbour's own
entry (which may be the same one) and the breaks of links to neighbours that
have gone. `HasRoute` is a property of the entry for one address, and there is one
rule for each part of the handler. What is missed is the flag: an existing entry
keeps the one it had.
-/

namespace Ns3.Aodv

open Ns3.Lib
open RoutingTableEntry (blank ofRoute)

/-! ## The entry for one address -/

/-- A property that purging an entry and noting a precursor keep; a purge does not remove an entry
with the property. -/
structure Steady (v : Env) (bad : ℕ) (Q : RoutingTableEntry → Prop) : Prop where
  purge : ∀ e, Q e → ∃ e', e.purge v.now bad = some e' ∧ Q e'
  note : ∀ e id, Q e → Q (e.insertPrecursor id).settle

/-- The table is keyed by destination and has an entry with `Q` for `a`. -/
structure HasRoute (a : Ipv4Address) (bad : ℕ) (Q : RoutingTableEntry → Prop) (t : RoutingTable) :
    Prop where
  keyed : t.All fun _ => True
  bad : t.badLinkLifetime = bad
  entry : ∃ e, t.entries.find a = some e ∧ Q e

variable {v : Env} {a d g : Ipv4Address} {bad : ℕ} {Q Q' : RoutingTableEntry → Prop}
  {t : RoutingTable} {n : Node}

/-- Any property is a lasting one if it says nothing. -/
theorem lasting_true : RoutingTable.Lasting fun _ => True :=
  ⟨fun _ _ _ => trivial, fun _ _ _ => trivial, fun _ _ => trivial, fun _ _ _ => trivial⟩

theorem HasRoute.imp (h : HasRoute a bad Q t) (hQ : ∀ e, Q e → Q' e) : HasRoute a bad Q' t :=
  ⟨h.keyed, h.bad, h.entry.imp fun e he => ⟨he.1, hQ e he.2⟩⟩

/-- The first purge may turn one property into another. -/
theorem HasRoute.purged (h : HasRoute a bad Q t)
    (hpurge : ∀ e, Q e → ∃ e', e.purge v.now bad = some e' ∧ Q' e') :
    HasRoute a bad Q' (t.purge v.now) := by
  obtain ⟨e, he, hq⟩ := h.entry
  obtain ⟨e', he', hq'⟩ := hpurge e hq
  refine ⟨h.keyed.purge lasting_true, h.bad, e', ?_, hq'⟩
  rw [RoutingTable.find_purge, he, h.bad]
  exact he'

/-- A lookup of any address; what it finds for `a` has the property. -/
theorem lookupRoute_hasRoute (hpurge : ∀ e, Q e → ∃ e', e.purge v.now bad = some e' ∧ Q' e') :
    Triple (fun n => HasRoute a bad Q n.routingTable) (lookupRoute v d) fun r n =>
      HasRoute a bad Q' n.routingTable ∧ (r = none → d ≠ a) ∧
        ∀ e, r = some e → e.dst = d ∧ (d = a → Q' e) := by
  intro n r n' h hrun
  have h' : HasRoute a bad Q' (n.routingTable.purge v.now) := h.purged hpurge
  cases hrun
  refine ⟨h', fun hnone hd => ?_, fun e he => ⟨(h'.keyed d e he).1, fun hd => ?_⟩⟩
  · obtain ⟨e, he, -⟩ := h'.entry
    rw [← hd] at he
    exact absurd (hnone.symm.trans he) (Option.some_ne_none e).symm
  · obtain ⟨e', he', hq'⟩ := h'.entry
    rw [← hd] at he'
    cases Option.some.inj (he'.symm.trans he)
    exact hq'

theorem HasRoute.update {rt : RoutingTableEntry} (h : HasRoute a bad Q t)
    (hrt : rt.dst = a → Q rt.settle) : HasRoute a bad Q (t.update rt) := by
  refine ⟨h.keyed.update trivial, RoutingTable.badLinkLifetime_update.trans h.bad, ?_⟩
  obtain ⟨e, he, hq⟩ := h.entry
  cases hold : t.entries.find rt.dst with
  | none =>
    unfold RoutingTable.update
    rw [hold]
    exact ⟨e, he, hq⟩
  | some old =>
    rw [RoutingTable.find_update_old hold]
    by_cases ha : a = rt.dst
    · rw [if_pos ha]
      exact ⟨_, rfl, hrt ha.symm⟩
    · rw [if_neg ha]
      exact ⟨e, he, hq⟩

/-- A new or updated entry for another address. -/
theorem HasRoute.put_other {rt : RoutingTableEntry} (h : HasRoute a bad Q t)
    (hpurged : t.purge v.now = t) (hne : rt.dst ≠ a) :
    HasRoute a bad Q (t.update rt) ∧ HasRoute a bad Q (t.addRoute v.now rt) := by
  refine ⟨h.update fun heq => absurd heq hne, h.keyed.addRoute lasting_true trivial, h.bad, ?_⟩
  obtain ⟨e, he, hq⟩ := h.entry
  refine ⟨e, ?_, hq⟩
  show ((t.purge v.now).entries.insert rt.dst rt.settle).find a = some e
  rw [StdMap.find_insert, if_neg (Ne.symm hne), hpurged, he]

/-- `putRoute` after a lookup: the entry is there, and entries for other addresses stay. -/
theorem putRoute_run {old : Option RoutingTableEntry} (rt : RoutingTableEntry)
    (hkeyed : n.routingTable.All fun _ => True)
    (hpurged : n.routingTable.purge v.now = n.routingTable)
    (hold : n.routingTable.entries.find rt.dst = old) :
    ∃ t, putRoute v old rt n = some ((), { n with routingTable := t }) ∧
      HasRoute rt.dst n.routingTable.badLinkLifetime (fun e => e = rt.settle) t ∧
      ∀ a Q, rt.dst ≠ a → HasRoute a n.routingTable.badLinkLifetime Q n.routingTable →
        HasRoute a n.routingTable.badLinkLifetime Q t := by
  cases old with
  | none =>
    refine ⟨n.routingTable.addRoute v.now rt, rfl,
      ⟨hkeyed.addRoute lasting_true trivial, rfl, rt.settle, ?_, rfl⟩,
      fun a Q hne h => (h.put_other hpurged hne).2⟩
    rw [← hpurged] at hold
    exact (RoutingTable.find_addRoute_new hold).trans (if_pos rfl)
  | some e =>
    exact ⟨n.routingTable.update rt, rfl,
      ⟨hkeyed.update trivial, RoutingTable.badLinkLifetime_update, rt.settle,
        (RoutingTable.find_update_old hold).trans (if_pos rfl), rfl⟩,
      fun a Q hne h => (h.put_other hpurged hne).1⟩

theorem sendTo_hasRoute {iface receiver : Option Ipv4Address} {ttl : UInt8} {m : Message} :
    Triple (fun n => HasRoute a bad Q n.routingTable) (sendTo iface receiver ttl m)
      fun _ n => HasRoute a bad Q n.routingTable := by
  intro n r n' h hrun
  obtain ⟨out, hout⟩ := sendTo_run receiver ttl m (hasSocket_of_sendTo hrun)
  rw [hrun] at hout
  cases hout
  exact h

/-! ## Broken links -/

/-- What the break of the link to `g` does to the table. -/
theorem breakLink_table {n n' : Node}
    (hrun : sendRerrWhenBreaksLinkToNextHop v g n = some ((), n')) :
    n'.routingTable = n.routingTable.purge v.now ∧
        (n.routingTable.purge v.now).entries.find g = none ∨
      ∃ seqNo, n'.routingTable = (n.routingTable.purge v.now).invalidateRoutesWithDst v.now
          (((n.routingTable.purge v.now).unreachable g).insert g seqNo) ∧
        (n.routingTable.purge v.now).entries.find g ≠ none := by
  generalize ht : n.routingTable.purge v.now = t
  have hpurged : t.purge v.now = t := by rw [← ht, RoutingTable.purge_purge]
  cases hfind : t.entries.find g with
  | none =>
    rw [sendRerrWhenBreaksLinkToNextHop_unknown (ht ▸ hfind)] at hrun
    cases hrun
    exact .inl ⟨ht, rfl⟩
  | some e =>
    obtain ⟨precursors, -, hknown⟩ := sendRerrWhenBreaksLinkToNextHop_known ht hfind
    rw [hknown] at hrun
    obtain ⟨u, n₁, hsend, hinv⟩ := bind_run_inv hrun
    -- the messages leave the table as it is
    have hsame : ∀ (l : List RerrHeader) (m : Node), m.routingTable = t →
        l.forM (fun rerr => sendRerrMessage v rerr precursors) m = some (u, n₁) →
          n₁.routingTable = t := by
      intro l
      induction l with
      | nil =>
        intro m hm hrun
        cases hrun
        exact hm
      | cons rerr l ih =>
        intro m hm hrun
        obtain ⟨u', m', hone, hrest⟩ := bind_run_inv hrun
        have hmpurged : m.routingTable.purge v.now = m.routingTable := by rw [hm, hpurged]
        obtain ⟨hgood, hneed⟩ := sendRerrMessage_run hmpurged precursors rerr
        obtain ⟨m₂, hm₂, htable⟩ := hgood (hneed m' hone)
        have hone : sendRerrMessage v rerr precursors m = some ((), m') := hone
        rw [hone] at hm₂
        cases hm₂
        exact ih m' (htable.trans hm) hrest
    have htable := hsame _ _ rfl hsend
    cases hinv
    refine .inr ⟨e.seqNo, ?_, Option.some_ne_none e⟩
    show n₁.routingTable.invalidateRoutesWithDst v.now _ = _
    rw [htable]

/-- A break that the property survives. -/
theorem breakLink_hasRoute (hQ : Steady v bad Q)
    (hbreak : ∀ e, Q e → a = g ∨ e.nextHop = g → e.flag = .valid → Q (e.invalidate v.now bad)) :
    Triple (fun n => HasRoute a bad Q n.routingTable) (sendRerrWhenBreaksLinkToNextHop v g)
      fun _ n => HasRoute a bad Q n.routingTable := by
  intro n r n' h hrun
  have hpurged : HasRoute a bad Q (n.routingTable.purge v.now) := h.purged hQ.purge
  rcases breakLink_table hrun with ⟨htable, -⟩ | ⟨seqNo, htable, -⟩
  · rw [htable]
    exact hpurged
  · obtain ⟨e, he, hq⟩ := hpurged.entry
    rw [htable]
    refine ⟨hpurged.keyed.invalidateRoutesWithDst lasting_true, hpurged.bad, ?_⟩
    rw [find_invalidated RoutingTable.purge_purge, he, Option.map_some]
    refine ⟨_, rfl, ?_⟩
    split
    · rename_i hhit
      have hbad : (n.routingTable.purge v.now).badLinkLifetime = bad := h.bad
      rw [hbad]
      refine hbreak e hq (hhit.1.imp_right ?_) hhit.2
      rintro ⟨e', he', hhop⟩
      cases Option.some.inj (he.symm.trans he')
      exact hhop
    · exact hq

/-- The neighbours that `Neighbors::Update` for `src` finds gone: it purges only when the neighbour
is new. -/
def goneNeighbors (v : Env) (nb : List Neighbor) (src : Ipv4Address) (expire : ℤ) : List Neighbor :=
  if ∃ m ∈ nb, m.addr = src then []
  else (nb ++ [Neighbor.mk src (expire + v.now) false]).filter fun m => m.Gone v

/-- `Neighbors::Update` breaks the links to the neighbours that are gone, and no others. -/
theorem nbUpdate_rule {P R : RoutingTable → Prop} {nb : List Neighbor} {src : Ipv4Address}
    {expire : ℤ} (hbreaks : Triple (fun n => P n.routingTable)
      ((goneNeighbors v nb src expire).forM fun m => sendRerrWhenBreaksLinkToNextHop v m.addr)
      fun _ n => R n.routingTable) :
    Triple (fun n => P n.routingTable ∧ n.nb = nb) (nbUpdate v src expire)
      fun _ n => R n.routingTable := by
  rintro n r n' ⟨hP, rfl⟩ hrun
  unfold goneNeighbors at hbreaks
  change (if ∃ m ∈ n.nb, m.addr = src then _ else _ : Handler Unit) n = _ at hrun
  split at hrun
  · rename_i hknown
    rw [if_pos hknown] at hbreaks
    have hR : R n.routingTable := hbreaks n PUnit.unit n hP rfl
    cases hrun
    exact hR
  · rename_i hnew
    rw [if_neg hnew] at hbreaks
    obtain ⟨u, n₁, hmod, hpurge⟩ := bind_run_inv hrun
    cases hmod
    obtain ⟨u', n₂, hget, hrest⟩ := bind_run_inv hpurge
    cases hget
    obtain ⟨u'', n₃, hloop, hend⟩ := bind_run_inv hrest
    have hR : R n₃.routingTable := hbreaks _ u'' n₃ (by exact hP) hloop
    cases hend
    exact hR

/-! ## The rest of the handler -/

theorem sendReply_hasRoute {h : RreqHeader} {toOrigin : RoutingTableEntry} :
    Triple (fun n => HasRoute a bad Q n.routingTable) (sendReply v h toOrigin)
      fun _ n => HasRoute a bad Q n.routingTable := by
  unfold sendReply
  refine Triple.bind (Triple.write (Q := fun _ n => HasRoute a bad Q n.routingTable) ?_) fun _ => ?_
  · intro n hn
    split <;> exact hn
  · refine Triple.bind (Triple.read (Q := fun _ n => HasRoute a bad Q n.routingTable) fun _ hn => hn)
      fun n => ?_
    exact sendTo_hasRoute

theorem forwardRequest_hasRoute {h : RreqHeader} {ttl : UInt8} :
    Triple (fun n => HasRoute a bad Q n.routingTable) (forwardRequest h ttl)
      fun _ n => HasRoute a bad Q n.routingTable := by
  unfold forwardRequest
  split
  · exact Triple.ret fun _ hn => hn
  · exact Triple.write fun _ hn => hn

/-- Noting a precursor of an entry that was looked up. -/
theorem update_hasRoute (hQ : Steady v bad Q) {e : RoutingTableEntry} {id : Ipv4Address}
    (he : e.dst = a → Q e) :
    Triple (fun n => HasRoute a bad Q n.routingTable) (update (e.insertPrecursor id))
      fun _ n => HasRoute a bad Q n.routingTable :=
  Triple.write fun _ hn => hn.update fun hdst =>
    hQ.note e id (he (RoutingTable.dst_insertPrecursor.symm.trans hdst))

theorem sendReplyByIntermediateNode_hasRoute (hQ : Steady v bad Q)
    {toDst toOrigin : RoutingTableEntry} {gratRep : Bool} (hdst : toDst.dst = a → Q toDst)
    (horigin : toOrigin.dst = a → Q toOrigin) :
    Triple (fun n => HasRoute a bad Q n.routingTable)
      (sendReplyByIntermediateNode v toDst toOrigin gratRep)
      fun _ n => HasRoute a bad Q n.routingTable := by
  unfold sendReplyByIntermediateNode
  refine Triple.bind (Q := fun _ n => HasRoute a bad Q n.routingTable) ?_ fun _ => ?_
  · unfold awaitAck
    split
    · exact Triple.bind (lookupRoute_hasRoute hQ.purge) fun _ => Triple.ret fun _ hn => hn.1
    · exact Triple.ret fun _ hn => hn
  refine Triple.bind (update_hasRoute hQ hdst) fun _ => ?_
  refine Triple.bind (update_hasRoute hQ horigin) fun _ => ?_
  refine Triple.bind sendTo_hasRoute fun _ => ?_
  split
  · exact sendTo_hasRoute
  · exact Triple.ret fun _ hn => hn

/-- What `RecvRequest` does once the neighbour is known begins with a lookup, so that an entry is
purged before the end. -/
theorem answer_hasRoute (hQ' : Steady v bad Q')
    (hpurge : ∀ e, Q e → ∃ e', e.purge v.now bad = some e' ∧ Q' e') {h : RreqHeader} {ttl : UInt8}
    {src : Ipv4Address} {toOrigin : RoutingTableEntry} :
    Triple (fun n => HasRoute h.origin bad Q n.routingTable) (do
      let n ← get
      if n.owns h.dst then
        let found ← lookupRoute v h.origin
        sendReply v h (found.getD toOrigin)
      else relayRequest v h ttl src toOrigin)
      fun _ n => HasRoute h.origin bad Q' n.routingTable := by
  refine Triple.bind (Triple.read (Q := fun _ n => HasRoute h.origin bad Q n.routingTable)
    fun _ hn => hn) fun n => ?_
  split
  · refine Triple.bind (lookupRoute_hasRoute hpurge) fun found => ?_
    exact sendReply_hasRoute.weaken (fun _ hn => hn.1) fun _ _ hn => hn
  unfold relayRequest
  refine Triple.bind (lookupRoute_hasRoute hpurge) fun r => Triple.assume fun ⟨hmiss, hfound⟩ => ?_
  cases r with
  | none => exact forwardRequest_hasRoute
  | some toDst =>
    obtain ⟨hdst, hq⟩ := hfound toDst rfl
    dsimp only
    split
    · exact Triple.ret fun _ hn => hn
    split
    · split
      · refine Triple.bind (lookupRoute_hasRoute hQ'.purge) fun r' =>
          Triple.assume fun ⟨hmiss', hfound'⟩ => ?_
        cases r' with
        | none => exact absurd rfl (hmiss' rfl)
        | some e =>
          exact sendReplyByIntermediateNode_hasRoute hQ' (fun ha => hq (hdst.symm.trans ha))
            fun _ => (hfound' e rfl).2 rfl
      · exact forwardRequest_hasRoute
    · exact forwardRequest_hasRoute

/-! ## A route that a reply can travel -/

/-- A valid route through `src`, one hop longer than the request's, with a sequence number that the
originator's is not ahead of. -/
structure Returns (h : RreqHeader) (src : Ipv4Address) (e : RoutingTableEntry) : Prop where
  flag : e.flag = .valid
  nextHop : e.nextHop = src
  hops : e.hops.toNat = h.hopCount.toNat + 1
  seqNo : ¬ 0 < seqDiff h.originSeqno e.seqNo

/-- No purge removes the entry. -/
def Stays (v : Env) (e : RoutingTableEntry) : Prop := e.flag = .invalid → v.now ≤ e.lifeTime

/-- The route is there and does not expire now. -/
def FreshReturn (v : Env) (h : RreqHeader) (src : Ipv4Address) (e : RoutingTableEntry) : Prop :=
  Returns h src e ∧ v.now ≤ e.lifeTime

/-- The route is not there, or the next purge will take it. -/
def DoomedReturn (v : Env) (h : RreqHeader) (src : Ipv4Address) (e : RoutingTableEntry) : Prop :=
  (Returns h src e → e.lifeTime < v.now) ∧ Stays v e

def LostReturn (v : Env) (h : RreqHeader) (src : Ipv4Address) (e : RoutingTableEntry) : Prop :=
  ¬ Returns h src e ∧ Stays v e

variable {h : RreqHeader} {src : Ipv4Address} {e : RoutingTableEntry} {id : Ipv4Address}

/-- Noting a precursor changes nothing that matters to a route. -/
theorem noted_fields (e : RoutingTableEntry) (id : Ipv4Address) :
    (e.insertPrecursor id).settle.flag = e.flag ∧
    (e.insertPrecursor id).settle.nextHop = e.nextHop ∧
    (e.insertPrecursor id).settle.hops = e.hops ∧
    (e.insertPrecursor id).settle.seqNo = e.seqNo ∧
    (e.insertPrecursor id).settle.lifeTime = e.lifeTime := by
  unfold RoutingTableEntry.insertPrecursor RoutingTableEntry.settle
  split_ifs <;> exact ⟨rfl, rfl, rfl, rfl, rfl⟩

theorem returns_noted : Returns h src (e.insertPrecursor id).settle ↔ Returns h src e := by
  obtain ⟨hflag, hhop, hhops, hseq, -⟩ := noted_fields e id
  constructor
  · rintro ⟨h₁, h₂, h₃, h₄⟩
    rw [hflag] at h₁
    rw [hhop] at h₂
    rw [hhops] at h₃
    rw [hseq] at h₄
    exact ⟨h₁, h₂, h₃, h₄⟩
  · rintro ⟨h₁, h₂, h₃, h₄⟩
    exact ⟨hflag.trans h₁, hhop.trans h₂, by rw [hhops]; exact h₃, by rw [hseq]; exact h₄⟩

theorem stays_noted (hstays : Stays v e) : Stays v (e.insertPrecursor id).settle := by
  obtain ⟨hflag, -, -, -, hlife⟩ := noted_fields e id
  unfold Stays
  rw [hflag, hlife]
  exact hstays

theorem not_returns_of_invalidate {l : ℤ} : ¬ Returns h src (e.invalidate v.now l) := fun hr => by
  have hflag := hr.flag
  rw [RoutingTable.flag_invalidate] at hflag
  cases hflag

theorem stays_invalidate (hvalid : e.flag = .valid) : Stays v (e.invalidate v.now bad) := by
  intro _
  unfold RoutingTableEntry.invalidate
  rw [hvalid]
  show (v.now : ℤ) ≤ bad + v.now
  omega

/-- A purge leaves a lasting entry as it is, or makes an expired valid one invalid. -/
theorem Stays.purge (bad : ℕ) (hstays : Stays v e) : e.purge v.now bad = some e ∨
    e.flag = .valid ∧ e.purge v.now bad = some (e.invalidate v.now bad) := by
  unfold RoutingTableEntry.purge RoutingTableEntry.getLifeTime
  split
  · rename_i hexpired
    cases hflag : e.flag with
    | valid => exact .inr ⟨rfl, rfl⟩
    | invalid =>
      have hle := hstays hflag
      omega
    | inSearch => exact .inl rfl
  · exact .inl rfl

theorem purge_live (hlive : v.now ≤ e.lifeTime) : e.purge v.now bad = some e := by
  unfold RoutingTableEntry.purge RoutingTableEntry.getLifeTime
  rw [if_neg (by omega)]

theorem stays_steady : Steady v bad (Stays v) where
  purge e hs := by
    rcases hs.purge bad with hp | ⟨hvalid, hp⟩
    · exact ⟨e, hp, hs⟩
    · exact ⟨_, hp, stays_invalidate hvalid⟩
  note e id hs := stays_noted hs

theorem fresh_steady : Steady v bad (FreshReturn v h src) where
  purge e he := ⟨e, purge_live he.2, he⟩
  note e id he := ⟨returns_noted.mpr he.1, by rw [(noted_fields e id).2.2.2.2]; exact he.2⟩

theorem lost_steady : Steady v bad (LostReturn v h src) where
  purge e he := by
    rcases he.2.purge bad with hp | ⟨hvalid, hp⟩
    · exact ⟨e, hp, he⟩
    · exact ⟨_, hp, not_returns_of_invalidate, stays_invalidate hvalid⟩
  note e id he := ⟨fun hr => he.1 (returns_noted.mp hr), stays_noted he.2⟩

/-- The next purge takes a doomed route. -/
theorem DoomedReturn.purge (bad : ℕ) (he : DoomedReturn v h src e) :
    ∃ e', e.purge v.now bad = some e' ∧ LostReturn v h src e' := by
  rcases he.2.purge bad with hp | ⟨hvalid, hp⟩
  · refine ⟨e, hp, fun hr => ?_, he.2⟩
    have hlt := he.1 hr
    unfold RoutingTableEntry.purge RoutingTableEntry.getLifeTime at hp
    rw [if_pos (by omega), hr.flag] at hp
    have hflag := congrArg RoutingTableEntry.flag (Option.some.inj hp)
    rw [RoutingTable.flag_invalidate, hr.flag] at hflag
    cases hflag
  · exact ⟨_, hp, not_returns_of_invalidate, stays_invalidate hvalid⟩

theorem LostReturn.doomed (he : LostReturn v h src e) : DoomedReturn v h src e :=
  ⟨fun hr => absurd hr he.1, he.2⟩

theorem doomed_steady : Steady v bad (DoomedReturn v h src) where
  purge e he := by
    obtain ⟨e', hp, hlost⟩ := he.purge bad
    exact ⟨e', hp, hlost.doomed⟩
  note e id he :=
    ⟨fun hr => by rw [(noted_fields e id).2.2.2.2]; exact he.1 (returns_noted.mp hr), stays_noted he.2⟩

/-! ## The neighbours -/

/-- While the links that break are others, a fresh route stays. -/
theorem nbUpdate_fresh {nb : List Neighbor} {expire : ℤ}
    (hclear : ∀ m ∈ goneNeighbors v nb src expire, m.addr ≠ a ∧ m.addr ≠ src) :
    Triple (fun n => HasRoute a bad (FreshReturn v h src) n.routingTable ∧ n.nb = nb)
      (nbUpdate v src expire) fun _ n => HasRoute a bad (FreshReturn v h src) n.routingTable := by
  refine nbUpdate_rule (Triple.forM_mem fun m hm => ?_)
  obtain ⟨horigin, hsrc⟩ := hclear m hm
  refine breakLink_hasRoute fresh_steady fun e he hhit _ => ?_
  rcases hhit with heq | hhop
  · exact absurd heq.symm horigin
  · exact absurd (hhop.symm.trans he.1.nextHop) hsrc

theorem nbUpdate_doomed {nb : List Neighbor} {expire : ℤ} :
    Triple (fun n => HasRoute a bad (DoomedReturn v h src) n.routingTable ∧ n.nb = nb)
      (nbUpdate v src expire) fun _ n => HasRoute a bad (DoomedReturn v h src) n.routingTable := by
  refine nbUpdate_rule (Triple.forM_mem fun m _ => ?_)
  exact breakLink_hasRoute doomed_steady fun e _ _ hvalid =>
    ⟨fun hr => absurd hr not_returns_of_invalidate, stays_invalidate hvalid⟩

/-- The break of a link to the originator or to the neighbour itself. -/
theorem breakLink_loses (hg : g = a ∨ g = src) :
    Triple (fun n => HasRoute a bad (FreshReturn v h src) n.routingTable ∧
      HasRoute src bad (Stays v) n.routingTable) (sendRerrWhenBreaksLinkToNextHop v g)
      fun _ n => HasRoute a bad (DoomedReturn v h src) n.routingTable := by
  rintro n r n' ⟨hfresh, hsrc⟩ hrun
  have hfresh : HasRoute a bad (FreshReturn v h src) (n.routingTable.purge v.now) :=
    hfresh.purged fresh_steady.purge
  obtain ⟨e', he', -⟩ := (hsrc.purged stays_steady.purge (v := v)).entry
  obtain ⟨e, he, hreturn, -⟩ := hfresh.entry
  rcases breakLink_table hrun with ⟨-, hnone⟩ | ⟨seqNo, htable, -⟩
  · rcases hg with rfl | rfl
    · exact absurd (he.symm.trans hnone) (Option.some_ne_none e)
    · exact absurd (he'.symm.trans hnone) (Option.some_ne_none e')
  · rw [htable]
    refine ⟨hfresh.keyed.invalidateRoutesWithDst lasting_true, hfresh.bad, ?_⟩
    rw [find_invalidated RoutingTable.purge_purge, he, Option.map_some, if_pos]
    · exact ⟨_, rfl, fun hr => absurd hr not_returns_of_invalidate, stays_invalidate hreturn.flag⟩
    · refine ⟨?_, hreturn.flag⟩
      rcases hg with rfl | rfl
      · exact .inl rfl
      · exact .inr ⟨e, he, hreturn.nextHop⟩

theorem nbUpdate_loses {nb : List Neighbor} {expire : ℤ}
    (hhit : ∃ m ∈ goneNeighbors v nb src expire, m.addr = a ∨ m.addr = src) :
    Triple (fun n => (HasRoute a bad (FreshReturn v h src) n.routingTable ∧
        HasRoute src bad (Stays v) n.routingTable) ∧ n.nb = nb)
      (nbUpdate v src expire) fun _ n => HasRoute a bad (DoomedReturn v h src) n.routingTable := by
  refine nbUpdate_rule (P := fun t => HasRoute a bad (FreshReturn v h src) t ∧
    HasRoute src bad (Stays v) t) ?_
  revert hhit
  induction goneNeighbors v nb src expire with
  | nil => simp
  | cons m l ih =>
    intro hhit
    by_cases hm : m.addr = a ∨ m.addr = src
    · refine Triple.bind (breakLink_loses hm) fun _ => Triple.forM_mem fun m' _ => ?_
      exact breakLink_hasRoute doomed_steady fun e _ _ hvalid =>
        ⟨fun hr => absurd hr not_returns_of_invalidate, stays_invalidate hvalid⟩
    · -- another link breaks first
      have hrest : ∃ m' ∈ l, m'.addr = a ∨ m'.addr = src := by
        obtain ⟨m', hm', hor⟩ := hhit
        rcases List.mem_cons.mp hm' with rfl | hm'
        · exact absurd hor hm
        · exact ⟨m', hm', hor⟩
      refine Triple.bind (Triple.both ?_ ?_) fun _ => ih hrest
      · refine breakLink_hasRoute fresh_steady fun e he hbroken _ => ?_
        rcases hbroken with heq | hhop
        · exact absurd (.inl heq.symm) hm
        · exact absurd (.inr (hhop.symm.trans he.1.nextHop)) hm
      · exact breakLink_hasRoute stays_steady fun e _ _ hvalid => stays_invalidate hvalid

/-! ## The entries a request leaves -/

/-- The table found by the request allows a reverse route: the request comes straight from the
originator, or the originator has a valid entry, or none. -/
def Returnable (v : Env) (t : RoutingTable) (h : RreqHeader) (src : Ipv4Address) : Prop :=
  if src = h.origin then h.hopCount = 0 ∧ 0 ≤ v.cfg.activeRouteTimeout
  else h.hopCount ≠ 255 ∧ match t.entries.find h.origin with
    | none => 0 ≤ reverseLifeTime v (h.hopCount + 1)
    | some e => e.flag = .valid

theorem hops_succ_iff {c : UInt8} : (c + 1).toUInt16.toNat = c.toNat + 1 ↔ c ≠ 255 := by
  rw [UInt8.toNat_toUInt16, UInt8.toNat_add, ne_eq, ← UInt8.toNat_inj]
  have hc := c.toNat_lt
  show (c.toNat + 1) % 256 = c.toNat + 1 ↔ ¬ c.toNat = 255
  omega

theorem seqDiff_self (x : UInt32) : ¬ 0 < seqDiff x x := by
  unfold seqDiff
  rw [Int32.sub_self]
  decide

/-- The number of the reverse route is the later one. -/
theorem seqNo_reverseEntry {receiver : Ipv4Address} {old : Option RoutingTableEntry} :
    ¬ 0 < seqDiff h.originSeqno
      (reverseEntry v { h with hopCount := h.hopCount + 1 } (h.hopCount + 1) receiver src
        old).seqNo := by
  cases old with
  | none => exact seqDiff_self _
  | some e =>
    have hseq : (reverseEntry v { h with hopCount := h.hopCount + 1 } (h.hopCount + 1) receiver src
      (some e)).seqNo = if e.validSeqNo ∧ ¬ 0 < seqDiff h.originSeqno e.seqNo then e.seqNo
        else h.originSeqno := rfl
    rw [hseq]
    by_cases hlater : e.validSeqNo ∧ ¬ 0 < seqDiff h.originSeqno e.seqNo
    · rw [if_pos hlater]
      exact hlater.2
    · rw [if_neg hlater]
      exact seqDiff_self _

/-- Settling an entry touches its count alone. -/
theorem returns_settle : Returns h src e.settle ↔ Returns h src e := by
  unfold RoutingTableEntry.settle
  split
  · exact Iff.rfl
  · exact ⟨fun ⟨h₁, h₂, h₃, h₄⟩ => ⟨h₁, h₂, h₃, h₄⟩, fun ⟨h₁, h₂, h₃, h₄⟩ => ⟨h₁, h₂, h₃, h₄⟩⟩

theorem lifeTime_settle : e.settle.lifeTime = e.lifeTime := by
  unfold RoutingTableEntry.settle
  split <;> rfl

theorem flag_settle : e.settle.flag = e.flag := by
  unfold RoutingTableEntry.settle
  split <;> rfl

/-- What a purge has left is alive, unless it is searched for. -/
theorem live_of_purged {l : ℤ} (hp : e.purge v.now l = some e) (hflag : e.flag ≠ .inSearch) :
    v.now ≤ e.lifeTime := by
  by_contra hlt
  unfold RoutingTableEntry.purge RoutingTableEntry.getLifeTime at hp
  rw [if_pos (by omega)] at hp
  cases hf : e.flag with
  | valid =>
    rw [hf] at hp
    have hf' := congrArg RoutingTableEntry.flag (Option.some.inj hp)
    rw [RoutingTable.flag_invalidate, hf] at hf'
    cases hf'
  | invalid =>
    rw [hf] at hp
    cases hp
  | inSearch => exact hflag hf

/-- The entry put in for the originator, if it is not the neighbour. -/
theorem reverseEntry_returns (h : RreqHeader) (receiver : Ipv4Address) (hpurged : t.purge v.now = t)
    (hsrc : src ≠ h.origin) :
    (Returnable v t h src → FreshReturn v h src
        (reverseEntry v { h with hopCount := h.hopCount + 1 } (h.hopCount + 1) receiver src
          (t.entries.find h.origin)).settle) ∧
      (¬ Returnable v t h src → DoomedReturn v h src
        (reverseEntry v { h with hopCount := h.hopCount + 1 } (h.hopCount + 1) receiver src
          (t.entries.find h.origin)).settle) := by
  have hseq : ¬ 0 < seqDiff h.originSeqno (reverseEntry v { h with hopCount := h.hopCount + 1 }
    (h.hopCount + 1) receiver src (t.entries.find h.origin)).seqNo := seqNo_reverseEntry
  unfold Returnable FreshReturn DoomedReturn Stays
  rw [if_neg hsrc, returns_settle, lifeTime_settle, flag_settle]
  revert hseq
  cases hold : t.entries.find h.origin with
  | none =>
    intro hseq
    refine ⟨fun ⟨hhop, hlife⟩ => ⟨⟨rfl, rfl, hops_succ_iff.mpr hhop, hseq⟩, ?_⟩,
      fun hnot => ⟨fun hr => ?_, fun hflag => by cases hflag⟩⟩
    · show (v.now : ℤ) ≤ reverseLifeTime v (h.hopCount + 1) + v.now
      omega
    · have hhop := hops_succ_iff.mp hr.hops
      show reverseLifeTime v (h.hopCount + 1) + v.now < v.now
      have hneg : ¬ 0 ≤ reverseLifeTime v (h.hopCount + 1) := fun hle => hnot ⟨hhop, hle⟩
      omega
  | some e =>
    intro hseq
    have hp : e.purge v.now t.badLinkLifetime = some e := by
      have hfind : (t.purge v.now).entries.find h.origin = _ := RoutingTable.find_purge
      rw [hpurged, hold] at hfind
      exact hfind.symm
    have hlife : e.flag ≠ .inSearch → (v.now : ℤ) ≤
        max (reverseLifeTime v (h.hopCount + 1)) (e.getLifeTime v.now) + v.now := by
      intro hflag
      have hle := live_of_purged hp hflag
      have hmax := le_max_right (reverseLifeTime v (h.hopCount + 1)) (e.getLifeTime v.now)
      unfold RoutingTableEntry.getLifeTime at hmax ⊢
      omega
    refine ⟨fun ⟨hhop, hflag⟩ => ⟨⟨hflag, rfl, hops_succ_iff.mpr hhop, hseq⟩, ?_⟩,
      fun hnot => ⟨fun hr => ?_, fun hflag => ?_⟩⟩
    · exact hlife (by rw [hflag]; decide)
    · exact absurd ⟨hops_succ_iff.mp hr.hops, hr.flag⟩ hnot
    · have hflag : e.flag = .invalid := hflag
      exact hlife (by rw [hflag]; decide)

/-- The entry for the neighbour itself. -/
theorem previousEntry_fields (v : Env) (h : RreqHeader) (receiver : Ipv4Address)
    {prev : Option RoutingTableEntry} (hprev : ∀ e, prev = some e → e.dst = src) :
    (previousEntry v h receiver src prev).dst = src ∧
      (previousEntry v h receiver src prev).settle.flag = .valid ∧
      (previousEntry v h receiver src prev).settle.nextHop = src ∧
      (previousEntry v h receiver src prev).settle.hops = 1 ∧
      (previousEntry v h receiver src prev).settle.seqNo = h.originSeqno ∧
      (previousEntry v h receiver src prev).settle.lifeTime = v.cfg.activeRouteTimeout + v.now := by
  cases prev with
  | none => exact ⟨rfl, rfl, rfl, rfl, rfl, rfl⟩
  | some e => exact ⟨hprev e rfl, rfl, rfl, rfl, rfl, rfl⟩

/-- It is a reverse route when the request comes straight from its originator. -/
theorem previousEntry_returns {receiver : Ipv4Address} {prev : Option RoutingTableEntry}
    (hprev : ∀ e, prev = some e → e.dst = src) (hsrc : src = h.origin) :
    (Returnable v t h src → FreshReturn v h src (previousEntry v h receiver src prev).settle) ∧
      (¬ Returnable v t h src →
        DoomedReturn v h src (previousEntry v h receiver src prev).settle) := by
  obtain ⟨-, hflag, hhop, hhops, hseq, hlife⟩ := previousEntry_fields v h receiver hprev
  unfold Returnable FreshReturn DoomedReturn Stays
  rw [if_pos hsrc, hlife, hflag]
  refine ⟨fun ⟨hzero, hart⟩ => ⟨⟨hflag, hhop, ?_, ?_⟩, by omega⟩, fun hnot => ⟨fun hr => ?_, ?_⟩⟩
  · rw [hhops, hzero]
    rfl
  · rw [hseq]
    exact seqDiff_self _
  · have hone := hr.hops
    rw [hhops] at hone
    have hzero : h.hopCount = 0 := by
      rw [← UInt8.toNat_inj]
      have hone : 1 = h.hopCount.toNat + 1 := hone
      show h.hopCount.toNat = 0
      omega
    have hneg : ¬ 0 ≤ v.cfg.activeRouteTimeout := fun hle => hnot ⟨hzero, hle⟩
    omega
  · intro hinvalid
    cases hinvalid

/-- The run up to the neighbour's update: the entries there are for the originator and for the
neighbour. -/
theorem takeRequest_routes (h : RreqHeader) (ttl : UInt8) (receiver src : Ipv4Address)
    (hkeyed : n.routingTable.All fun _ => True)
    (hpurged : n.routingTable.purge v.now = n.routingTable) :
    ∃ t toOrigin, takeRequest v h ttl receiver src n =
        (do
          nbUpdate v src (v.cfg.allowedHelloLoss.toNat * v.cfg.helloInterval)
          let n ← get
          if n.owns h.dst then
            let found ← lookupRoute v h.origin
            sendReply v { h with hopCount := h.hopCount + 1 } (found.getD toOrigin)
          else relayRequest v { h with hopCount := h.hopCount + 1 } ttl src toOrigin)
          { n with routingTable := t } ∧
      (Returnable v n.routingTable h src →
        HasRoute h.origin n.routingTable.badLinkLifetime (FreshReturn v h src) t) ∧
      (¬ Returnable v n.routingTable h src →
        HasRoute h.origin n.routingTable.badLinkLifetime (DoomedReturn v h src) t) ∧
      HasRoute src n.routingTable.badLinkLifetime (Stays v) t := by
  have hreverse := fun hsrc : src ≠ h.origin => reverseEntry_returns h receiver hpurged hsrc
  generalize hR : reverseEntry v { h with hopCount := h.hopCount + 1 } (h.hopCount + 1) receiver src
    (n.routingTable.entries.find h.origin) = R at hreverse
  have hdst : R.dst = h.origin := by
    rw [← hR]
    cases hfind : n.routingTable.entries.find h.origin with
    | none => rfl
    | some e => exact (hkeyed h.origin e hfind).1
  -- the originator's entry
  obtain ⟨t₁, hput₁, hself₁, -⟩ := putRoute_run R hkeyed hpurged (congrArg _ hdst)
  rw [hdst] at hself₁
  obtain ⟨hkeyed₂, hbad₂⟩ : (t₁.purge v.now).All (fun _ => True) ∧
      (t₁.purge v.now).badLinkLifetime = n.routingTable.badLinkLifetime :=
    ⟨hself₁.keyed.purge lasting_true, hself₁.bad⟩
  -- the neighbour's entry
  have hprev : ∀ e, (t₁.purge v.now).entries.find src = some e → e.dst = src :=
    fun e he => (hkeyed₂ src e he).1
  obtain ⟨hpdst, hpflag, -⟩ := previousEntry_fields v h receiver hprev
  obtain ⟨t₃, hput₃, hself₃, hother₃⟩ := putRoute_run
    (n := { n with routingTable := t₁.purge v.now })
    (previousEntry v h receiver src ((t₁.purge v.now).entries.find src)) hkeyed₂
    RoutingTable.purge_purge (congrArg _ hpdst)
  rw [hpdst] at hself₃ hother₃
  have hself₃ : HasRoute src n.routingTable.badLinkLifetime (fun e => e = _) t₃ := hbad₂ ▸ hself₃
  refine ⟨t₃, localOrigin v { h with hopCount := h.hopCount + 1 } (h.hopCount + 1) receiver src
    (n.routingTable.entries.find h.origin), ?_, ?_, ?_, ?_⟩
  · refine (bind_run (lookupRoute_purged hpurged h.origin)).trans ?_
    rw [hR]
    refine (bind_run hput₁).trans ?_
    have hlookup : lookupRoute v src { n with routingTable := t₁ } =
      some ((t₁.purge v.now).entries.find src, { n with routingTable := t₁.purge v.now }) := rfl
    exact (bind_run hlookup).trans (bind_run hput₃)
  · intro hok
    by_cases hsrc : src = h.origin
    · rw [← hsrc]
      exact hself₃.imp fun e he => he ▸ (previousEntry_returns hprev hsrc).1 hok
    · have hfresh : HasRoute h.origin n.routingTable.badLinkLifetime (FreshReturn v h src) t₁ :=
        hself₁.imp fun e he => he ▸ (hreverse hsrc).1 hok
      have hkept := hother₃ h.origin (FreshReturn v h src) hsrc
        (by rw [hbad₂]; exact hfresh.purged fresh_steady.purge)
      exact hbad₂ ▸ hkept
  · intro hnot
    by_cases hsrc : src = h.origin
    · rw [← hsrc]
      exact hself₃.imp fun e he => he ▸ (previousEntry_returns hprev hsrc).2 hnot
    · have hdoomed : HasRoute h.origin n.routingTable.badLinkLifetime (DoomedReturn v h src) t₁ :=
        hself₁.imp fun e he => he ▸ (hreverse hsrc).2 hnot
      have hkept := hother₃ h.origin (DoomedReturn v h src) hsrc
        (by rw [hbad₂]; exact hdoomed.purged doomed_steady.purge)
      exact hbad₂ ▸ hkept
  · refine hself₃.imp fun e he hinvalid => ?_
    rw [he, hpflag] at hinvalid
    cases hinvalid

/-- The links that break while the request is taken spare the originator and the neighbour. -/
def LinksSpared (v : Env) (nb : List Neighbor) (h : RreqHeader) (src : Ipv4Address) : Prop :=
  ∀ m ∈ goneNeighbors v nb src (v.cfg.allowedHelloLoss.toNat * v.cfg.helloInterval),
    m.addr ≠ h.origin ∧ m.addr ≠ src

theorem takeRequest_returns_iff {ttl : UInt8} {receiver : Ipv4Address} {n' : Node}
    (hkeyed : n.routingTable.All fun _ => True)
    (hpurged : n.routingTable.purge v.now = n.routingTable)
    (hrun : takeRequest v h ttl receiver src n = some ((), n')) :
    (∃ e, n'.routingTable.entries.find h.origin = some e ∧ Returns h src e) ↔
      Returnable v n.routingTable h src ∧ LinksSpared v n.nb h src := by
  obtain ⟨t, toOrigin, htake, hfresh, hdoomed, hsrc⟩ :=
    takeRequest_routes h ttl receiver src hkeyed hpurged
  rw [htake] at hrun
  obtain ⟨u, n₁, hupdate, hanswer⟩ := bind_run_inv hrun
  -- a route that is lost stays lost
  have hlose : HasRoute h.origin n.routingTable.badLinkLifetime (DoomedReturn v h src)
      n₁.routingTable →
      ¬ ∃ e, n'.routingTable.entries.find h.origin = some e ∧ Returns h src e := by
    rintro hdoomed ⟨e, he, hreturn⟩
    obtain ⟨e', he', hlost⟩ := (answer_hasRoute (h := { h with hopCount := h.hopCount + 1 })
      lost_steady (fun e he => he.purge _) n₁ _ n' hdoomed hanswer).entry
    have he' : n'.routingTable.entries.find h.origin = some e' := he'
    cases Option.some.inj (he.symm.trans he')
    exact hlost.1 hreturn
  constructor
  · intro hreturn
    have hok : Returnable v n.routingTable h src := by_contra fun hnot =>
      hlose (nbUpdate_doomed { n with routingTable := t } u n₁ ⟨hdoomed hnot, rfl⟩ hupdate) hreturn
    refine ⟨hok, fun m hm => ?_⟩
    by_contra hhit
    refine hlose (nbUpdate_loses ⟨m, hm, ?_⟩ { n with routingTable := t } u n₁
      ⟨⟨hfresh hok, hsrc⟩, rfl⟩ hupdate) hreturn
    by_contra hspared
    exact hhit (not_or.mp hspared)
  · rintro ⟨hok, hspared⟩
    have hroute := nbUpdate_fresh hspared { n with routingTable := t } u n₁ ⟨hfresh hok, rfl⟩ hupdate
    obtain ⟨e, he, hreturn⟩ := (answer_hasRoute (h := { h with hopCount := h.hopCount + 1 })
      fresh_steady fresh_steady.purge n₁ _ n' hroute hanswer).entry
    exact ⟨e, he, hreturn.1⟩

/-- A request that is neither from the blacklist nor a duplicate leaves the route that its reply
needs exactly when the originator's entry was valid or absent (or is the neighbour's own), the hop
count does not wrap, and no link to either of them breaks on the way. -/
theorem recvRequest_returns_iff {ttl : UInt8} {receiver : Ipv4Address} {n' : Node}
    (hkeyed : n.routingTable.All fun _ => True)
    (hlisted : ((n.routingTable.purge v.now).entries.find src).any (·.blackListState) = false)
    (hdup : (n.rreqIdCache.isDuplicate v.now h.origin h.id).1 = false)
    (hrun : recvRequest v h ttl receiver src n = some ((), n')) :
    (∃ e, n'.routingTable.entries.find h.origin = some e ∧ Returns h src e) ↔
      Returnable v (n.routingTable.purge v.now) h src ∧ LinksSpared v n.nb h src := by
  obtain ⟨r, n₁, hlookup, hrest⟩ := bind_run_inv hrun
  cases hlookup
  have hlisted' : ¬ (n.routingTable.lookupRoute v.now src).1.any (·.blackListState) = true :=
    ne_true_of_eq_false hlisted
  rw [if_neg hlisted'] at hrest
  obtain ⟨n₂, n₃, hget, hrest⟩ := bind_run_inv hrest
  cases hget
  obtain ⟨u, n₄, hmod, hrest⟩ := bind_run_inv hrest
  cases hmod
  have hdup' : ¬ (n.rreqIdCache.isDuplicate v.now h.origin h.id).1 = true :=
    ne_true_of_eq_false hdup
  dsimp only at hrest
  rw [if_neg hdup'] at hrest
  exact takeRequest_returns_iff (n := { n with
    routingTable := n.routingTable.purge v.now
    rreqIdCache := (n.rreqIdCache.isDuplicate v.now h.origin h.id).2 })
    (hkeyed.purge lasting_true) RoutingTable.purge_purge hrest

/-- A request of 3, which comes from 2. -/
def requestOf3 : RreqHeader where
  gratuitousRrep := false
  destinationOnly := false
  unknownSeqno := true
  hopCount := 1
  id := 1
  dst := 9
  dstSeqno := 0
  origin := 3
  originSeqno := 8

/-- A node that has just started takes it. -/
theorem recvRequest_returns_iff_sample :
    ∃ n', recvRequest ⟨{}, 0⟩ requestOf3 5 1 2 (Node.up [⟨0, 1, 0xff⟩]) = some ((), n') ∧
      ∃ e, n'.routingTable.entries.find 3 = some e ∧ Returns requestOf3 2 e := by
  have hsome : (recvRequest ⟨{}, 0⟩ requestOf3 5 1 2 (Node.up [⟨0, 1, 0xff⟩])).isSome := by decide
  obtain ⟨⟨u, n'⟩, hrun⟩ := Option.isSome_iff_exists.mp hsome
  refine ⟨n', hrun, (recvRequest_returns_iff (startRoutes_all fun _ _ => trivial) (by decide)
    (by decide) hrun).mpr ⟨?_, ?_⟩⟩
  · unfold Returnable
    rw [if_neg (by decide)]
    refine ⟨by decide, ?_⟩
    have hfind : ((Node.up [⟨0, 1, 0xff⟩]).routingTable.purge 0).entries.find requestOf3.origin =
      none := by decide
    rw [hfind]
    decide
  · -- the neighbour is new and its lease has just begun
    have hnone : ∀ m ∈ [Neighbor.mk 2 (2000000000 + 0) false], ¬ m.Gone ⟨{}, 0⟩ := by decide
    intro m hm
    unfold goneNeighbors at hm
    rw [if_neg (by rintro ⟨m', hm', -⟩; cases hm')] at hm
    obtain ⟨hmem, hgone⟩ := List.mem_filter.mp hm
    exact absurd (of_decide_eq_true hgone) (hnone m hmem)

/-! ## A route that was invalid -/

/-- A node that once had a route to 3. -/
def brokenOrigin : Node :=
  { Node.up [⟨0, 1, 0xff⟩] with routingTable :=
      { entries := StdMap.empty.insert 3
          { ofRoute 0 (some 1) 3 true 7 2 2 3000000000 with flag := .invalid }
        badLinkLifetime := 15000000000 } }

theorem brokenOrigin_keyed : brokenOrigin.routingTable.All fun _ => True := by
  intro d e he
  have hfind : (StdMap.empty.insert (3 : Ipv4Address)
    { ofRoute 0 (some 1) 3 true 7 2 2 3000000000 with flag := .invalid }).find d = some e := he
  rw [StdMap.find_insert] at hfind
  split at hfind
  · rename_i hd
    cases hfind
    exact ⟨hd.symm, trivial⟩
  · cases hfind

/-- The route is made anew, but it stays invalid. -/
theorem brokenOrigin_no_return :
    (brokenOrigin.routingTable.All fun _ => True) ∧
    ((brokenOrigin.routingTable.purge 0).entries.find 2).any (·.blackListState) = false ∧
    (brokenOrigin.rreqIdCache.isDuplicate 0 3 1).1 = false ∧
    ∃ n', recvRequest ⟨{}, 0⟩ requestOf3 5 1 2 brokenOrigin = some ((), n') ∧
      ¬ ∃ e, n'.routingTable.entries.find 3 = some e ∧ Returns requestOf3 2 e := by
  refine ⟨brokenOrigin_keyed, by decide, by decide, ?_⟩
  have hrun : (recvRequest ⟨{}, 0⟩ requestOf3 5 1 2 brokenOrigin).map
      (fun r => (r.2.routingTable.entries.find 3).map (·.flag)) = some (some .invalid) := by
    decide
  obtain ⟨⟨u, n'⟩, hn', hflag⟩ := Option.map_eq_some_iff.mp hrun
  refine ⟨n', hn', ?_⟩
  rintro ⟨e, he, hreturn⟩
  have hflag : (n'.routingTable.entries.find 3).map (·.flag) = some .invalid := hflag
  rw [he, Option.map_some, hreturn.flag] at hflag
  cases hflag

end Ns3.Aodv
