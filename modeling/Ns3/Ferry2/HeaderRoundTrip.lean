import Ns3.Ferry2.Header

/-!
# Round trips of the DTN headers

Every header with canonical node ids comes back from its own bytes, as long as
its exact size fits the `uint32_t` that `GetSerializedSize` returns. The size
is then what the writer emits and what the reader reports, so the headers of a
stack do not run into one another. Past `2^32` bytes the returned size wraps.
-/

namespace Ns3.Ferry2

open Ns3.Lib
open Ns3.Lib.Wire

variable {α β : Type}

/-! ## Contents the writers keep -/

def CanonicalKeys (m : StdMap String β) : Prop := ∀ k ∈ m.keys, Canonical k

structure SummaryVector.WF (h : SummaryVector) : Prop where
  exit : CanonicalKeys h.exitSummary
  block : CanonicalKeys h.blockSummary

structure RequestData.WF (h : RequestData) : Prop where
  exit : ∀ id ∈ h.exitIds, Canonical id
  block : ∀ id ∈ h.blockIds, Canonical id

/-- A patrol area is either none at all or a node id with a positive number: the number 0 stands
for "none" in the packet. -/
def PatrolWF (p : String × UInt32) : Prop :=
  p = ("", 0) ∨ ∃ n, 1 ≤ n ∧ n ≤ intMax ∧ p.1 = nodeID n

structure UserData.WF (h : UserData) : Prop where
  blocked : CanonicalKeys h.blockedSet
  fullexit : CanonicalKeys h.fullexitSet
  exit : CanonicalKeys h.aoiExitinfo
  block : CanonicalKeys h.aoiBlockinfo
  patrol : PatrolWF h.myPatrolEreaAndStartTime
  other : CanonicalKeys h.otherUAVPatrolEreaAndId
  times : CanonicalKeys h.patrolEreaidAndTime

def Hop.WF (h : Hop) : Prop := ∀ e ∈ h.hop.entries, Canonical e.2.1.1

/-! ## Sizes without the wrap-around -/

def SummaryVector.wireSize (h : SummaryVector) : ℕ :=
  12 + (4 + 8 * h.exitSummary.size) + (4 + 8 * h.blockSummary.size)

def RequestData.wireSize (h : RequestData) : ℕ :=
  4 + (4 + 4 * h.exitIds.length) + (4 + 4 * h.blockIds.length)

def UserData.wireSize (h : UserData) : ℕ :=
  12 + (4 + 4 * h.blockedSet.size) + (4 + 4 * h.fullexitSet.size) +
    (4 + 12 * h.aoiExitinfo.size) + (4 + 8 * h.aoiBlockinfo.size) + 8 +
    (4 + 8 * h.otherUAVPatrolEreaAndId.size) + (4 + 8 * h.patrolEreaidAndTime.size)

def Hop.wireSize (h : Hop) : ℕ := 4 + 16 * h.hop.size

/-! ## Items -/

theorem roundTrip_id {s : String} (h : Canonical s) : RoundTrip (writeId s) readId s (4 + 0) := by
  obtain ⟨w, hw, hs, -⟩ := h.wire
  have hid : writeId s = concat [u32 w] := by simp [writeId, hw, concat, u32]
  rw [hid, ← hs]
  refine (roundTrip_u32 w).cons ?_
  exact .nil _

theorem roundTrip_item {w : β → Writer} {r : Reader β} {e : String × β} {n : ℕ}
    (hk : Canonical e.1) (hv : RoundTrip (w e.2) r e.2 n) :
    RoundTrip (writeItem w e) (readItem r) e (4 + 0 + (n + 0)) := by
  refine (roundTrip_id hk).cons ?_
  refine hv.cons ?_
  exact .nil _

theorem roundTrip_unit (u : Unit) : RoundTrip (writeUnit u) (pure ()) u 0 := .nil ()

theorem roundTrip_float (f : Binary32) : RoundTrip (writeFloat f) readFloat f (4 + 0) := by
  have h : writeFloat f = concat [u32 f.bits] := by simp [writeFloat, concat, u32]
  rw [h]
  refine (roundTrip_u32 f.bits).cons ?_
  exact .nil _

theorem roundTrip_pair (p : UInt32 × UInt32) :
    RoundTrip (writePair p) readPair p (4 + (4 + 0)) := by
  refine (roundTrip_u32 p.1).cons ?_
  refine (roundTrip_u32 p.2).cons ?_
  exact .nil _

theorem roundTrip_patrol {p : String × UInt32} (h : PatrolWF p) :
    RoundTrip (writePatrol p) readPatrol p (4 + (4 + 0)) := by
  rcases h with rfl | ⟨n, h₁, h₂, hp⟩
  · refine (roundTrip_u32 0).cons ?_
    refine (roundTrip_u32 0).cons ?_
    exact .nil _
  · obtain ⟨s, t⟩ := p
    obtain rfl : s = nodeID n := hp
    have hc : Canonical (nodeID n) := ⟨n, h₂, rfl⟩
    have hw : writePatrol (nodeID n, t) = concat [u32 (UInt32.ofNat n), u32 t] := by
      simp [writePatrol, hc.ne_empty, writeId, nodeIDstoi_nodeID h₂]
    have hn : UInt32.ofNat n ≠ 0 := by
      intro h₀
      have := congrArg UInt32.toNat h₀
      rw [toNat_ofNat_of_le_intMax h₂] at this
      simp only [UInt32.toNat_zero] at this
      omega
    have hret : (nodeID n, t) = if UInt32.ofNat n = 0 then ("", 0)
        else (nodeID (UInt32.ofNat n).toNat, t) := by
      rw [if_neg hn, toNat_ofNat_of_le_intMax h₂]
    rw [hw, hret]
    refine (roundTrip_u32 _).cons ?_
    refine (roundTrip_u32 t).cons ?_
    exact .nil _

theorem roundTrip_hopItem {e : UInt32 × HopInfo} (h : Canonical e.2.1.1) :
    RoundTrip (writeHopItem e) readHopItem e (4 + (4 + 0 + (4 + (4 + 0)))) := by
  refine (roundTrip_u32 _).cons ?_
  refine (roundTrip_id h).cons ?_
  refine (roundTrip_u32 _).cons ?_
  refine (roundTrip_u32 _).cons ?_
  exact .nil _

/-! ## Containers -/

theorem nonEmpty_entries {m : StdMap String β} (h : CanonicalKeys m) :
    nonEmpty m.entries = m.entries := by
  apply List.filter_eq_self.mpr
  intro e he
  have hk : e.1 ∈ m.keys := List.mem_map_of_mem he
  simpa using (h e.1 hk).ne_empty

/-- There are only `2^31` canonical ids, so a map keyed by them fits its length word. -/
theorem size_lt_of_canonicalKeys {m : StdMap String β} (hk : CanonicalKeys m) :
    m.size < 2 ^ 32 := by
  have hsub : m.keys ⊆ (List.range (intMax + 1)).map nodeID := by
    intro k hmem
    obtain ⟨n, hn, rfl⟩ := hk k hmem
    exact List.mem_map_of_mem (List.mem_range.mpr (by omega))
  have hle := (m.keys_nodup.subperm hsub).length_le
  rw [List.length_map, List.length_range, StdMap.keys, List.length_map] at hle
  exact lt_of_le_of_lt hle (by decide)

theorem roundTrip_map {m : StdMap String β} {w : β → Writer} {r : Reader β} {n : ℕ}
    (hk : CanonicalKeys m) (hv : ∀ v, RoundTrip (w v) r v n) :
    RoundTrip (counted (writeItem w) (nonEmpty m.entries)) (readCounted (readItem r)) m.entries
      (4 + (4 + 0 + (n + 0)) * m.size) := by
  have hitem : ∀ e ∈ m.entries, RoundTrip (writeItem w e) (readItem r) (id e) _ := fun e he =>
    roundTrip_item (hk e.1 (List.mem_map_of_mem he)) (hv e.2)
  have h := roundTrip_counted hitem (size_lt_of_canonicalKeys hk)
  rw [List.map_id] at h
  rwa [nonEmpty_entries hk]

theorem roundTrip_ids {ids : List String} (h : ∀ id ∈ ids, Canonical id)
    (hlen : ids.length < 2 ^ 32) :
    RoundTrip (counted writeId ids) (readCounted readId) ids (4 + (4 + 0) * ids.length) := by
  have hid : ∀ s ∈ ids, RoundTrip (writeId s) readId (id s) _ := fun s hs => roundTrip_id (h s hs)
  have h := roundTrip_counted hid hlen
  rwa [List.map_id] at h

/-! ## Whole headers -/

theorem roundTrip_summaryVector {h : SummaryVector} (hwf : h.WF) (into : SummaryVector) :
    RoundTrip (summaryVector.serialize h) (summaryVector.read into) h h.wireSize := by
  have hret : RoundTrip (concat []) (pure (SummaryVector.mk h.userId h.dst h.broadcastId
      (.ofList h.exitSummary.entries) (.ofList h.blockSummary.entries))) h 0 := by
    rw [StdMap.ofList_entries, StdMap.ofList_entries]
    exact .nil _
  have hs : h.wireSize = 4 + (4 + (4 + ((4 + (4 + 0 + (4 + 0)) * h.exitSummary.size) +
      ((4 + (4 + 0 + (4 + 0 + 0)) * h.blockSummary.size) + 0)))) := by
    simp only [SummaryVector.wireSize]
    omega
  rw [hs]
  refine (roundTrip_u32 _).cons ?_
  refine (roundTrip_u32 _).cons ?_
  refine (roundTrip_htonU32 _).cons ?_
  refine (roundTrip_map hwf.exit roundTrip_u32).cons ?_
  refine (roundTrip_map hwf.block roundTrip_float).cons ?_
  exact hret

theorem roundTrip_requestData {h : RequestData} (hwf : h.WF) (he : h.exitIds.length < 2 ^ 32)
    (hb : h.blockIds.length < 2 ^ 32) (into : RequestData) :
    RoundTrip (requestData.serialize h) (requestData.read into) h h.wireSize := by
  have hs : h.wireSize = 4 + ((4 + (4 + 0) * h.exitIds.length) +
      ((4 + (4 + 0) * h.blockIds.length) + 0)) := by
    simp only [RequestData.wireSize]
    omega
  rw [hs]
  refine (roundTrip_u32 _).cons ?_
  refine (roundTrip_ids hwf.exit he).cons ?_
  refine (roundTrip_ids hwf.block hb).cons ?_
  exact .nil _

theorem roundTrip_userData {h : UserData} (hwf : h.WF) (into : UserData) :
    RoundTrip (userData.serialize h) (userData.read into) h h.wireSize := by
  have hexit : nonEmpty h.aoiExitinfo.entries = h.aoiExitinfo.entries := nonEmpty_entries hwf.exit
  have hret : RoundTrip (concat []) (pure (UserData.mk h.userId h.dst h.broadcastId
      (.ofList h.blockedSet.entries) (.ofList h.fullexitSet.entries)
      (.ofList h.aoiExitinfo.entries) (.ofList h.aoiBlockinfo.entries)
      h.myPatrolEreaAndStartTime (.ofList h.otherUAVPatrolEreaAndId.entries)
      (.ofList h.patrolEreaidAndTime.entries))) h 0 := by
    simp only [StdMap.ofList_entries]
    exact .nil _
  have hs : h.wireSize = 4 + (4 + (4 + ((4 + (4 + 0 + (0 + 0)) * h.blockedSet.size) +
      ((4 + (4 + 0 + (0 + 0)) * h.fullexitSet.size) +
      ((4 + (4 + 0 + (4 + (4 + 0) + 0)) * h.aoiExitinfo.size) +
      ((4 + (4 + 0 + (4 + 0 + 0)) * h.aoiBlockinfo.size) + ((4 + (4 + 0)) +
      ((4 + (4 + 0 + (4 + 0)) * h.otherUAVPatrolEreaAndId.size) +
      ((4 + (4 + 0 + (4 + 0)) * h.patrolEreaidAndTime.size) + 0))))))))) := by
    simp only [UserData.wireSize]
    omega
  rw [hs]
  refine (roundTrip_u32 _).cons ?_
  refine (roundTrip_u32 _).cons ?_
  refine (roundTrip_htonU32 _).cons ?_
  refine (roundTrip_map hwf.blocked roundTrip_unit).cons ?_
  refine (roundTrip_map hwf.fullexit roundTrip_unit).cons ?_
  -- the exit entries are the one container written without the test for an empty id
  rw [← hexit]
  refine (roundTrip_map hwf.exit roundTrip_pair).cons ?_
  refine (roundTrip_map hwf.block roundTrip_float).cons ?_
  refine (roundTrip_patrol hwf.patrol).cons ?_
  refine (roundTrip_map hwf.other roundTrip_u32).cons ?_
  refine (roundTrip_map hwf.times roundTrip_u32).cons ?_
  exact hret

theorem roundTrip_hop {h : Hop} (hwf : h.WF) (hsz : h.hop.size < 2 ^ 32) :
    RoundTrip (hopHeader.serialize h) (hopHeader.read ⟨.empty⟩) h h.wireSize := by
  have hitem : ∀ e ∈ h.hop.entries, RoundTrip (writeHopItem e) readHopItem (id e) _ := fun e he =>
    roundTrip_hopItem (hwf e he)
  have hmap := roundTrip_counted hitem hsz
  rw [List.map_id] at hmap
  have hret : RoundTrip (concat []) (pure (Hop.mk (.ofList h.hop.entries))) h 0 := by
    rw [StdMap.ofList_entries]
    exact .nil _
  have hs : h.wireSize = 4 + (4 + (4 + 0 + (4 + (4 + 0)))) * h.hop.entries.length + 0 := by
    simp only [Hop.wireSize, StdMap.size]
    omega
  rw [hs]
  refine hmap.cons ?_
  exact hret

theorem roundTrip_type (t : MessageType) (into : TypeHeader) :
    RoundTrip (typeHeader.serialize (.ofType t)) (typeHeader.read into) (.ofType t) (1 + 0) := by
  refine (roundTrip_u8 _).cons ?_
  cases t <;> exact .nil _

/-! ## Sizes -/

/-- The size a header reports is its exact size, cut to 32 bits. -/
theorem size_summaryVector {h : SummaryVector} (hwf : h.WF) :
    summaryVector.getSerializedSize h = UInt32.ofNat h.wireSize := by
  simp only [summaryVector, count, nonEmpty_entries hwf.exit, nonEmpty_entries hwf.block,
    SummaryVector.wireSize, StdMap.size, UInt32.ofNat_add, UInt32.ofNat_mul]
  rfl

theorem size_requestData (h : RequestData) :
    requestData.getSerializedSize h = UInt32.ofNat h.wireSize := by
  simp only [requestData, count, RequestData.wireSize, UInt32.ofNat_add, UInt32.ofNat_mul]
  ac_rfl

theorem size_userData {h : UserData} (hwf : h.WF) :
    userData.getSerializedSize h = UInt32.ofNat h.wireSize := by
  simp only [userData, count, nonEmpty_entries hwf.blocked, nonEmpty_entries hwf.fullexit,
    nonEmpty_entries hwf.block, nonEmpty_entries hwf.other, nonEmpty_entries hwf.times,
    UserData.wireSize, StdMap.size, UInt32.ofNat_add, UInt32.ofNat_mul]
  rfl

theorem size_hop (h : Hop) : hopHeader.getSerializedSize h = UInt32.ofNat h.wireSize := by
  simp only [hopHeader, count, Hop.wireSize, StdMap.size, UInt32.ofNat_add, UInt32.ofNat_mul]
  rfl

/-! ## Stacking -/

namespace HeaderCodec

variable {c : HeaderCodec α}

/-- The writer emits as many bytes as the size says, and from the front of any buffer the reader
turns the object `into` into `h'` and reports that size. -/
def ReadsAs (c : HeaderCodec α) (into h h' : α) : Prop :=
  ∃ bs, c.serialize h = some bs ∧ bs.length = (c.getSerializedSize h).toNat ∧
    ∀ rest, c.deserialize into (bs ++ rest) = some (h', c.getSerializedSize h)

/-- The header comes back as it was. -/
def Faithful (c : HeaderCodec α) (into h : α) : Prop := c.ReadsAs into h h

theorem readsAs_of_roundTrip {into h h' : α} {n : ℕ}
    (hrt : RoundTrip (c.serialize h) (c.read into) h' n)
    (hsz : c.getSerializedSize h = UInt32.ofNat n) (hn : n < 2 ^ 32) : c.ReadsAs into h h' := by
  obtain ⟨bs, hw, hd, hlen⟩ := hrt
  refine ⟨bs, hw, ?_, fun rest => ?_⟩
  · rw [hsz, UInt32.toNat_ofNat_of_lt' hn, hlen]
  have hdist : UInt32.ofNat ((bs ++ rest).length - rest.length) = c.getSerializedSize h := by
    rw [List.length_append, Nat.add_sub_cancel, hlen, hsz]
  simp only [deserialize, hd rest, Option.map_some, hdist]

/-- Such a header goes on a packet and comes off it without touching what is below. -/
theorem ReadsAs.stack {into h h' : α} (hf : c.ReadsAs into h h') (buf : List UInt8) :
    ∃ p, c.addHeader h buf = some p ∧ c.removeHeader into p = some (h', buf) := by
  obtain ⟨bs, hw, hn, hd⟩ := hf
  refine ⟨bs ++ buf, ?_, ?_⟩
  · have hroom : (List.replicate bs.length (0 : UInt8) ++ buf).drop bs.length = buf := by
      rw [List.drop_append_of_le_length (by simp)]
      simp
    simp [addHeader, hw, ← hn, hroom]
  · simp [removeHeader, hd, ← hn]

/-- Whatever the size, what was written is what a receiver finds at the front. -/
theorem removeHeader_of_addHeader {into h h' : α} {n : ℕ} {buf p : List UInt8}
    (hrt : RoundTrip (c.serialize h) (c.read into) h' n) (ha : c.addHeader h buf = some p) :
    ∃ q, c.removeHeader into p = some (h', q) := by
  obtain ⟨bs, hw, hd, -⟩ := hrt
  simp only [addHeader, hw, Option.bind_eq_bind, Option.bind_some] at ha
  split at ha
  · obtain rfl := Option.some.inj ha
    exact ⟨_, by rw [removeHeader, deserialize, hd]; rfl⟩
  · cases ha

end HeaderCodec

theorem summaryVector_faithful {h : SummaryVector} (hwf : h.WF) (hsz : h.wireSize < 2 ^ 32)
    (into : SummaryVector) : summaryVector.Faithful into h :=
  HeaderCodec.readsAs_of_roundTrip (roundTrip_summaryVector hwf into)
    (size_summaryVector hwf) hsz

theorem requestData_faithful {h : RequestData} (hwf : h.WF) (hsz : h.wireSize < 2 ^ 32)
    (into : RequestData) : requestData.Faithful into h := by
  have hlen := hsz
  simp only [RequestData.wireSize] at hlen
  have hrt := roundTrip_requestData hwf (by omega) (by omega) into
  exact HeaderCodec.readsAs_of_roundTrip hrt (size_requestData h) hsz

theorem userData_faithful {h : UserData} (hwf : h.WF) (hsz : h.wireSize < 2 ^ 32)
    (into : UserData) : userData.Faithful into h :=
  HeaderCodec.readsAs_of_roundTrip (roundTrip_userData hwf into) (size_userData hwf) hsz

theorem hop_faithful {h : Hop} (hwf : h.WF) (hsz : h.wireSize < 2 ^ 32) :
    hopHeader.Faithful ⟨.empty⟩ h := by
  have hlen : h.hop.size < 2 ^ 32 := by
    simp only [Hop.wireSize] at hsz
    omega
  exact HeaderCodec.readsAs_of_roundTrip (roundTrip_hop hwf hlen) (size_hop h) hsz

theorem typeHeader_faithful (t : MessageType) (into : TypeHeader) :
    typeHeader.Faithful into (.ofType t) :=
  HeaderCodec.readsAs_of_roundTrip (roundTrip_type t into) rfl (by decide)

/-- The hop map a receiver ends up with. -/
def receivedHop (sendHopFlag : Bool) (hop : Hop) : Hop := if sendHopFlag then hop else ⟨.empty⟩

theorem addHop_removeHop (flag : Bool) {hop : Hop} (hwf : hop.WF) (hsz : hop.wireSize < 2 ^ 32) :
    ∃ p, addHop flag hop [] = some p ∧ removeHop flag p = some (receivedHop flag hop, []) := by
  cases flag with
  | false => exact ⟨[], rfl, rfl⟩
  | true => exact HeaderCodec.ReadsAs.stack (hop_faithful hwf hsz) []

theorem helloPacket_removed {flag : Bool} {s : SummaryVector} {hop : Hop} (hs : s.WF)
    (hss : s.wireSize < 2 ^ 32) (hh : hop.WF) (hhs : hop.wireSize < 2 ^ 32)
    (into : SummaryVector) :
    ∃ p q, helloPacket flag s hop = some p ∧ removeType p = some (.ofType .hello, q) ∧
      removeHello flag into q = some ((s, receivedHop flag hop), []) := by
  obtain ⟨p₁, ha₁, hr₁⟩ := addHop_removeHop flag hh hhs
  obtain ⟨p₂, ha₂, hr₂⟩ := HeaderCodec.ReadsAs.stack (summaryVector_faithful hs hss into) p₁
  obtain ⟨p₃, ha₃, hr₃⟩ := HeaderCodec.ReadsAs.stack (typeHeader_faithful .hello (.ofType .userData)) p₂
  refine ⟨p₃, p₂, ?_, hr₃, ?_⟩
  · simp [helloPacket, ha₁, ha₂, addType, ha₃]
  · simp [removeHello, hr₂, hr₁]

theorem requestPacket_removed {r : RequestData} (hr : r.WF) (hrs : r.wireSize < 2 ^ 32)
    (into : RequestData) :
    ∃ p q, requestPacket r = some p ∧ removeType p = some (.ofType .request, q) ∧
      removeRequest into q = some (r, []) := by
  obtain ⟨p₁, ha₁, hr₁⟩ := HeaderCodec.ReadsAs.stack (requestData_faithful hr hrs into) []
  obtain ⟨p₂, ha₂, hr₂⟩ := HeaderCodec.ReadsAs.stack (typeHeader_faithful .request (.ofType .userData)) p₁
  refine ⟨p₂, p₁, ?_, hr₂, hr₁⟩
  simp [requestPacket, ha₁, addType, ha₂]

theorem userDataPacket_removed {flag : Bool} {d : UserData} {hop : Hop} (hd : d.WF)
    (hds : d.wireSize < 2 ^ 32) (hh : hop.WF) (hhs : hop.wireSize < 2 ^ 32) (into : UserData) :
    ∃ p q, userDataPacket flag d hop = some p ∧ removeType p = some (.ofType .userData, q) ∧
      removeUserData flag into q = some ((d, receivedHop flag hop), []) := by
  obtain ⟨p₁, ha₁, hr₁⟩ := addHop_removeHop flag hh hhs
  obtain ⟨p₂, ha₂, hr₂⟩ := HeaderCodec.ReadsAs.stack (userData_faithful hd hds into) p₁
  obtain ⟨p₃, ha₃, hr₃⟩ := HeaderCodec.ReadsAs.stack (typeHeader_faithful .userData (.ofType .userData)) p₂
  refine ⟨p₃, p₂, ?_, hr₃, ?_⟩
  · simp [userDataPacket, ha₁, ha₂, addType, ha₃]
  · simp [removeUserData, hr₂, hr₁]

/-! ## What a handler reads, whatever the size

A packet that could be built at all gives its first header back; the bound on the size is only
needed for what lies under it. -/

theorem removeType_addType {t : MessageType} {p b : List UInt8} (h : addType t p = some b) :
    removeType b = some (.ofType t, p) := by
  obtain ⟨q, ha, hr⟩ := HeaderCodec.ReadsAs.stack (typeHeader_faithful t (.ofType .userData)) p
  obtain rfl : q = b := Option.some.inj (ha.symm.trans h)
  exact hr

theorem helloPacket_read {flag : Bool} {s : SummaryVector} {hop : Hop} {b : List UInt8}
    (hs : s.WF) (h : helloPacket flag s hop = some b) :
    ∃ p, removeType b = some (.ofType .hello, p) ∧
      ∀ into x, removeHello flag into p = some x → x.1.1 = s := by
  simp only [helloPacket, Option.bind_eq_bind, Option.bind_eq_some_iff] at h
  obtain ⟨p₁, -, p₂, ha, ht⟩ := h
  refine ⟨p₂, removeType_addType ht, fun into x hx => ?_⟩
  obtain ⟨q, hq⟩ := HeaderCodec.removeHeader_of_addHeader (roundTrip_summaryVector hs into) ha
  simp only [removeHello, hq, Option.bind_eq_bind, Option.bind_some,
    Option.bind_eq_some_iff] at hx
  obtain ⟨y, -, hy⟩ := hx
  rw [← Option.some.inj hy]

theorem requestPacket_read {r : RequestData} {b : List UInt8} (hr : r.WF)
    (he : r.exitIds.length < 2 ^ 32) (hb : r.blockIds.length < 2 ^ 32)
    (h : requestPacket r = some b) :
    ∃ p, removeType b = some (.ofType .request, p) ∧
      ∀ into, ∃ q, removeRequest into p = some (r, q) := by
  simp only [requestPacket, Option.bind_eq_bind, Option.bind_eq_some_iff] at h
  obtain ⟨p₁, ha, ht⟩ := h
  refine ⟨p₁, removeType_addType ht, fun into => ?_⟩
  exact HeaderCodec.removeHeader_of_addHeader (roundTrip_requestData hr he hb into) ha

theorem userDataPacket_read {flag : Bool} {d : UserData} {hop : Hop} {b : List UInt8}
    (hd : d.WF) (h : userDataPacket flag d hop = some b) :
    ∃ p, removeType b = some (.ofType .userData, p) ∧
      ∀ into x, removeUserData flag into p = some x → x.1.1 = d := by
  simp only [userDataPacket, Option.bind_eq_bind, Option.bind_eq_some_iff] at h
  obtain ⟨p₁, -, p₂, ha, ht⟩ := h
  refine ⟨p₂, removeType_addType ht, fun into x hx => ?_⟩
  obtain ⟨q, hq⟩ := HeaderCodec.removeHeader_of_addHeader (roundTrip_userData hd into) ha
  simp only [removeUserData, hq, Option.bind_eq_bind, Option.bind_some,
    Option.bind_eq_some_iff] at hx
  obtain ⟨y, -, hy⟩ := hx
  rw [← Option.some.inj hy]

/-! ## The round trip and its bound -/

/-- **Header round trip.** Below `2^32` bytes each header comes back with its contents, the size
is what is written and what is read, and a receive handler removes exactly the headers that the
sender stacked, for either value of `send_hop_flag`. -/
theorem headers_roundTrip {s : SummaryVector} {r : RequestData} {d : UserData} {hop : Hop}
    (hs : s.WF) (hr : r.WF) (hd : d.WF) (hh : hop.WF)
    (hss : s.wireSize < 2 ^ 32) (hrs : r.wireSize < 2 ^ 32) (hds : d.wireSize < 2 ^ 32)
    (hhs : hop.wireSize < 2 ^ 32) (flag : Bool) (s₀ : SummaryVector) (r₀ : RequestData)
    (d₀ : UserData) :
    (summaryVector.Faithful s₀ s ∧ requestData.Faithful r₀ r ∧ userData.Faithful d₀ d ∧
      hopHeader.Faithful ⟨.empty⟩ hop) ∧
    (∃ p q, helloPacket flag s hop = some p ∧ removeType p = some (.ofType .hello, q) ∧
      removeHello flag s₀ q = some ((s, receivedHop flag hop), [])) ∧
    (∃ p q, requestPacket r = some p ∧ removeType p = some (.ofType .request, q) ∧
      removeRequest r₀ q = some (r, [])) ∧
    (∃ p q, userDataPacket flag d hop = some p ∧ removeType p = some (.ofType .userData, q) ∧
      removeUserData flag d₀ q = some ((d, receivedHop flag hop), [])) := by
  refine ⟨⟨?_, ?_, ?_, ?_⟩, ?_, ?_, ?_⟩
  · exact summaryVector_faithful hs hss s₀
  · exact requestData_faithful hr hrs r₀
  · exact userData_faithful hd hds d₀
  · exact hop_faithful hh hhs
  · exact helloPacket_removed hs hss hh hhs s₀
  · exact requestPacket_removed hr hrs r₀
  · exact userDataPacket_removed hd hds hh hhs d₀

/-- One canonical id in every container, and a patrol area. -/
def sampleUserData : UserData where
  userId := 7
  dst := 0x0a000002
  broadcastId := 3
  blockedSet := .ofList [("node/10004", ())]
  fullexitSet := .ofList [("node/10007", ())]
  aoiExitinfo := .ofList [("node/10007", (100, 12))]
  aoiBlockinfo := .ofList [("node/10004", ⟨0x41200000⟩)]
  myPatrolEreaAndStartTime := ("node/10004", 10)
  otherUAVPatrolEreaAndId := .ofList [("node/10009", 4)]
  patrolEreaidAndTime := .ofList [("node/10009", 8)]

theorem canonical_10004 : Canonical "node/10004" := ⟨10004, by decide, by decide⟩
theorem canonical_10007 : Canonical "node/10007" := ⟨10007, by decide, by decide⟩
theorem canonical_10009 : Canonical "node/10009" := ⟨10009, by decide, by decide⟩

theorem canonicalKeys_one {k : String} {v : β} (h : Canonical k) :
    CanonicalKeys (StdMap.ofList [(k, v)]) := by
  intro k' hk'
  have : k' = k := by
    simpa [StdMap.ofList, StdMap.insert, StdMap.alter, StdMap.alterL, StdMap.empty,
      StdMap.keys] using hk'
  exact this ▸ h

theorem sampleUserData_wf : sampleUserData.WF where
  blocked := canonicalKeys_one canonical_10004
  fullexit := canonicalKeys_one canonical_10007
  exit := canonicalKeys_one canonical_10007
  block := canonicalKeys_one canonical_10004
  patrol := .inr ⟨10004, by decide, by decide, by decide⟩
  other := canonicalKeys_one canonical_10009
  times := canonicalKeys_one canonical_10009

theorem headers_roundTrip_sample :
    userData.Faithful sampleUserData sampleUserData ∧
    ∃ p q, userDataPacket true sampleUserData ⟨.ofList [(5, ("node/10007", 60), 12)]⟩ = some p ∧
      removeType p = some (.ofType .userData, q) ∧
      removeUserData true sampleUserData q =
        some ((sampleUserData, ⟨.ofList [(5, ("node/10007", 60), 12)]⟩), []) := by
  have hh : Hop.WF ⟨.ofList [(5, ("node/10007", 60), 12)]⟩ := by
    intro e he
    obtain rfl : e = (5, ("node/10007", 60), 12) := by
      simpa [StdMap.ofList, StdMap.insert, StdMap.alter, StdMap.alterL, StdMap.empty] using he
    exact canonical_10007
  have h := headers_roundTrip (s := ⟨7, 0, 3, .empty, .ofList [("node/10004", ⟨0⟩)]⟩)
    (r := ⟨7, [], ["node/10004"]⟩) ⟨by simp [CanonicalKeys, StdMap.keys, StdMap.empty],
      canonicalKeys_one canonical_10004⟩
    ⟨by simp, by simpa using canonical_10004⟩ sampleUserData_wf hh (by decide) (by decide)
    (by decide) (by decide) true ⟨7, 0, 3, .empty, .empty⟩ ⟨7, [], []⟩ sampleUserData
  exact ⟨h.1.2.2.1, h.2.2.2⟩

/-- A hop table of `n` users, with distinct canonical target ids. -/
def manyHops (n : ℕ) (hn : n ≤ intMax) : Hop where
  hop :=
    { entries := (List.range n).map fun i => (UInt32.ofNat i, (nodeID i, 0), 0)
      sorted := by
        refine List.pairwise_map.mpr (List.pairwise_lt_range.imp_of_mem ?_)
        intro a b ha hb hab
        have ha' : a ≤ intMax := (List.mem_range.mp ha).le.trans hn
        have hb' : b ≤ intMax := (List.mem_range.mp hb).le.trans hn
        show UInt32.ofNat a < UInt32.ofNat b
        rw [UInt32.lt_iff_toNat_lt, toNat_ofNat_of_le_intMax ha', toNat_ofNat_of_le_intMax hb']
        exact hab }

theorem manyHops_wf {n : ℕ} (hn : n ≤ intMax) : (manyHops n hn).WF := by
  intro e he
  obtain ⟨i, hi, rfl⟩ := List.mem_map.mp he
  exact ⟨i, (List.mem_range.mp hi).le.trans hn, rfl⟩

theorem manyHops_ids_nodup {n : ℕ} (hn : n ≤ intMax) :
    ((manyHops n hn).hop.entries.map fun e => e.2.1.1).Nodup := by
  simp only [manyHops, List.map_map]
  exact List.nodup_range.map fun a b h => nodeID_inj h

theorem manyHops_serialize {n : ℕ} (hn : n ≤ intMax) :
    ∃ bs, hopHeader.serialize (manyHops n hn) = some bs ∧ bs.length = 4 + 16 * n := by
  have hsize : (manyHops n hn).hop.size = n := by simp [manyHops, StdMap.size]
  have hlt : n < 2 ^ 32 := lt_of_le_of_lt hn (by decide)
  obtain ⟨bs, hw, -, hlen⟩ := roundTrip_hop (manyHops_wf hn) (hsize.symm ▸ hlt)
  refine ⟨bs, hw, ?_⟩
  rw [hlen, Hop.wireSize, hsize]

theorem manyHops_size {n : ℕ} (hn : n ≤ intMax) :
    (hopHeader.getSerializedSize (manyHops n hn)).toNat = (4 + 16 * n) % 2 ^ 32 := by
  have hsize : (manyHops n hn).hop.size = n := by simp [manyHops, StdMap.size]
  rw [size_hop, UInt32.toNat_ofNat', Hop.wireSize, hsize]

/-- With `2^28` hops the writer emits `2^32 + 4` bytes and the reported size is 4. -/
theorem hop_size_wraps :
    ∃ hn : 2 ^ 28 ≤ intMax,
      (manyHops (2 ^ 28) hn).WF ∧
      ((manyHops (2 ^ 28) hn).hop.entries.map fun e => e.2.1.1).Nodup ∧
      (hopHeader.getSerializedSize (manyHops (2 ^ 28) hn)).toNat = 4 ∧
      (∃ bs, hopHeader.serialize (manyHops (2 ^ 28) hn) = some bs ∧ bs.length = 2 ^ 32 + 4) ∧
      ¬ hopHeader.Faithful ⟨.empty⟩ (manyHops (2 ^ 28) hn) := by
  have hn : 2 ^ 28 ≤ intMax := by decide
  have hsize := manyHops_size hn
  obtain ⟨bs, hw, hlen⟩ := manyHops_serialize hn
  refine ⟨hn, manyHops_wf hn, manyHops_ids_nodup hn, ?_, ⟨bs, hw, by omega⟩, ?_⟩
  · omega
  · rintro ⟨bs', hw', hlen', -⟩
    obtain rfl : bs = bs' := Option.some.inj (hw.symm.trans hw')
    omega

end Ns3.Ferry2
