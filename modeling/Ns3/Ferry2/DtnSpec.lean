import Ns3.Ferry2.Dtn
import Ns3.Ferry2.HeaderRoundTrip
import Ns3.Lib.Newest

/-!
# What the handlers do to the stored crossings

One lemma for each handler: what it leaves in the store of blocked crossings
and in the request buffer, and what it sends. Reading a message needs no
assumption on how long it is. With `eraseinfoflag` off the loop of
`RecvUserDataAsUnicast` computes the pointwise newest merge, for any content of
its uninitialised local (`recvBlockedInfo_fold`).
-/

namespace Ns3.Ferry2

open Ns3.Lib

variable {E : Type} {cfg : Config} {ops : UserOps E} {now : ℕ} {n n' : DtnNode E}
  {out : List Datagram} {x : Datagram}

/-! ## Selecting entries -/

theorem find_selectEntries_aux {β : Type} {m s : StdMap String β} {ids : List String} {k : String}
    (hs : ∀ v, s.find k = some v → m.find k = some v) :
    (ids.foldl (fun s id => match m.find id with | some v => s.insert id v | none => s) s).find k =
      if k ∈ ids then m.find k else s.find k := by
  induction ids generalizing s with
  | nil => simp
  | cons id ids ih =>
    rw [List.foldl_cons]
    cases hid : m.find id with
    | none =>
      rw [ih hs]
      by_cases hk : k = id
      · subst hk
        have : s.find k = none := by
          cases hsk : s.find k with
          | none => rfl
          | some v => exact absurd (hs v hsk) (by simp [hid])
        simp [hid, this]
      · simp [hk]
    | some v =>
      have hs' : ∀ w, (s.insert id v).find k = some w → m.find k = some w := by
        intro w hw
        rw [StdMap.find_insert] at hw
        by_cases hk : k = id
        · subst hk
          cases hsk : s.find k with
          | none => simpa [hsk, hid] using hw
          | some u => simpa [hsk, hs u hsk] using hw
        · exact hs w (by simpa [hk] using hw)
      rw [ih hs', StdMap.find_insert]
      by_cases hk : k = id
      · subst hk
        cases hsk : s.find k with
        | none => simp [hid]
        | some u => simp [hid, (hid.symm.trans (hs u hsk) : some v = some u)]
      · simp [hk]

theorem find_selectEntries {β : Type} (m : StdMap String β) (ids : List String) (k : String) :
    (selectEntries m ids).find k = if k ∈ ids then m.find k else none :=
  find_selectEntries_aux (by simp)

theorem canonicalKeys_iff {β : Type} {m : StdMap String β} :
    CanonicalKeys m ↔ ∀ k v, m.find k = some v → Canonical k := by
  simp only [CanonicalKeys, StdMap.mem_keys]
  constructor
  · intro h k v hv
    exact h k ⟨v, hv⟩
  · rintro h k ⟨v, hv⟩
    exact h k v hv

theorem canonicalKeys_selectEntries {β : Type} {m : StdMap String β} {ids : List String}
    (h : CanonicalKeys m) : CanonicalKeys (selectEntries m ids) := by
  rw [canonicalKeys_iff] at h ⊢
  intro k v hv
  rw [find_selectEntries] at hv
  split at hv
  · exact h k v hv
  · cases hv

theorem canonicalKeys_empty {β : Type} : CanonicalKeys (.empty : StdMap String β) := by
  simp [canonicalKeys_iff]

theorem canonicalKeys_ofList_keys {β : Type} {m : StdMap String β} (h : CanonicalKeys m) :
    CanonicalKeys (StdMap.ofList (m.keys.map (·, ()))) := by
  rw [canonicalKeys_iff]
  intro k v hv
  have hmem : k ∈ m.keys := by
    rw [StdMap.find_ofList] at hv
    generalize m.keys = ks at hv
    induction ks with
    | nil => cases hv
    | cons a ks ih =>
      by_cases hak : a = k
      · simp [hak]
      · simp only [List.map_cons, StdMap.lookupL, hak, if_false] at hv
        exact List.mem_cons_of_mem _ (ih hv)
  exact h k hmem

/-! ## The request -/

theorem mem_requestBlockIds {mine recv : StdMap String Binary32} {k : String} :
    k ∈ requestBlockIds mine recv ↔ ∃ v, recv.find k = some v ∧ ¬ StdMap.Stale mine k v := by
  simp only [requestBlockIds, List.mem_map, List.mem_filter, StdMap.Stale]
  constructor
  · rintro ⟨⟨k', v⟩, ⟨hmem, hnew⟩, rfl⟩
    refine ⟨v, StdMap.mem_entries.mp hmem, ?_⟩
    rintro ⟨a, ha, hle⟩
    rw [ha] at hnew
    exact hle (by simpa using hnew)
  · rintro ⟨v, hv, hnew⟩
    refine ⟨(k, v), ⟨StdMap.mem_entries.mpr hv, ?_⟩, rfl⟩
    cases hm : mine.find k with
    | none => rfl
    | some a =>
      by_contra hle
      exact hnew ⟨a, hm, by simpa using hle⟩

theorem requestBlockIds_wf {mine recv : StdMap String Binary32} (h : CanonicalKeys recv)
    (id : UInt32) : RequestData.WF ⟨id, [], requestBlockIds mine recv⟩ where
  exit := by simp
  block k hk := by
    obtain ⟨v, hv, -⟩ := mem_requestBlockIds.mp hk
    exact canonicalKeys_iff.mp h k v hv

theorem length_requestBlockIds {mine recv : StdMap String Binary32} (h : CanonicalKeys recv) :
    (requestBlockIds mine recv).length < 2 ^ 32 := by
  refine lt_of_le_of_lt ?_ (size_lt_of_canonicalKeys h)
  rw [requestBlockIds, List.length_map]
  exact List.length_filter_le _ _

theorem makeSendData_wf {junk : UInt32} {dst : Ipv4Address} {blockIds : List String}
    (h : CanonicalKeys n.blockednodeidAndTime) :
    (makeSendDataFromRequest junk n dst [] blockIds).WF where
  blocked := canonicalKeys_selectEntries (canonicalKeys_ofList_keys h)
  fullexit := canonicalKeys_empty
  exit := canonicalKeys_empty
  block := canonicalKeys_selectEntries h
  patrol := .inl rfl
  other := canonicalKeys_empty
  times := canonicalKeys_empty

/-- The entries asked for are the newer ones, so they merge as the whole map does. -/
theorem newest_selectEntries (mine recv : StdMap String Binary32) :
    StdMap.newest mine (selectEntries recv (requestBlockIds mine recv)) =
      StdMap.newest mine recv := by
  apply StdMap.newest_eq_of_stale
  · intro k v hv
    rw [find_selectEntries]
    by_cases hk : k ∈ requestBlockIds mine recv
    · simp [hk, hv]
    · right
      refine ⟨by simp [hk], ?_⟩
      by_contra hnew
      exact hk (mem_requestBlockIds.mpr ⟨v, hv, hnew⟩)
  · intro k v hv
    rw [find_selectEntries] at hv
    split at hv
    · exact hv
    · cases hv

/-! ## Frames

Most handlers leave the store and the buffer alone. -/

/-- The store of crossings and the request buffer are those of `n`. -/
structure SameStore (n n' : DtnNode E) : Prop where
  blocked : n'.blockednodeidAndTime = n.blockednodeidAndTime
  buffer : n'.requestBuffer = n.requestBuffer

theorem SameStore.refl (n : DtnNode E) : SameStore n n := ⟨rfl, rfl⟩

theorem sendHello_spec (h : sendHello cfg now n = some (n', out)) :
    SameStore n n' ∧ ∀ x ∈ out, ∃ s hop, helloPacket cfg.sendHopFlag s hop = some x.bytes ∧
      s.exitSummary = .empty ∧ s.blockSummary = n.blockednodeidAndTime := by
  unfold sendHello at h
  dsimp only at h
  split at h
  · cases h
    exact ⟨⟨rfl, rfl⟩, by simp⟩
  · simp only [Option.bind_eq_bind, Option.bind_eq_some_iff] at h
    obtain ⟨packet, hp, hout⟩ := h
    cases hout
    refine ⟨⟨rfl, rfl⟩, ?_⟩
    intro x hx
    obtain ⟨a, -, rfl⟩ := List.mem_map.mp hx
    exact ⟨_, _, hp, rfl, rfl⟩

theorem requestNews_spec {sender : Ipv4Address} {blockIds : List String}
    (h : requestNews n sender blockIds = some (n', out)) :
    SameStore n n' ∧ ∀ x ∈ out, requestPacket ⟨n.userId + 1, [], blockIds⟩ = some x.bytes := by
  unfold requestNews at h
  split at h
  · cases h
    exact ⟨.refl _, by simp⟩
  · simp only [sendRequest, Option.bind_eq_bind, Option.bind_eq_some_iff] at h
    obtain ⟨packet, hp, hout⟩ := h
    cases hout
    refine ⟨.refl _, ?_⟩
    intro x hx
    obtain rfl := List.mem_singleton.mp hx
    exact hp

theorem reconsiderRoute_spec (h : reconsiderRoute ops now n = some n') : SameStore n n' := by
  unfold reconsiderRoute at h
  split at h
  · simp only [Option.bind_eq_bind, Option.bind_eq_some_iff] at h
    obtain ⟨user, -, hn⟩ := h
    cases hn
    exact ⟨rfl, rfl⟩
  · cases h
    exact .refl _

theorem recvHello_spec {junk : SummaryVector} {p : List UInt8} {sender : Ipv4Address}
    (h : recvHello cfg ops now junk n p sender = some (n', out)) :
    SameStore n n' ∧ ∃ y, removeHello cfg.sendHopFlag junk p = some y ∧
      ∀ x ∈ out, requestPacket ⟨n.userId + 1, [],
        requestBlockIds n.blockednodeidAndTime y.1.1.blockSummary⟩ = some x.bytes := by
  unfold recvHello at h
  simp only [Option.bind_eq_bind, Option.bind_eq_some_iff] at h
  obtain ⟨y, hy, h⟩ := h
  split at h
  · cases h
    exact ⟨⟨rfl, rfl⟩, y, hy, by simp⟩
  · simp only [Option.bind_eq_some_iff] at h
    obtain ⟨⟨n₁, out₁⟩, hreq, n₂, hroute, h⟩ := h
    cases h
    obtain ⟨hs₁, hout⟩ := requestNews_spec hreq
    have hs₂ := reconsiderRoute_spec hroute
    refine ⟨⟨?_, ?_⟩, y, hy, hout⟩
    · exact hs₂.blocked.trans hs₁.blocked
    · exact hs₂.buffer.trans hs₁.buffer

theorem recvRequest_spec {junk : RequestData} {p : List UInt8} {sender : Ipv4Address}
    (h : recvRequest junk n p sender = some (n', out)) :
    out = [] ∧ n'.blockednodeidAndTime = n.blockednodeidAndTime ∧
      ∃ r q, removeRequest junk p = some (r, q) ∧ n'.requestBuffer = n.requestBuffer ++
        [⟨sender, r.requesterId, r.exitIds, r.blockIds⟩] := by
  simp only [recvRequest, Option.bind_eq_bind, Option.bind_eq_some_iff] at h
  obtain ⟨⟨r, q⟩, hr, hout⟩ := h
  cases hout
  exact ⟨rfl, rfl, r, q, hr, rfl⟩

theorem processRequestBuffer_spec {junk : UInt32}
    (h : processRequestBuffer cfg junk n = some (n', out)) :
    n'.blockednodeidAndTime = n.blockednodeidAndTime ∧ n'.requestBuffer = [] ∧
      ∀ x ∈ out, ∃ b rest, n.requestBuffer = b :: rest ∧
        userDataPacket cfg.sendHopFlag (makeSendDataFromRequest junk n b.requesterAddress b.exitIds
          b.blockIds) ⟨.empty⟩ = some x.bytes := by
  unfold processRequestBuffer at h
  split at h
  case h_1 hbuf =>
    cases h
    exact ⟨rfl, hbuf, by simp⟩
  case h_2 b rest hbuf =>
    simp only [sendUserDataAsUnicast, Option.bind_eq_bind, Option.bind_eq_some_iff] at h
    obtain ⟨⟨n₁, out₁⟩, ⟨packet, hp, hn₁⟩, hout⟩ := h
    cases hn₁
    cases hout
    refine ⟨rfl, rfl, ?_⟩
    intro x hx
    obtain rfl := List.mem_singleton.mp hx
    exact ⟨b, rest, hbuf, hp⟩

theorem updateGraphInfoReceivedPacket_spec {id : String}
    (h : updateGraphInfoReceivedPacket ops n id = some n') : SameStore n n' := by
  unfold updateGraphInfoReceivedPacket at h
  split at h
  · cases h
    exact .refl _
  · simp only [Option.bind_eq_bind, Option.bind_eq_some_iff] at h
    obtain ⟨user, -, hn⟩ := h
    cases hn
    exact ⟨rfl, rfl⟩

/-! ## The merge loop -/

/-- The snapshot is the store, and the buffer is `buf`. -/
structure InStep (st : RecvState E) (buf : List BufferedRequest) : Prop where
  snapshot : st.node.blockednodeidAndTime = st.oldAoIblockedinfo
  buffer : st.node.requestBuffer = buf

theorem storeBlocked_spec {st st' : RecvState E} {id : String} {recv : Binary32}
    {buf : List BufferedRequest} (hst : InStep st buf)
    (h : storeBlocked ops st id recv = some st') :
    InStep st' buf ∧ st'.oldAoIblockedinfo = st.oldAoIblockedinfo.assign id recv := by
  simp only [storeBlocked, StdMap.insert_erase, Option.bind_eq_bind, Option.bind_eq_some_iff] at h
  obtain ⟨node, hnode, hst'⟩ := h
  cases hst'
  have hs := updateGraphInfoReceivedPacket_spec hnode
  exact ⟨⟨hs.blocked, hs.buffer.trans hst.buffer⟩, rfl⟩

theorem acceptBlocked_off {st : RecvState E} {id : String} {recv : Binary32}
    (hoff : cfg.eraseinfoflag = false) :
    acceptBlocked cfg ops now st id recv = storeBlocked ops st id recv := by
  simp [acceptBlocked, hoff]

theorem recvExitInfo_spec {st st' : RecvState E} {e : String × (UInt32 × UInt32)}
    {buf : List BufferedRequest} (hst : InStep st buf) (h : recvExitInfo st e = some st') :
    InStep st' buf ∧ st'.oldAoIblockedinfo = st.oldAoIblockedinfo := by
  simp only [recvExitInfo, Option.bind_eq_bind, Option.bind_eq_some_iff] at h
  obtain ⟨old, -, h⟩ := h
  split at h
  · cases h
    exact ⟨⟨hst.snapshot, hst.buffer⟩, rfl⟩
  · cases h
    exact ⟨hst, rfl⟩

theorem recvExitInfo_fold {es : List (String × (UInt32 × UInt32))} {st st' : RecvState E}
    {buf : List BufferedRequest} (hst : InStep st buf)
    (h : es.foldlM recvExitInfo st = some st') :
    InStep st' buf ∧ st'.oldAoIblockedinfo = st.oldAoIblockedinfo := by
  induction es generalizing st with
  | nil =>
    cases h
    exact ⟨hst, rfl⟩
  | cons e es ih =>
    rw [List.foldlM_cons, Option.bind_eq_bind, Option.bind_eq_some_iff] at h
    obtain ⟨st₁, h₁, h⟩ := h
    obtain ⟨hst₁, hold₁⟩ := recvExitInfo_spec hst h₁
    obtain ⟨hst', hold'⟩ := ih hst₁ h
    exact ⟨hst', hold'.trans hold₁⟩

/-- One received crossing: known ids move to the newer time, unknown ones are stored. What the
uninitialised local holds only decides whether the same time is stored once more. -/
theorem recvBlockedInfo_spec {junk : String → Binary32} {st st' : RecvState E}
    {e : String × Binary32} {buf : List BufferedRequest} (hoff : cfg.eraseinfoflag = false)
    (hst : InStep st buf) (h : recvBlockedInfo cfg ops now junk st e = some st') :
    InStep st' buf ∧ st'.oldAoIblockedinfo = st.oldAoIblockedinfo.alter e.1 (bump e.2) := by
  simp only [recvBlockedInfo, acceptBlocked_off hoff] at h
  cases hold : st.oldAoIblockedinfo.find e.1 with
  | some old =>
    have hres : st.oldAoIblockedinfo.assign e.1 (larger old e.2) =
        st.oldAoIblockedinfo.alter e.1 (bump e.2) := by
      ext k : 1
      rw [StdMap.find_assign, StdMap.find_alter, hold]
      rfl
    simp only [hold, Option.bind_eq_bind, Option.bind_some] at h
    rw [← hres]
    split at h
    case isTrue hlt =>
      rw [larger_of_lt hlt]
      exact storeBlocked_spec hst h
    case isFalse hle =>
      cases h
      rw [larger_of_not_lt hle, StdMap.assign_find_self hold]
      exact ⟨hst, rfl⟩
  | none =>
    have hres : st.oldAoIblockedinfo.assign e.1 e.2 =
        st.oldAoIblockedinfo.alter e.1 (bump e.2) := by
      ext k : 1
      rw [StdMap.find_assign, StdMap.find_alter, hold]
      rfl
    simp only [hold, Option.bind_eq_bind, Option.bind_eq_some_iff] at h
    obtain ⟨st₁, hstore, ⟨st₂, old⟩, heq, h⟩ := h
    cases heq
    obtain ⟨hst₁, hold₁⟩ := storeBlocked_spec hst hstore
    rw [← hres]
    split at h
    · obtain ⟨hst', hold'⟩ := storeBlocked_spec hst₁ h
      refine ⟨hst', ?_⟩
      rw [hold', hold₁]
      exact StdMap.assign_find_self (StdMap.find_assign_self _ _ _)
    · cases h
      exact ⟨hst₁, hold₁⟩

/-- The whole loop is the pointwise newest merge. -/
theorem recvBlockedInfo_fold {junk : String → Binary32} {recv : StdMap String Binary32}
    {st st' : RecvState E} {buf : List BufferedRequest} (hoff : cfg.eraseinfoflag = false)
    (hst : InStep st buf)
    (h : recv.entries.foldlM (recvBlockedInfo cfg ops now junk) st = some st') :
    InStep st' buf ∧ st'.oldAoIblockedinfo = st.oldAoIblockedinfo.newest recv := by
  unfold StdMap.newest
  generalize recv.entries = es at h ⊢
  induction es generalizing st with
  | nil =>
    cases h
    exact ⟨hst, rfl⟩
  | cons e es ih =>
    rw [List.foldlM_cons, Option.bind_eq_bind, Option.bind_eq_some_iff] at h
    obtain ⟨st₁, h₁, h⟩ := h
    obtain ⟨hst₁, hold₁⟩ := recvBlockedInfo_spec hoff hst h₁
    obtain ⟨hst', hold'⟩ := ih hst₁ h
    refine ⟨hst', ?_⟩
    rw [hold', hold₁, List.foldl_cons]

theorem recvUserData_spec {junk : RecvJunk} {p : List UInt8} (hoff : cfg.eraseinfoflag = false)
    (h : recvUserDataAsUnicast cfg ops now junk n p = some (n', out)) :
    ∃ y, removeUserData cfg.sendHopFlag junk.data p = some y ∧
      n'.blockednodeidAndTime = n.blockednodeidAndTime.newest y.1.1.aoiBlockinfo ∧
      n'.requestBuffer = n.requestBuffer ∧
      ∀ x ∈ out, ∃ s hop, helloPacket cfg.sendHopFlag s hop = some x.bytes ∧
        s.exitSummary = .empty ∧ s.blockSummary = n'.blockednodeidAndTime := by
  unfold recvUserDataAsUnicast at h
  simp only [Option.bind_eq_bind, Option.bind_eq_some_iff] at h
  obtain ⟨y, hy, st₁, h₁, st₂, h₂, h⟩ := h
  obtain ⟨hst₁, hold₁⟩ := recvExitInfo_fold ⟨rfl, rfl⟩ h₁
  obtain ⟨hst₂, hold₂⟩ := recvBlockedInfo_fold hoff hst₁ h₂
  have hstore : st₂.node.blockednodeidAndTime =
      n.blockednodeidAndTime.newest y.1.1.aoiBlockinfo := by
    rw [hst₂.snapshot, hold₂, hold₁]
  split at h
  · obtain ⟨hs, hout⟩ := sendHello_spec h
    refine ⟨y, hy, hs.blocked.trans hstore, hs.buffer.trans hst₂.buffer, ?_⟩
    rwa [hs.blocked]
  · cases h
    exact ⟨y, hy, hstore, hst₂.buffer, by simp⟩

theorem updateShelterData_spec {data : ShelterInfo}
    (h : updateShelterData cfg now n data = some (n', out)) :
    SameStore n n' ∧ ∀ x ∈ out, ∃ s hop, helloPacket cfg.sendHopFlag s hop = some x.bytes ∧
      s.exitSummary = .empty ∧ s.blockSummary = n.blockednodeidAndTime := by
  simp only [updateShelterData, Option.bind_eq_bind, Option.bind_eq_some_iff] at h
  obtain ⟨old, -, h⟩ := h
  split at h
  · split at h
    · obtain ⟨hs, hout⟩ := sendHello_spec h
      exact ⟨⟨hs.blocked, hs.buffer⟩, hout⟩
    · cases h
      exact ⟨⟨rfl, rfl⟩, by simp⟩
  · cases h
    exact ⟨.refl _, by simp⟩

theorem recvShelterData_spec {junk : UInt32} {p : List UInt8}
    (h : recvShelterDataAsBroadcast cfg now junk n p = some (n', out)) :
    SameStore n n' ∧ ∀ x ∈ out, ∃ s hop, helloPacket cfg.sendHopFlag s hop = some x.bytes ∧
      s.exitSummary = .empty ∧ s.blockSummary = n.blockednodeidAndTime := by
  simp only [recvShelterDataAsBroadcast, checkShelterData, Option.bind_eq_bind,
    Option.bind_eq_some_iff] at h
  obtain ⟨⟨dup, data, n₁⟩, ⟨q, -, hchk⟩, h⟩ := h
  cases hchk
  split at h
  · cases h
    exact ⟨⟨rfl, rfl⟩, by simp⟩
  · obtain ⟨hs, hout⟩ := updateShelterData_spec h
    exact ⟨⟨hs.blocked, hs.buffer⟩, hout⟩

/-! ## Dispatch -/

section Dispatch

variable {junk : Junk} {p : List UInt8}

theorem recvProto_hello (ht : removeType x.bytes = some (.ofType .hello, p))
    (h : recvProto cfg ops now junk n x = some (n', out)) :
    (n' = n ∧ out = []) ∨ recvHello cfg ops now junk.summary n p x.source = some (n', out) := by
  simp only [recvProto, ht, TypeHeader.ofType, Option.bind_eq_bind, Option.bind_some] at h
  simp only [not_true_eq_false, if_false] at h
  split at h
  · cases h
    exact .inl ⟨rfl, rfl⟩
  · exact .inr h

theorem recvProto_shelterData (ht : removeType x.bytes = some (.ofType .shelterData, p))
    (h : recvProto cfg ops now junk n x = some (n', out)) :
    (n' = n ∧ out = []) ∨
      recvShelterDataAsBroadcast cfg now junk.shelterBroadcastId n p = some (n', out) := by
  simp only [recvProto, ht, TypeHeader.ofType, Option.bind_eq_bind, Option.bind_some] at h
  simp only [not_true_eq_false, if_false] at h
  split at h
  · cases h
    exact .inl ⟨rfl, rfl⟩
  · exact .inr h

theorem recvProto_request (ht : removeType x.bytes = some (.ofType .request, p)) :
    recvProto cfg ops now junk n x = recvRequest junk.request n p x.source := by
  simp [recvProto, ht, TypeHeader.ofType]

theorem recvProto_userData (ht : removeType x.bytes = some (.ofType .userData, p)) :
    recvProto cfg ops now junk n x = recvUserDataAsUnicast cfg ops now junk.recv n p := by
  simp [recvProto, ht, TypeHeader.ofType]

end Dispatch

end Ns3.Ferry2
