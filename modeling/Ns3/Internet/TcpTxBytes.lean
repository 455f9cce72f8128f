import Ns3.Internet.TcpTxStream

/-!
# What the operations leave of the bytes

`Holds`: the items of both lists have the bytes of a stream, in its order, and
the sent ones start where these are. An operation on marks does not touch this
(`Holds.same`), and a copy takes bytes of the stream (`Holds.copyFromSequence`).
-/

namespace Ns3.Internet

open Ns3.Network
open SequenceNumber

namespace TcpTxStream

open TcpTxBuffer (ItemList totalSize offsets endOf shape)
open TcpTxBuffer.ItemList

/-- The items have the bytes of a stream. -/
structure Holds (b : TcpTxStream) (stream : List UInt8) : Prop where
  bytes : content (b.sentList ++ b.appList) = stream
  nonempty : ∀ item ∈ b.sentList ++ b.appList, item.packet ≠ []
  distinct : ((b.sentList ++ b.appList).map TcpTxItem.ref).Nodup
  fresh : ∀ item ∈ b.sentList ++ b.appList, item.ref < b.nextRef
  placed : Placed b.firstByteSeq 0 b.startSeq b.sentList
  size : b.size = BitVec.ofNat 32 stream.length
  sentSize : b.sentSize = BitVec.ofNat 32 (totalSize b.sentList)
  bound : stream.length < 2 ^ 31

variable {b b' : TcpTxStream} {stream : List UInt8} {items items' : List TcpTxItem}
  {base : SequenceNumber32} {o n j : ℕ} {startSeq startSeq' : ℕ → SequenceNumber32}

theorem Holds.totalSize_eq (h : b.Holds stream) :
    totalSize b.sentList + totalSize b.appList = stream.length := by
  rw [← h.bytes, length_content, TcpTxBuffer.totalSize_append]

theorem new_holds (n : BitVec 32) : (new n).Holds [] where
  bytes := rfl
  nonempty := fun _ hitem => absurd hitem List.not_mem_nil
  distinct := List.nodup_nil
  fresh := fun _ hitem => absurd hitem List.not_mem_nil
  placed := fun _ hp => absurd hp List.not_mem_nil
  size := rfl
  sentSize := rfl
  bound := by decide

/-! ## Marks -/

/-- The marks of items and the counts may differ. -/
structure Same (b b' : TcpTxStream) : Prop where
  sentList : b'.sentList.map shape = b.sentList.map shape
  appList : b'.appList.map shape = b.appList.map shape
  size : b'.size = b.size
  sentSize : b'.sentSize = b.sentSize
  firstByteSeq : b'.firstByteSeq = b.firstByteSeq
  startSeq : b'.startSeq = b.startSeq
  nextRef : b'.nextRef = b.nextRef

theorem content_of_shape (heq : items.map shape = items'.map shape) :
    content items = content items' := by
  have hall : ∀ items : List TcpTxItem, content items = (items.map shape).flatMap Prod.snd := by
    intro items
    rw [List.flatMap_map]
    rfl
  rw [hall, hall, heq]

theorem mem_of_shape (heq : items.map shape = items'.map shape) {item : TcpTxItem}
    (hitem : item ∈ items) : ∃ item' ∈ items', shape item' = shape item := by
  have hmem := List.mem_map_of_mem (f := shape) hitem
  rw [heq] at hmem
  exact List.mem_map.mp hmem

theorem placed_of_shape (heq : items.map shape = items'.map shape)
    (h : Placed base o startSeq items') : Placed base o startSeq items := by
  induction items generalizing items' o with
  | nil => exact fun p hp => absurd hp List.not_mem_nil
  | cons item items ih =>
    cases items' with
    | nil => cases heq
    | cons item' items' =>
      rw [List.map_cons, List.map_cons, List.cons.injEq] at heq
      obtain ⟨hitem, heq⟩ := heq
      have href : item.ref = item'.ref := congrArg Prod.fst hitem
      have hpacket : item.packet = item'.packet := congrArg Prod.snd hitem
      intro p hp
      rw [TcpTxBuffer.offsets_cons] at hp
      rcases List.mem_cons.mp hp with rfl | hp
      · rw [href]
        exact h (o, item') List.mem_cons_self
      · rw [hpacket] at hp
        exact ih heq (fun q hq => h q (List.mem_cons_of_mem _ hq)) p hp

theorem Same.refl (b : TcpTxStream) : b.Same b := ⟨rfl, rfl, rfl, rfl, rfl, rfl, rfl⟩

theorem Same.trans {b'' : TcpTxStream} (h : b.Same b') (h' : b'.Same b'') : b.Same b'' where
  sentList := h'.sentList.trans h.sentList
  appList := h'.appList.trans h.appList
  size := h'.size.trans h.size
  sentSize := h'.sentSize.trans h.sentSize
  firstByteSeq := h'.firstByteSeq.trans h.firstByteSeq
  startSeq := h'.startSeq.trans h.startSeq
  nextRef := h'.nextRef.trans h.nextRef

/-- The items are the same, whichever list they are in. -/
theorem Holds.move (h : b.Holds stream)
    (hall : (b'.sentList ++ b'.appList).map shape = (b.sentList ++ b.appList).map shape)
    (hplaced : Placed b.firstByteSeq 0 b.startSeq b'.sentList) (hsize : b'.size = b.size)
    (hsentSize : b'.sentSize = BitVec.ofNat 32 (totalSize b'.sentList))
    (hfirst : b'.firstByteSeq = b.firstByteSeq) (hstart : b'.startSeq = b.startSeq)
    (hnext : b'.nextRef = b.nextRef) : b'.Holds stream := by
  refine ⟨?_, ?_, ?_, ?_, ?_, hsize.trans h.size, hsentSize, h.bound⟩
  · rw [content_of_shape hall, h.bytes]
  · exact TcpTxBuffer.nonempty_of_shape hall h.nonempty
  · rw [TcpTxBuffer.refs_of_shape hall]
    exact h.distinct
  · intro item hitem
    obtain ⟨item', hitem', hshape⟩ := mem_of_shape hall hitem
    have href : item'.ref = item.ref := congrArg Prod.fst hshape
    rw [hnext, ← href]
    exact h.fresh item' hitem'
  · rw [hfirst, hstart]
    exact hplaced

theorem Holds.same (h : b.Holds stream) (hs : b.Same b') : b'.Holds stream := by
  refine h.move ?_ (placed_of_shape hs.sentList h.placed) hs.size ?_ hs.firstByteSeq hs.startSeq
    hs.nextRef
  · rw [List.map_append, List.map_append, hs.sentList, hs.appList]
  · rw [hs.sentSize, h.sentSize, TcpTxBuffer.totalSize_of_shape hs.sentList]

theorem shape_map {f : TcpTxItem → TcpTxItem} (hf : ∀ item, shape (f item) = shape item)
    (items : List TcpTxItem) : (items.map f).map shape = items.map shape := by
  rw [List.map_map]
  exact List.map_congr_left fun item _ => hf item

theorem markHeadAsLost_same (b : TcpTxStream) : b.Same b.markHeadAsLost := by
  unfold markHeadAsLost
  split
  · exact .refl b
  · rename_i head items hsent
    refine ⟨?_, rfl, rfl, rfl, rfl, rfl, rfl⟩
    rw [hsent]
    rfl

theorem sackFirst_shape {item : TcpTxItem} (h : sackFirst items = some (items', item)) :
    items'.map shape = items.map shape := by
  induction items generalizing items' with
  | nil => cases h
  | cons head items ih =>
    rw [sackFirst] at h
    split at h
    · cases hrest : sackFirst items with
      | none =>
        rw [hrest] at h
        cases h
      | some r =>
        rw [hrest] at h
        cases h
        rw [List.map_cons, List.map_cons, ih hrest]
    · cases h
      rfl

theorem addRenoSack_same (b : TcpTxStream) : b.Same b.addRenoSack := by
  unfold addRenoSack
  split
  · exact .refl b
  · rename_i head items hsent
    split
    · exact .refl b
    · rename_i items' item hsack
      refine ⟨?_, rfl, rfl, rfl, rfl, rfl, rfl⟩
      rw [hsent, List.map_cons, List.map_cons, sackFirst_shape hsack]

theorem resetRenoSack_same (b : TcpTxStream) : b.Same b.resetRenoSack := by
  refine ⟨shape_map ?_ _, rfl, rfl, rfl, rfl, rfl, rfl⟩
  exact fun _ => rfl

theorem setSentListLost_same (b : TcpTxStream) (resetSack : Bool) :
    b.Same (b.setSentListLost resetSack) := by
  unfold setSentListLost
  split
  · refine ⟨shape_map ?_ _, rfl, rfl, rfl, rfl, rfl, rfl⟩
    exact fun _ => rfl
  · refine ⟨shape_map ?_ _, rfl, rfl, rfl, rfl, rfl, rfl⟩
    exact fun _ => rfl

theorem deleteRetransmittedFlagFromHead_same (b : TcpTxStream) :
    b.Same b.deleteRetransmittedFlagFromHead := by
  unfold deleteRetransmittedFlagFromHead
  split
  · exact .refl b
  split
  · exact .refl b
  · rename_i head items hsent
    split
    · refine ⟨?_, rfl, rfl, rfl, rfl, rfl, rfl⟩
      rw [hsent]
      rfl
    · exact .refl b

/-! ## Items that move -/

theorem offsets_add (d o : ℕ) (items : List TcpTxItem) :
    offsets (d + o) items = (offsets o items).map fun p => (d + p.1, p.2) := by
  induction items generalizing o with
  | nil => rfl
  | cons item items ih =>
    rw [TcpTxBuffer.offsets_cons, TcpTxBuffer.offsets_cons, List.map_cons, ← ih, Nat.add_assoc]

theorem seqAt_seqAt (base : SequenceNumber32) (o d : ℕ) :
    seqAt (seqAt base o) d = seqAt base (o + d) := seqAt_add base o d

/-- The items after the first one. -/
theorem placed_tail {item : TcpTxItem} (h : Placed base 0 startSeq (item :: items)) :
    Placed (base + item.packet.getSize) 0 startSeq items := by
  intro p hp
  have hmem : (item.packet.length + p.1, p.2) ∈ offsets (item.packet.length + 0) items := by
    rw [offsets_add]
    exact List.mem_map_of_mem hp
  have hstart := h _ (List.mem_cons_of_mem _ (by rwa [Nat.zero_add]))
  rw [hstart]
  unfold seqAt Packet.getSize
  rw [BitVec.ofNat_add, BitVec.add_assoc]

theorem Holds.valid_sent (h : b.Holds stream) : (b.itemList b.sentList).Valid where
  nonempty := fun item hitem => h.nonempty item (List.mem_append_left _ hitem)
  distinct := by
    have hdistinct := h.distinct
    rw [List.map_append] at hdistinct
    exact hdistinct.of_append_left
  fresh := fun item hitem => h.fresh item (List.mem_append_left _ hitem)

theorem Holds.valid_app (h : b.Holds stream) : (b.itemList b.appList).Valid where
  nonempty := fun item hitem => h.nonempty item (List.mem_append_right _ hitem)
  distinct := by
    have hdistinct := h.distinct
    rw [List.map_append] at hdistinct
    exact hdistinct.of_append_right
  fresh := fun item hitem => h.fresh item (List.mem_append_right _ hitem)

theorem Holds.getNewSegment (h : b.Holds stream) (hn : 0 < n) (hle : n ≤ totalSize b.appList) :
    ∃ item b', b.getNewSegment (BitVec.ofNat 32 n) = some (item, b') ∧ b'.Holds stream ∧
      item.packet = (content b.appList).take n ∧ b'.firstByteSeq = b.firstByteSeq ∧
      b'.sentList = b.sentList ++ [item] ∧
      b'.startSeq item.ref = seqAt b.firstByteSeq (totalSize b.sentList) := by
  have htotal := h.totalSize_eq
  have hbound := h.bound
  obtain ⟨item, l, hrun, hfound⟩ := @getPacketFromList_eq (b.itemList b.appList) n 0
    (b.firstByteSeq + b.sentSize) h.valid_app (show totalSize b.appList < 2 ^ 31 by omega) hn
    (show 0 + n ≤ totalSize b.appList by omega) (b.appList.length + 1) (Nat.lt_succ_self _)
  rw [seqAt_zero] at hrun
  have hedited := hfound.edited
  obtain ⟨rest, hrest⟩ := head_of_offsets hedited.valid.nonempty hfound.mem
  have hsent : ∀ i ∈ b.sentList, i.ref < b.nextRef := fun i hi =>
    h.fresh i (List.mem_append_left _ hi)
  have hdistinct := hedited.distinct h.distinct hsent
  have hcontent : content l.items = content b.appList := hedited.content
  have hnext : b.nextRef ≤ l.nextRef := hedited.nextRef
  rw [hrest] at hdistinct
  have hstart : b.firstByteSeq + b.sentSize = seqAt b.firstByteSeq (totalSize b.sentList) := by
    rw [h.sentSize]
    rfl
  have hdef : b.getNewSegment (BitVec.ofNat 32 n) = some (item, { b with
      appList := rest
      sentList := b.sentList ++ [item]
      sentSize := b.sentSize + item.packet.getSize
      retrans := l.retrans
      startSeq := Function.update l.startSeq item.ref (b.firstByteSeq + b.sentSize)
      nextRef := l.nextRef }) := by
    unfold TcpTxStream.getNewSegment
    dsimp only
    rw [hrun]
    dsimp only
    rw [hrest, List.eraseP_cons_of_pos (by simp)]
  refine ⟨item, _, hdef, ?_, hfound.packet, rfl, rfl, ?_⟩
  · have hlists : (b.sentList ++ [item]) ++ rest = b.sentList ++ l.items := by
      rw [hrest, List.append_assoc, List.singleton_append]
    have hne : ∀ i ∈ b.sentList, i.ref ≠ item.ref := by
      intro i hi heq
      rw [List.map_append, List.nodup_append] at hdistinct
      exact hdistinct.2.2 _ (List.mem_map_of_mem hi) _ List.mem_cons_self heq
    refine ⟨?_, ?_, ?_, ?_, ?_, h.size, ?_, hbound⟩
    · dsimp only
      rw [hlists, content_append, hcontent, ← content_append, h.bytes]
    · intro i hi
      dsimp only at hi
      rw [hlists] at hi
      rcases List.mem_append.mp hi with hi | hi
      · exact h.nonempty i (List.mem_append_left _ hi)
      · exact hedited.valid.nonempty i hi
    · dsimp only
      rw [hlists, hrest]
      exact hdistinct
    · intro i hi
      dsimp only at hi
      rw [hlists] at hi
      rcases List.mem_append.mp hi with hi | hi
      · exact (hsent i hi).trans_le hnext
      · exact hedited.valid.fresh i hi
    · intro p hp
      dsimp only at hp ⊢
      rw [offsets_append] at hp
      rcases List.mem_append.mp hp with hp | hp
      · have hmem := mem_of_mem_offsets hp
        rw [Function.update_of_ne (hne _ hmem), hedited.startSeq _ (hsent _ hmem) ?_]
        · exact h.placed p hp
        · intro i hi heq
          have hdistinct := h.distinct
          rw [List.map_append, List.nodup_append] at hdistinct
          exact hdistinct.2.2 _ (List.mem_map_of_mem hmem) _ (List.mem_map_of_mem hi) heq.symm
      · obtain rfl := List.mem_singleton.mp hp
        rw [Nat.zero_add, Function.update_self, hstart]
    · dsimp only
      rw [h.sentSize, TcpTxBuffer.totalSize_append, TcpTxBuffer.totalSize_cons,
        TcpTxBuffer.totalSize_nil, BitVec.ofNat_add]
      rfl
  · dsimp only
    rw [Function.update_self, hstart]

/-- Edits of the sent list. -/
theorem Holds.edited (h : b.Holds stream) {l : ItemList}
    (hedited : (b.itemList b.sentList).Edited l) :
    Holds { b with
      sentList := l.items
      retrans := l.retrans
      startSeq := l.startSeq
      nextRef := l.nextRef } stream := by
  have hcontent : content l.items = content b.sentList := hedited.content
  have hnext : b.nextRef ≤ l.nextRef := hedited.nextRef
  have happ : ∀ i ∈ b.appList, i.ref < b.nextRef := fun i hi =>
    h.fresh i (List.mem_append_right _ hi)
  have hperm : ((b.appList ++ b.sentList).map TcpTxItem.ref).Nodup := by
    have hdistinct := h.distinct
    rw [List.map_append] at hdistinct ⊢
    exact List.nodup_append_comm.mp hdistinct
  refine ⟨?_, ?_, ?_, ?_, hedited.placed h.placed, h.size, ?_, h.bound⟩
  · dsimp only
    rw [content_append, hcontent, ← content_append, h.bytes]
  · intro i hi
    rcases List.mem_append.mp hi with hi | hi
    · exact hedited.valid.nonempty i hi
    · exact h.nonempty i (List.mem_append_right _ hi)
  · have hdistinct := hedited.distinct hperm happ
    rw [List.map_append] at hdistinct ⊢
    exact List.nodup_append_comm.mp hdistinct
  · intro i hi
    rcases List.mem_append.mp hi with hi | hi
    · exact hedited.valid.fresh i hi
    · exact (happ i hi).trans_le hnext
  · dsimp only
    rw [h.sentSize, ← length_content, ← hcontent, length_content]

/-! ## Copying -/

theorem least_ofNat {m n : ℕ} (hm : m < 2 ^ 32) (hn : n < 2 ^ 32) :
    least (BitVec.ofNat 32 m) (BitVec.ofNat 32 n) = BitVec.ofNat 32 (min m n) := by
  have hlt : BitVec.ofNat 32 n < BitVec.ofNat 32 m ↔ n < m := by
    rw [BitVec.lt_def, BitVec.toNat_ofNat, BitVec.toNat_ofNat, Nat.mod_eq_of_lt hm,
      Nat.mod_eq_of_lt hn]
  unfold least
  split
  · rename_i hless
    rw [Nat.min_eq_right (hlt.mp hless).le]
  · rename_i hnot
    rw [Nat.min_eq_left (Nat.le_of_not_lt (mt hlt.mpr hnot))]

theorem transmittedSize_eq (startSeq : ℕ → SequenceNumber32) (seq : SequenceNumber32) (hn : 0 < n)
    (hlt : n < 2 ^ 32) (hitems : ∀ item ∈ items, item.packet ≠ [])
    (hL : totalSize items < 2 ^ 32) :
    ∃ m, transmittedSize startSeq (BitVec.ofNat 32 n) seq items = BitVec.ofNat 32 m ∧ 0 < m ∧
      m ≤ n := by
  induction items with
  | nil => exact ⟨n, rfl, hn, le_rfl⟩
  | cons item items ih =>
    have hpos := List.length_pos_of_ne_nil (hitems item List.mem_cons_self)
    rw [TcpTxBuffer.totalSize_cons] at hL
    unfold transmittedSize
    have hone : ∃ m, least (BitVec.ofNat 32 n) item.packet.getSize = BitVec.ofNat 32 m ∧ 0 < m ∧
        m ≤ n :=
      ⟨min n item.packet.length, least_ofNat hlt (by omega), by omega, by omega⟩
    split
    · cases items with
      | nil => exact hone
      | cons next items =>
        rw [TcpTxBuffer.totalSize_cons] at hL
        dsimp only
        split
        · refine ⟨min n (item.packet.length + next.packet.length), ?_, by omega, by omega⟩
          rw [← least_ofNat hlt (by omega), BitVec.ofNat_add]
          rfl
        · exact hone
    · exact ih (fun i hi => hitems i (List.mem_cons_of_mem _ hi)) (by omega)

/-- What a copy of bytes from an offset on gives. -/
structure Copied (b b' : TcpTxStream) (stream : List UInt8) (j n : ℕ) (item : TcpTxItem) :
    Prop where
  holds : b'.Holds stream
  firstByteSeq : b'.firstByteSeq = b.firstByteSeq
  packet : ∃ m, 0 < m ∧ m ≤ n ∧ item.packet = (stream.drop j).take m
  startSeq : b'.startSeq item.ref = seqAt b.firstByteSeq j

theorem Holds.getTransmittedSegment (h : b.Holds stream) (hn : 0 < n)
    (hle : j + n ≤ totalSize b.sentList) :
    ∃ item b', b.getTransmittedSegment (BitVec.ofNat 32 n) (seqAt b.firstByteSeq j) =
      some (item, b') ∧ b.Copied b' stream j n item := by
  have htotal := h.totalSize_eq
  have hbound := h.bound
  have hsent := h.valid_sent
  have hitems : ∀ i ∈ b.sentList, i.packet ≠ [] := hsent.nonempty
  obtain ⟨m, hm, hpos, hmn⟩ := transmittedSize_eq b.startSeq (seqAt b.firstByteSeq j) hn (by omega)
    hitems (by omega)
  obtain ⟨item, l, hrun, hfound⟩ := @getPacketFromList_eq (b.itemList b.sentList) m j
    b.firstByteSeq hsent (show totalSize b.sentList < 2 ^ 31 by omega) hpos
    (show j + m ≤ totalSize b.sentList by omega) (b.sentList.length + 1) (Nat.lt_succ_self _)
  have hpacket : item.packet = (stream.drop j).take m := by
    have hlength := length_content b.sentList
    rw [hfound.packet, ← h.bytes, content_append, List.drop_append_of_le_length (by omega),
      List.take_append_of_le_length (by rw [List.length_drop]; omega)]
    rfl
  have hholds := h.edited hfound.edited
  have hplaced := hholds.placed _ hfound.mem
  unfold TcpTxStream.getTransmittedSegment
  rw [hm, hrun]
  dsimp only
  split
  · refine ⟨_, _, rfl, ⟨hholds.same ⟨shape_map ?_ _, rfl, rfl, rfl, rfl, rfl, rfl⟩, rfl,
      ⟨m, hpos, hmn, hpacket⟩, hplaced⟩⟩
    intro i
    split <;> rfl
  · exact ⟨_, _, rfl, hholds, rfl, ⟨m, hpos, hmn, hpacket⟩, hplaced⟩

theorem Holds.sent_eq (h : b.Holds stream) :
    b.firstByteSeq + b.sentSize = seqAt b.firstByteSeq (totalSize b.sentList) := by
  rw [h.sentSize]
  rfl

theorem Holds.sizeFromSequence (h : b.Holds stream) (hj : j ≤ stream.length) :
    b.sizeFromSequence (seqAt b.firstByteSeq j) = BitVec.ofNat 32 (stream.length - j) := by
  have hbound := h.bound
  have htail : b.tailSequence = seqAt b.firstByteSeq stream.length := by
    unfold TcpTxBuffer.tailSequence
    rw [h.size]
    rfl
  unfold TcpTxBuffer.sizeFromSequence
  rw [htail, if_pos ((ge_seqAt hbound (by omega)).mpr hj), sub_seqAt hj]

/-- The cases of a copy from within the buffer. In the last one the values are compared, and the
block does not reach 2 ^ 32. -/
theorem Holds.copy_cases (h : b.Holds stream) (hn : 0 < n) (hn' : n < 2 ^ 32) {s : ℕ}
    (hs : s = min n (stream.length - j)) (hlt : j < stream.length) (fuel : ℕ) :
    b.copyFromSequence (seqAt b.firstByteSeq j) (fuel + 1) (BitVec.ofNat 32 n) =
      if j + s ≤ totalSize b.sentList then
        (b.getTransmittedSegment (BitVec.ofNat 32 s) (seqAt b.firstByteSeq j)).map
          fun r => (some r.1, r.2)
      else if totalSize b.sentList ≤ j then
        if totalSize b.sentList = j then
          (b.getNewSegment (BitVec.ofNat 32 s)).map fun r => (some r.1, r.2)
        else none
      else if (seqAt b.firstByteSeq j).toNat + s < 2 ^ 32 then
        b.copyFromSequence (seqAt b.firstByteSeq j) fuel
          (BitVec.ofNat 32 (totalSize b.sentList - j))
      else none := by
  have hbound := h.bound
  have htotal := h.totalSize_eq
  generalize hS : totalSize b.sentList = S at *
  have hfirst : ¬ Gt b.firstByteSeq (seqAt b.firstByteSeq j) := by
    have hgt := @gt_seqAt b.firstByteSeq 0 j (by omega) (by omega)
    rw [seqAt_zero] at hgt
    exact mt hgt.mp (Nat.not_lt_zero j)
  have hzero : ¬ BitVec.ofNat 32 s = 0 := by
    intro hc
    have hmod : s % 2 ^ 32 = 0 := by simpa using congrArg BitVec.toNat hc
    omega
  have hge : Ge (seqAt b.firstByteSeq S) (seqAt b.firstByteSeq (j + s)) ↔ j + s ≤ S :=
    ge_seqAt (by omega) (by omega)
  have hle : Le (seqAt b.firstByteSeq S) (seqAt b.firstByteSeq j) ↔ S ≤ j :=
    le_seqAt (by omega) (by omega)
  have heq : seqAt b.firstByteSeq S = seqAt b.firstByteSeq j ↔ S = j :=
    seqAt_inj (by omega) (by omega)
  rw [TcpTxStream.copyFromSequence, if_neg hfirst, h.sizeFromSequence hlt.le,
    least_ofNat hn' (by omega), ← hs]
  simp only [h.sent_eq, hS, if_neg hzero, seqAt_add, hge, hle, heq]
  by_cases hwhole : j + s ≤ S
  · rw [if_pos hwhole, if_pos hwhole]
  rw [if_neg hwhole, if_neg hwhole]
  by_cases hnew : S ≤ j
  · rw [if_pos hnew, if_pos hnew]
  rw [if_neg hnew, if_neg hnew, sub_seqAt (by omega)]
  have hvalues : (seqAt b.firstByteSeq j < seqAt b.firstByteSeq S ∧
      seqAt b.firstByteSeq S < seqAt b.firstByteSeq (j + s)) ↔
      (seqAt b.firstByteSeq j).toNat + s < 2 ^ 32 := by
    have hS' := toNat_seqAt_cases (seqAt b.firstByteSeq j) (o := S - j) (by omega)
    have hs' := toNat_seqAt_cases (seqAt b.firstByteSeq j) (o := s) (by omega)
    rw [seqAt_seqAt, Nat.add_sub_cancel' (by omega)] at hS'
    rw [seqAt_seqAt] at hs'
    have hend := (seqAt b.firstByteSeq (j + s)).isLt
    rw [BitVec.lt_def, BitVec.lt_def]
    omega
  simp only [hvalues]

/-- A block whose first bytes are sent, and not all of them, reaches the value 2 ^ 32. -/
def Crosses (b : TcpTxStream) (j s : ℕ) : Prop :=
  j < totalSize b.sentList ∧ totalSize b.sentList < j + s ∧
    2 ^ 32 ≤ (seqAt b.firstByteSeq j).toNat + s

instance (b : TcpTxStream) (j s : ℕ) : Decidable (b.Crosses j s) :=
  inferInstanceAs (Decidable (_ ∧ _ ∧ _))

theorem Holds.copy_sent (h : b.Holds stream) (hn : 0 < n) (hn' : n < 2 ^ 32) (fuel : ℕ)
    (hlt : j < stream.length) (hle : j + min n (stream.length - j) ≤ totalSize b.sentList) :
    ∃ item b', b.copyFromSequence (seqAt b.firstByteSeq j) (fuel + 1) (BitVec.ofNat 32 n) =
      some (some item, b') ∧ b.Copied b' stream j n item := by
  obtain ⟨item, b', hrun, hcopied⟩ := h.getTransmittedSegment (by omega) hle
  refine ⟨item, b', ?_, hcopied.holds, hcopied.firstByteSeq, ?_, hcopied.startSeq⟩
  · rw [h.copy_cases hn hn' rfl hlt, if_pos hle, hrun]
    rfl
  · obtain ⟨m, hm, hmn, hpacket⟩ := hcopied.packet
    exact ⟨m, hm, by omega, hpacket⟩

/-- A copy from a byte that was sent, or from the first one that was not, gives bytes from there on,
unless it crosses the end of the values: then the program uses a null pointer. -/
theorem Holds.copyFromSequence (h : b.Holds stream) (hn : 0 < n) (hn' : n < 2 ^ 32)
    (hj : j ≤ totalSize b.sentList) (hlt : j < stream.length) :
    if b.Crosses j (min n (stream.length - j)) then
      b.copyFromSequence (seqAt b.firstByteSeq j) 2 (BitVec.ofNat 32 n) = none
    else
      ∃ item b', b.copyFromSequence (seqAt b.firstByteSeq j) 2 (BitVec.ofNat 32 n) =
        some (some item, b') ∧ b.Copied b' stream j n item := by
  have htotal := h.totalSize_eq
  have hbound := h.bound
  by_cases hwhole : j + min n (stream.length - j) ≤ totalSize b.sentList
  · rw [if_neg fun hc => absurd hc.2.1 (Nat.not_lt_of_le hwhole)]
    exact h.copy_sent hn hn' 1 hlt hwhole
  rw [h.copy_cases hn hn' rfl hlt, if_neg hwhole]
  rcases hj.lt_or_eq with hpart | rfl
  · rw [if_neg (show ¬ totalSize b.sentList ≤ j by omega)]
    by_cases hvalue : (seqAt b.firstByteSeq j).toNat + min n (stream.length - j) < 2 ^ 32
    · -- the part that is sent
      rw [if_neg fun hc => absurd hc.2.2 (Nat.not_le_of_lt hvalue), if_pos hvalue]
      obtain ⟨item, b', hrun, hcopied⟩ := @Holds.copy_sent b stream (totalSize b.sentList - j) j h
        (by omega) (by omega) 0 hlt (by omega)
      refine ⟨item, b', hrun, hcopied.holds, hcopied.firstByteSeq, ?_, hcopied.startSeq⟩
      obtain ⟨m, hm, hmn, hpacket⟩ := hcopied.packet
      exact ⟨m, hm, by omega, hpacket⟩
    · rw [if_pos ⟨hpart, by omega, by omega⟩, if_neg hvalue]
  · rw [if_neg fun hc => absurd hc.1 (lt_irrefl _), if_pos le_rfl, if_pos rfl]
    obtain ⟨item, b', hrun, hholds, hpacket, hfirst, -, hstart⟩ :=
      h.getNewSegment (n := min n (stream.length - totalSize b.sentList)) (by omega) (by omega)
    refine ⟨item, b', by rw [hrun]; rfl, hholds, hfirst, ?_, hstart⟩
    refine ⟨min n (stream.length - totalSize b.sentList), by omega, by omega, ?_⟩
    have hdrop : stream.drop (totalSize b.sentList) = content b.appList := by
      rw [← h.bytes, content_append, ← length_content, List.drop_left]
    rw [hpacket, hdrop]

/-! ## Discarding -/

/-- The bytes of a packet that has another size. -/
theorem Holds.head (h : b.Holds stream) {item : TcpTxItem} (hsent : b.sentList = item :: items) :
    0 < item.packet.length ∧ item.packet.length ≤ stream.length ∧
      stream = item.packet ++ content (items ++ b.appList) := by
  have hbytes := h.bytes
  have htotal := h.totalSize_eq
  rw [hsent] at hbytes htotal
  rw [TcpTxBuffer.totalSize_cons] at htotal
  refine ⟨List.length_pos_of_ne_nil (h.nonempty item ?_), by omega, hbytes.symm⟩
  rw [hsent]
  exact List.mem_cons_self

theorem Holds.removeHead (h : b.Holds stream) {item : TcpTxItem}
    (hsent : b.sentList = item :: items) :
    (b.removeHead item item.packet.getSize items).Holds (stream.drop item.packet.length) := by
  have hbound := h.bound
  obtain ⟨hpos, hle, hstream⟩ := h.head hsent
  have hplaced := h.placed
  have hsentSize := h.sentSize
  have hmem : ∀ i ∈ items ++ b.appList, i ∈ b.sentList ++ b.appList := fun i hi => by
    rw [hsent]
    exact List.mem_cons_of_mem _ hi
  have hdistinct := h.distinct
  rw [hsent] at hplaced hsentSize hdistinct
  refine ⟨?_, fun i hi => h.nonempty i (hmem i hi), ?_, fun i hi => h.fresh i (hmem i hi),
    placed_tail hplaced, ?_, ?_, ?_⟩
  · conv_rhs => rw [hstream]
    rw [List.drop_left]
    rfl
  · rw [List.cons_append, List.map_cons, List.nodup_cons] at hdistinct
    exact hdistinct.2
  · show b.size - item.packet.getSize = _
    rw [h.size, List.length_drop]
    exact BitVec.ofNat_sub_ofNat_of_le _ _ (by omega) hle
  · show b.sentSize - item.packet.getSize = BitVec.ofNat 32 (totalSize items)
    rw [hsentSize, TcpTxBuffer.totalSize_cons, Packet.getSize,
      BitVec.ofNat_sub_ofNat_of_le _ _ (by omega) (Nat.le_add_right _ _), Nat.add_sub_cancel_left]
  · rw [List.length_drop]
    omega

theorem Holds.cutHead (h : b.Holds stream) {item : TcpTxItem} (hsent : b.sentList = item :: items)
    {d : ℕ} (hd : d < item.packet.length) :
    (b.cutHead item (BitVec.ofNat 32 d) items).Holds (stream.drop d) := by
  have hbound := h.bound
  obtain ⟨hpos, hle, hstream⟩ := h.head hsent
  have hrest : item.packet.createFragment (BitVec.ofNat 32 d)
      (item.packet.getSize - BitVec.ofNat 32 d) = item.packet.drop d := by
    rw [Packet.getSize, BitVec.ofNat_sub_ofNat_of_le _ _ (by omega) hd.le,
      Packet.createFragment_eq (by omega) (by omega), List.take_of_length_le]
    rw [List.length_drop]
  have hplaced := h.placed
  have hsentSize := h.sentSize
  have hdistinct := h.distinct
  have hmem : ∀ i ∈ item :: items ++ b.appList, i ∈ b.sentList ++ b.appList := fun i hi => by
    rw [hsent]
    exact hi
  rw [hsent] at hplaced hsentSize hdistinct
  unfold TcpTxStream.cutHead
  rw [hrest]
  refine ⟨?_, ?_, hdistinct, ?_, ?_, ?_, ?_, ?_⟩
  · conv_rhs => rw [hstream]
    rw [List.drop_append_of_le_length hd.le]
    rfl
  · intro i hi
    rcases List.mem_cons.mp hi with rfl | hi
    · refine List.ne_nil_of_length_pos ?_
      rw [List.length_drop]
      omega
    · exact h.nonempty i (hmem i (List.mem_cons_of_mem _ hi))
  · intro i hi
    rcases List.mem_cons.mp hi with rfl | hi
    · exact h.fresh item (hmem item List.mem_cons_self)
    · exact h.fresh i (hmem i (List.mem_cons_of_mem _ hi))
  · have hfirst : b.startSeq item.ref = b.firstByteSeq := by
      have := hplaced (0, item) List.mem_cons_self
      rwa [seqAt_zero] at this
    intro p hp
    show Function.update b.startSeq item.ref (b.startSeq item.ref + BitVec.ofNat 32 d) p.2.ref =
      seqAt (b.firstByteSeq + BitVec.ofNat 32 d) p.1
    rcases List.mem_cons.mp hp with rfl | hp
    · rw [Function.update_self, seqAt_zero, hfirst]
    · have hlater : (d + p.1, p.2) ∈ offsets (0 + item.packet.length) items := by
        have hmem := List.mem_map_of_mem (f := fun q : ℕ × TcpTxItem => (d + q.1, q.2)) hp
        rw [← offsets_add, List.length_drop] at hmem
        rwa [show 0 + item.packet.length = d + (0 + (item.packet.length - d)) by omega]
      have hne : p.2.ref ≠ item.ref := by
        intro heq
        rw [List.cons_append, List.map_cons, List.nodup_cons] at hdistinct
        exact hdistinct.1 (heq ▸ List.mem_map_of_mem
          (List.mem_append_left _ (mem_of_mem_offsets hp)))
      have hstart : b.startSeq p.2.ref = seqAt b.firstByteSeq (d + p.1) :=
        hplaced _ (List.mem_cons_of_mem _ hlater)
      rw [Function.update_of_ne hne, hstart, ← seqAt_seqAt]
      rfl
  · show b.size - BitVec.ofNat 32 d = _
    rw [h.size, List.length_drop]
    exact BitVec.ofNat_sub_ofNat_of_le _ _ (by omega) (by omega)
  · show b.sentSize - BitVec.ofNat 32 d = BitVec.ofNat 32 (totalSize (_ :: items))
    rw [hsentSize, TcpTxBuffer.totalSize_cons, TcpTxBuffer.totalSize_cons,
      BitVec.ofNat_sub_ofNat_of_le _ _ (by omega) (by omega), List.length_drop]
    congr 1
    omega
  · rw [List.length_drop]
    omega

/-- The sent list gets an item with all the bytes that there are, up to the number. -/
theorem Holds.fillSentList (h : b.Holds stream) (hsent : b.sentList = []) (hn : 0 < n)
    (hn' : n < 2 ^ 32) (hlt : 0 < stream.length) :
    ∃ item b', b.fillSentList (BitVec.ofNat 32 n) = some b' ∧ b'.Holds stream ∧
      b'.firstByteSeq = b.firstByteSeq ∧ b'.sentList = [item] ∧
      item.packet.length = min n stream.length := by
  have htotal := h.totalSize_eq
  rw [hsent, TcpTxBuffer.totalSize_nil, Nat.zero_add] at htotal
  obtain ⟨item, b', hrun, hholds, hpacket, hfirst, hlist, -⟩ :=
    h.getNewSegment (n := min n stream.length) (by omega) (by omega)
  have hcopy := h.copy_cases (j := 0) (s := min n stream.length) hn hn' rfl hlt 1
  rw [hsent, TcpTxBuffer.totalSize_nil, if_neg (by omega), if_pos le_rfl, if_pos rfl, hrun,
    seqAt_zero] at hcopy
  refine ⟨item, b', ?_, hholds, hfirst, ?_, ?_⟩
  · unfold TcpTxStream.fillSentList
    rw [hsent]
    dsimp only
    rw [hcopy]
    rfl
  · rw [hlist, hsent, List.nil_append]
  · rw [hpacket, List.length_take, length_content]
    omega

theorem Holds.discard_goes (h : b.Holds stream) {d : ℕ} (hd : d < 2 ^ 32) :
    (0 < b.size ∧ 0 < BitVec.ofNat 32 d) ↔ 0 < stream.length ∧ 0 < d := by
  have hbound := h.bound
  have hpos : ∀ k < 2 ^ 32, 0 < BitVec.ofNat 32 k ↔ 0 < k := by
    intro k hk
    rw [BitVec.lt_def, BitVec.toNat_ofNat, Nat.mod_eq_of_lt hk]
    rfl
  rw [h.size, hpos _ (by omega), hpos _ hd]

/-- The loop ends: there are no bytes, or none to take off. -/
theorem Holds.discardLoop_end (h : b.Holds stream) {d : ℕ} (hd : d < 2 ^ 32)
    (hdone : ¬ (0 < stream.length ∧ 0 < d)) (fuel : ℕ) :
    discardLoop (fuel + 1) (BitVec.ofNat 32 d) b = some b ∧ b.Holds (stream.drop d) ∧
      b.firstByteSeq = seqAt b.firstByteSeq (min d stream.length) := by
  have hzero : min d stream.length = 0 := by omega
  have hsame : stream.drop d = stream := by
    rcases Nat.eq_zero_or_pos d with rfl | hpos
    · exact List.drop_zero
    · obtain rfl := List.length_eq_zero_iff.mp (show stream.length = 0 by omega)
      exact List.drop_nil
  rw [discardLoop, if_neg (mt (h.discard_goes hd).mp hdone), hzero, seqAt_zero, hsame]
  exact ⟨rfl, h, rfl⟩

/-- The loop takes bytes off the head. -/
theorem Holds.discardLoop_head (h : b.Holds stream) {d : ℕ} (hd : d < 2 ^ 32)
    (hmore : 0 < stream.length ∧ 0 < d) {b₁ : TcpTxStream} {item : TcpTxItem}
    (hfill : b.fillSentList (BitVec.ofNat 32 d) = some b₁) (hsent : b₁.sentList = item :: items)
    (hitem : item.packet.length < 2 ^ 32) (fuel : ℕ) :
    discardLoop (fuel + 1) (BitVec.ofNat 32 d) b =
      if item.packet.length ≤ d then
        discardLoop fuel (BitVec.ofNat 32 (d - item.packet.length))
          (b₁.removeHead item item.packet.getSize items)
      else some (b₁.cutHead item (BitVec.ofNat 32 d) items) := by
  have hle : item.packet.getSize ≤ BitVec.ofNat 32 d ↔ item.packet.length ≤ d := by
    rw [Packet.getSize, BitVec.le_def, BitVec.toNat_ofNat, BitVec.toNat_ofNat,
      Nat.mod_eq_of_lt hitem, Nat.mod_eq_of_lt hd]
  rw [discardLoop, if_pos ((h.discard_goes hd).mpr hmore), hfill]
  dsimp only
  rw [hsent]
  dsimp only
  by_cases hwhole : item.packet.length ≤ d
  · rw [if_pos (hle.mpr hwhole), if_pos hwhole, Packet.getSize,
      BitVec.ofNat_sub_ofNat_of_le _ _ hitem hwhole]
  · rw [if_neg (mt hle.mp hwhole), if_neg hwhole]

/-- The loop takes off as many bytes as it can. -/
theorem Holds.discardLoop {d fuel : ℕ} (h : b.Holds stream) (hd : d < 2 ^ 32)
    (hfuel : b.sentList.length + 2 ≤ fuel) :
    ∃ b', TcpTxStream.discardLoop fuel (BitVec.ofNat 32 d) b = some b' ∧
      b'.Holds (stream.drop d) ∧ b'.firstByteSeq = seqAt b.firstByteSeq (min d stream.length) := by
  induction fuel generalizing b stream d with
  | zero => omega
  | succ fuel ih =>
    have hbound := h.bound
    by_cases hmore : 0 < stream.length ∧ 0 < d
    swap
    · exact ⟨b, h.discardLoop_end hd hmore fuel⟩
    cases hsent : b.sentList with
    | nil =>
      -- what is moved to the sent list is taken off, and the loop ends
      obtain ⟨item, b₁, hfill, h₁, hfirst, hlist, hlength⟩ :=
        h.fillSentList hsent hmore.2 hd hmore.1
      obtain ⟨fuel, rfl⟩ : ∃ k, fuel = k + 1 := ⟨fuel - 1, by omega⟩
      rw [h.discardLoop_head hd hmore hfill hlist (by omega), if_pos (by omega)]
      have hremoved := h₁.removeHead hlist
      obtain ⟨hrun, hholds, -⟩ := hremoved.discardLoop_end (d := d - item.packet.length) (by omega)
        (by rw [List.length_drop]; omega) fuel
      refine ⟨_, hrun, ?_, ?_⟩
      · rw [List.drop_drop] at hholds
        rwa [show d = item.packet.length + (d - item.packet.length) by omega]
      · show b₁.firstByteSeq + item.packet.getSize = _
        rw [hfirst, Packet.getSize, hlength]
        rfl
    | cons item items =>
      obtain ⟨hpos, hle, -⟩ := h.head hsent
      have hfill : b.fillSentList (BitVec.ofNat 32 d) = some b := by
        unfold TcpTxStream.fillSentList
        rw [hsent]
      rw [h.discardLoop_head hd hmore hfill hsent (by omega)]
      by_cases hwhole : item.packet.length ≤ d
      · rw [if_pos hwhole]
        rw [hsent, List.length_cons] at hfuel
        obtain ⟨b', hrun, hholds, hfirst⟩ := ih (h.removeHead hsent)
          (show d - item.packet.length < 2 ^ 32 by omega) (show items.length + 2 ≤ fuel by omega)
        refine ⟨b', hrun, ?_, ?_⟩
        · rw [List.drop_drop] at hholds
          rwa [Nat.add_sub_cancel' hwhole] at hholds
        · rw [hfirst]
          show seqAt (seqAt b.firstByteSeq item.packet.length) _ = _
          rw [seqAt_seqAt, List.length_drop]
          congr 1
          omega
      · rw [if_neg hwhole]
        refine ⟨_, rfl, h.cutHead hsent (by omega), ?_⟩
        show seqAt b.firstByteSeq d = _
        rw [Nat.min_eq_left (by omega)]

theorem moveHeadSack_same (b : TcpTxStream) : b.Same b.moveHeadSack := by
  unfold moveHeadSack
  split
  · exact .refl b
  · rename_i head items hsent
    split
    · refine Same.trans ?_ ((addRenoSack_same _).trans (markHeadAsLost_same _))
      refine ⟨?_, rfl, rfl, rfl, rfl, rfl, rfl⟩
      rw [hsent]
      rfl
    · exact .refl b

/-- Without bytes there are no items. -/
theorem Holds.empty (h : b.Holds []) : b.sentList = [] := by
  have htotal := h.totalSize_eq
  cases hsent : b.sentList with
  | nil => rfl
  | cons item items =>
    have hpos := (h.head hsent).1
    rw [hsent, TcpTxBuffer.totalSize_cons, List.length_nil] at htotal
    omega

/-- `DiscardUpTo` takes off the bytes before a number that is ahead. -/
theorem Holds.discardUpTo (h : b.Holds stream) {seq : SequenceNumber32}
    (hahead : ¬ Ge b.firstByteSeq seq) :
    ∃ b', b.discardUpTo seq = some b' ∧ b'.Holds (stream.drop (seq - b.firstByteSeq).toNat) ∧
      b'.firstByteSeq = seq := by
  have hoffset : seqAt b.firstByteSeq (seq - b.firstByteSeq).toNat = seq := by
    unfold seqAt
    rw [BitVec.ofNat_toNat, BitVec.setWidth_eq, BitVec.add_comm, BitVec.sub_add_cancel]
  obtain ⟨b₁, hrun, h₁, hfirst⟩ := h.discardLoop (d := (seq - b.firstByteSeq).toNat)
    (seq - b.firstByteSeq).isLt le_rfl
  rw [BitVec.ofNat_toNat, BitVec.setWidth_eq] at hrun
  generalize (seq - b.firstByteSeq).toNat = d at *
  unfold TcpTxStream.discardUpTo
  rw [if_neg hahead, hrun]
  dsimp only
  have hsize : b₁.size = 0 ↔ stream.length ≤ d := by
    have hbound := h.bound
    rw [h₁.size, ← BitVec.toNat_inj, BitVec.toNat_ofNat, List.length_drop,
      Nat.mod_eq_of_lt (by omega)]
    show _ = 0 ↔ _
    omega
  have hmoved : Holds (if b₁.size = 0 then { b₁ with firstByteSeq := seq } else b₁)
      (stream.drop d) ∧
      (if b₁.size = 0 then { b₁ with firstByteSeq := seq } else b₁).firstByteSeq = seq := by
    by_cases hall : stream.length ≤ d
    · rw [if_pos (hsize.mpr hall)]
      have hempty : b₁.sentList = [] := Holds.empty (List.drop_eq_nil_of_le hall ▸ h₁)
      refine ⟨⟨h₁.bytes, h₁.nonempty, h₁.distinct, h₁.fresh, ?_, h₁.size, h₁.sentSize, h₁.bound⟩,
        rfl⟩
      intro p hp
      rw [hempty] at hp
      cases hp
    · rw [if_neg (mt hsize.mp hall)]
      rw [Nat.min_eq_left (by omega), hoffset] at hfirst
      exact ⟨h₁, hfirst⟩
  obtain ⟨hholds, hseq⟩ := hmoved
  generalize (if b₁.size = 0 then { b₁ with firstByteSeq := seq } else b₁) = b₂ at *
  have hsame := moveHeadSack_same b₂
  refine ⟨_, rfl, hholds.same (hsame.trans ?_), ?_⟩
  · split
    · exact ⟨rfl, rfl, rfl, rfl, rfl, rfl, rfl⟩
    · exact .refl _
  · rw [← hseq, ← hsame.firstByteSeq]
    split <;> rfl

end TcpTxStream

end Ns3.Internet
