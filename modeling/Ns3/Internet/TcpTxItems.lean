import Mathlib.Data.List.Flatten
import Ns3.Internet.LostMarks

/-!
# Items that are split and merged

`SplitItems`, `MergeItems` and `GetPacketFromList` of `tcp-tx-buffer.cc`. Where an
item starts is kept by its number. Every edit keeps the bytes of the list, and a
search within the bytes ends with an item of exactly those asked for
(`getPacketFromList_eq`).
-/

namespace Ns3.Internet

open Ns3.Network
open SequenceNumber

namespace TcpTxBuffer

/-- A list with what its edits change: `m_retrans`, the start of each item by its number, and the
number of the next new item. -/
structure ItemList where
  items : List TcpTxItem
  retrans : BitVec 32
  startSeq : ℕ → SequenceNumber32
  nextRef : ℕ

namespace ItemList

/-- `SplitItems`: the first `size` bytes of an item become one of their own, which is inserted
before the rest. -/
def splitItems (l : ItemList) (before : List TcpTxItem) (t2 : TcpTxItem) (after : List TcpTxItem)
    (size : BitVec 32) : TcpTxItem × ItemList :=
  let t1 := { t2 with ref := l.nextRef, packet := t2.packet.createFragment 0 size }
  (t1, { l with
    items := before ++ t1 :: { t2 with packet := t2.packet.drop size.toNat } :: after
    startSeq := Function.update (Function.update l.startSeq t1.ref (l.startSeq t2.ref)) t2.ref
      (l.startSeq t2.ref + size)
    nextRef := l.nextRef + 1 })

/-- `MergeItems`: the second item is put at the end of the first one, and then erased. -/
def mergeItems (l : ItemList) (before : List TcpTxItem) (t1 t2 : TcpTxItem)
    (after : List TcpTxItem) : ItemList :=
  let t := { t1 with
    packet := t1.packet ++ t2.packet
    retrans := if t1.retrans ≠ t2.retrans then false else t1.retrans }
  { l with
    items := before ++ t :: after
    retrans :=
      if t1.retrans ≠ t2.retrans then
        l.retrans - if t1.retrans = true then t1.packet.getSize else t2.packet.getSize
      else l.retrans }

/-- The items before the one whose end is beyond `seq`, that item, those after it, and where it
begins. -/
def findItem (seq : SequenceNumber32) : List TcpTxItem → SequenceNumber32 →
    Option (List TcpTxItem × TcpTxItem × List TcpTxItem × SequenceNumber32)
  | [], _ => none
  | item :: items, beginOfCurrentPacket =>
    if Lt seq (beginOfCurrentPacket + item.packet.getSize) then
      some ([], item, items, beginOfCurrentPacket)
    else
      match findItem seq items (beginOfCurrentPacket + item.packet.getSize) with
      | none => none
      | some (before, found, after, start) => some (item :: before, found, after, start)

/-- `GetPacketFromList`, which calls itself after an edit. It has no result where the program stops
or goes on for ever. The item that it has found is the current one, so it never merges that with the
one before. -/
def getPacketFromList (listStartFrom : SequenceNumber32) (numBytes : BitVec 32)
    (seq : SequenceNumber32) : ℕ → ItemList → Option (TcpTxItem × ItemList)
  | 0, _ => none
  | fuel + 1, l =>
    match findItem seq l.items listStartFrom with
    | none => none
    | some (before, current, after, beginOfCurrentPacket) =>
      let size := current.packet.getSize
      if seq = beginOfCurrentPacket then
        if Le (seq + numBytes) (beginOfCurrentPacket + size) then
          if numBytes = size then some (current, l)
          else if numBytes < size then some (l.splitItems before current after numBytes)
          else none
        else
          match after with
          | [] => some (current, l)
          | next :: after =>
            getPacketFromList listStartFrom numBytes seq fuel
              (l.mergeItems before current next after)
      else if Gt seq beginOfCurrentPacket then
        getPacketFromList listStartFrom numBytes seq fuel
          (l.splitItems before current after (seq - beginOfCurrentPacket)).2
      else none

/-! ## Edits -/

/-- The bytes of the items. -/
def content (items : List TcpTxItem) : List UInt8 := items.flatMap TcpTxItem.packet

@[simp] theorem content_nil : content [] = [] := rfl

@[simp] theorem content_cons (item : TcpTxItem) (items : List TcpTxItem) :
    content (item :: items) = item.packet ++ content items := rfl

@[simp] theorem content_append (items items' : List TcpTxItem) :
    content (items ++ items') = content items ++ content items' := List.flatMap_append

theorem length_content (items : List TcpTxItem) : (content items).length = totalSize items :=
  List.length_flatMap

/-- The items have numbers of their own, and none is empty. -/
structure Valid (l : ItemList) : Prop where
  nonempty : ∀ item ∈ l.items, item.packet ≠ []
  distinct : (l.items.map TcpTxItem.ref).Nodup
  fresh : ∀ item ∈ l.items, item.ref < l.nextRef

/-- The items start where their bytes are, from the offset on. -/
def Placed (base : SequenceNumber32) (o : ℕ) (startSeq : ℕ → SequenceNumber32)
    (items : List TcpTxItem) : Prop :=
  ∀ p ∈ offsets o items, startSeq p.2.ref = seqAt base p.1

/-- What splits and merges leave of a list. -/
structure Edited (l l' : ItemList) : Prop where
  content : content l'.items = content l.items
  valid : l'.Valid
  nextRef : l.nextRef ≤ l'.nextRef
  old : ∀ item ∈ l'.items, item.ref < l.nextRef → ∃ item' ∈ l.items, item'.ref = item.ref
  startSeq : ∀ r < l.nextRef, (∀ item ∈ l.items, item.ref ≠ r) → l'.startSeq r = l.startSeq r
  placed : ∀ {base : SequenceNumber32} {o : ℕ},
    Placed base o l.startSeq l.items → Placed base o l'.startSeq l'.items

variable {l l' l'' : ItemList} {before after : List TcpTxItem} {t t1 t2 : TcpTxItem} {n o : ℕ}
  {base : SequenceNumber32}

theorem Edited.refl (h : l.Valid) : l.Edited l where
  content := rfl
  valid := h
  nextRef := le_rfl
  old := fun item hitem _ => ⟨item, hitem, rfl⟩
  startSeq := fun _ _ _ => rfl
  placed := id

theorem Edited.trans (h : l.Edited l') (h' : l'.Edited l'') : l.Edited l'' where
  content := h'.content.trans h.content
  valid := h'.valid
  nextRef := h.nextRef.trans h'.nextRef
  old := by
    intro item hitem hlt
    obtain ⟨item', hitem', heq⟩ := h'.old item hitem (hlt.trans_le h.nextRef)
    obtain ⟨item'', hitem'', heq'⟩ := h.old item' hitem' (heq ▸ hlt)
    exact ⟨item'', hitem'', heq'.trans heq⟩
  startSeq := by
    intro r hr hne
    rw [h'.startSeq r (hr.trans_le h.nextRef) ?_, h.startSeq r hr hne]
    rintro item hitem rfl
    obtain ⟨item', hitem', heq⟩ := h.old item hitem hr
    exact hne item' hitem' heq
  placed := fun hplaced => h'.placed (h.placed hplaced)

theorem offsets_append (o : ℕ) (items items' : List TcpTxItem) :
    offsets o (items ++ items') = offsets o items ++ offsets (o + totalSize items) items' := by
  induction items generalizing o with
  | nil => rfl
  | cons item items ih =>
    rw [List.cons_append, offsets_cons, offsets_cons, ih, totalSize_cons, List.cons_append,
      Nat.add_assoc]

theorem mem_of_mem_offsets {p : ℕ × TcpTxItem} {items : List TcpTxItem} (hp : p ∈ offsets o items) :
    p.2 ∈ items := by
  have hmem := List.mem_map_of_mem (f := Prod.snd) hp
  rwa [map_snd_offsets] at hmem

/-- The items of the other list keep numbers of their own. -/
theorem Edited.distinct (h : l.Edited l') {others : List TcpTxItem}
    (hdistinct : ((others ++ l.items).map TcpTxItem.ref).Nodup)
    (hfresh : ∀ item ∈ others, item.ref < l.nextRef) :
    ((others ++ l'.items).map TcpTxItem.ref).Nodup := by
  rw [List.map_append, List.nodup_append] at hdistinct ⊢
  refine ⟨hdistinct.1, h.valid.distinct, ?_⟩
  intro r hr r' hr' heq
  obtain ⟨item, hitem, rfl⟩ := List.mem_map.mp hr
  obtain ⟨item', hitem', rfl⟩ := List.mem_map.mp hr'
  obtain ⟨item'', hitem'', heq'⟩ := h.old item' hitem' (heq ▸ hfresh item hitem)
  exact hdistinct.2.2 _ hr _ (List.mem_map_of_mem hitem'') (heq.trans heq'.symm)

/-- The item with the first bytes is the first one. -/
theorem head_of_offsets {item : TcpTxItem} {items : List TcpTxItem}
    (hitems : ∀ item ∈ items, item.packet ≠ [])
    (hmem : (o, item) ∈ offsets o items) : ∃ rest, items = item :: rest := by
  cases items with
  | nil => cases hmem
  | cons head rest =>
    have heq := (spaced_offsets o hitems).eq_of_fst hmem (List.mem_cons_self) rfl
    cases heq
    exact ⟨rest, rfl⟩

theorem Valid.split (h : l.Valid) (hitems : l.items = before ++ t :: after) (hn : 0 < n)
    (hlt : n < t.packet.length) (ht : t.packet.length < 2 ^ 32) :
    ∃ t1, (l.splitItems before t after (BitVec.ofNat 32 n)).1 = t1 ∧
      t1.packet = t.packet.take n ∧
      (l.splitItems before t after (BitVec.ofNat 32 n)).2.items =
        before ++ t1 :: { t with packet := t.packet.drop n } :: after ∧
      l.Edited (l.splitItems before t after (BitVec.ofNat 32 n)).2 := by
  have hfirst : t.packet.createFragment 0 (BitVec.ofNat 32 n) = t.packet.take n := by
    have := @Packet.createFragment_eq t.packet 0 n (by omega) (by omega)
    rwa [List.drop_zero] at this
  have hdrop : t.packet.drop (BitVec.ofNat 32 n).toNat = t.packet.drop n := by
    rw [BitVec.toNat_ofNat, Nat.mod_eq_of_lt (by omega)]
  have hmem : t ∈ l.items := by
    rw [hitems]
    exact List.mem_append_right _ List.mem_cons_self
  have hold := h.fresh t hmem
  have hdistinct := h.distinct
  rw [hitems, List.map_append, List.map_cons] at hdistinct
  have hne : ∀ item ∈ before ++ after, item.ref ≠ t.ref := by
    intro item hitem heq
    rw [List.nodup_middle, List.nodup_cons, ← List.map_append] at hdistinct
    exact hdistinct.1 (heq ▸ List.mem_map_of_mem hitem)
  have hother : ∀ item ∈ before ++ after, item ∈ l.items := by
    intro item hitem
    rw [hitems]
    rcases List.mem_append.mp hitem with hb | ha
    · exact List.mem_append_left _ hb
    · exact List.mem_append_right _ (List.mem_cons_of_mem _ ha)
  refine ⟨_, rfl, hfirst, by rw [← hdrop]; rfl, ?_⟩
  unfold splitItems
  simp only [hfirst, hdrop]
  refine ⟨?_, ⟨?_, ?_, ?_⟩, Nat.le_succ _, ?_, ?_, ?_⟩
  · dsimp only
    rw [hitems]
    simp only [content_append, content_cons]
    rw [← List.append_assoc (t.packet.take n), List.take_append_drop]
  · intro item hitem
    simp only [List.mem_append, List.mem_cons] at hitem
    rcases hitem with hb | rfl | rfl | ha
    · exact h.nonempty _ (hother _ (List.mem_append_left _ hb))
    · refine List.ne_nil_of_length_pos ?_
      rw [List.length_take]
      omega
    · refine List.ne_nil_of_length_pos ?_
      rw [List.length_drop]
      omega
    · exact h.nonempty _ (hother _ (List.mem_append_right _ ha))
  · dsimp only
    rw [List.map_append, List.map_cons, List.map_cons, List.nodup_middle, List.nodup_cons]
    refine ⟨fun hin => ?_, hdistinct⟩
    obtain ⟨item, hitem, heq⟩ : ∃ item ∈ l.items, item.ref = l.nextRef := by
      rw [← List.map_cons (f := TcpTxItem.ref), ← List.map_append] at hin
      obtain ⟨item, hitem, heq⟩ := List.mem_map.mp hin
      simp only [List.mem_append, List.mem_cons] at hitem
      rcases hitem with hb | rfl | ha
      · exact ⟨item, hother _ (List.mem_append_left _ hb), heq⟩
      · exact ⟨t, hmem, heq⟩
      · exact ⟨item, hother _ (List.mem_append_right _ ha), heq⟩
    exact absurd heq (h.fresh item hitem).ne
  · intro item hitem
    simp only [List.mem_append, List.mem_cons] at hitem
    dsimp only
    rcases hitem with hb | rfl | rfl | ha
    · exact (h.fresh _ (hother _ (List.mem_append_left _ hb))).trans (Nat.lt_succ_self _)
    · exact Nat.lt_succ_self _
    · exact hold.trans (Nat.lt_succ_self _)
    · exact (h.fresh _ (hother _ (List.mem_append_right _ ha))).trans (Nat.lt_succ_self _)
  · intro item hitem hlt
    simp only [List.mem_append, List.mem_cons] at hitem
    rcases hitem with hb | rfl | rfl | ha
    · exact ⟨item, hother _ (List.mem_append_left _ hb), rfl⟩
    · exact absurd hlt (lt_irrefl _)
    · exact ⟨t, hmem, rfl⟩
    · exact ⟨item, hother _ (List.mem_append_right _ ha), rfl⟩
  · intro r hr hnot
    dsimp only
    rw [Function.update_of_ne (hnot t hmem).symm, Function.update_of_ne hr.ne]
  · intro base o hplaced
    have hstart : l.startSeq t.ref = seqAt base (o + totalSize before) := by
      refine hplaced (_, t) ?_
      rw [hitems, offsets_append]
      exact List.mem_append_right _ List.mem_cons_self
    have hkeep : ∀ item ∈ before ++ after,
        Function.update (Function.update l.startSeq l.nextRef (l.startSeq t.ref)) t.ref
          (l.startSeq t.ref + BitVec.ofNat 32 n) item.ref = l.startSeq item.ref := by
      intro item hitem
      rw [Function.update_of_ne (hne item hitem),
        Function.update_of_ne (h.fresh item (hother item hitem)).ne]
    intro p hp
    dsimp only at hp ⊢
    rw [offsets_append, offsets_cons, offsets_cons] at hp
    have hlater : o + totalSize before + (t.packet.take n).length + (t.packet.drop n).length =
        o + totalSize before + t.packet.length := by
      rw [List.length_take, List.length_drop]
      omega
    simp only [hlater, List.mem_append, List.mem_cons] at hp
    rcases hp with hb | rfl | rfl | ha
    · rw [hkeep _ (List.mem_append_left _ (mem_of_mem_offsets hb))]
      refine hplaced p ?_
      rw [hitems, offsets_append]
      exact List.mem_append_left _ hb
    · dsimp only
      rw [Function.update_of_ne hold.ne', Function.update_self, hstart]
    · dsimp only
      rw [Function.update_self, hstart, seqAt_add, List.length_take, Nat.min_eq_left (by omega)]
    · rw [hkeep _ (List.mem_append_right _ (mem_of_mem_offsets ha))]
      refine hplaced p ?_
      rw [hitems, offsets_append, offsets_cons]
      exact List.mem_append_right _ (List.mem_cons_of_mem _ ha)

theorem Valid.merge (h : l.Valid) (hitems : l.items = before ++ t1 :: t2 :: after) :
    l.Edited (l.mergeItems before t1 t2 after) := by
  have hin : ∀ item ∈ before ++ t1 :: after, item ∈ l.items := by
    intro item hitem
    rw [hitems]
    simp only [List.mem_append, List.mem_cons] at hitem ⊢
    tauto
  have hmem : t1 ∈ l.items := hin t1 (List.mem_append_right _ List.mem_cons_self)
  have hrefs : ((l.mergeItems before t1 t2 after).items.map TcpTxItem.ref) =
      (before ++ t1 :: after).map TcpTxItem.ref := by
    unfold mergeItems
    simp only [List.map_append, List.map_cons]
  have hback : ∀ item ∈ (l.mergeItems before t1 t2 after).items,
      ∃ item' ∈ l.items, item'.ref = item.ref := by
    intro item hitem
    have hmem := List.mem_map_of_mem (f := TcpTxItem.ref) hitem
    rw [hrefs] at hmem
    obtain ⟨item', hitem', heq⟩ := List.mem_map.mp hmem
    exact ⟨item', hin item' hitem', heq⟩
  refine ⟨?_, ⟨?_, ?_, ?_⟩, le_rfl, fun item hitem _ => hback item hitem, fun _ _ _ => rfl, ?_⟩
  · rw [hitems]
    unfold mergeItems
    simp only [content_append, content_cons, List.append_assoc]
  · intro item hitem
    unfold mergeItems at hitem
    simp only [List.mem_append, List.mem_cons] at hitem
    rcases hitem with hb | rfl | ha
    · exact h.nonempty item (hin item (List.mem_append_left _ hb))
    · exact List.append_ne_nil_of_left_ne_nil (h.nonempty t1 hmem) _
    · exact h.nonempty item (hin item (List.mem_append_right _ (List.mem_cons_of_mem _ ha)))
  · rw [hrefs]
    have hdistinct := h.distinct
    rw [hitems] at hdistinct
    refine hdistinct.sublist (List.Sublist.map _ (List.Sublist.append_left ?_ before))
    exact (List.sublist_cons_self t2 after).cons_cons t1
  · intro item hitem
    obtain ⟨item', hitem', heq⟩ := hback item hitem
    rw [← heq]
    exact h.fresh item' hitem'
  · intro base o hplaced p hp
    unfold mergeItems at hp
    dsimp only at hp
    rw [offsets_append, offsets_cons] at hp
    rw [hitems] at hplaced
    unfold Placed at hplaced
    rw [offsets_append, offsets_cons, offsets_cons] at hplaced
    rcases List.mem_append.mp hp with hb | hp
    · exact hplaced p (List.mem_append_left _ hb)
    rcases List.mem_cons.mp hp with rfl | ha
    · exact hplaced (_, t1) (List.mem_append_right _ List.mem_cons_self)
    · refine hplaced p (List.mem_append_right _ (List.mem_cons_of_mem _
        (List.mem_cons_of_mem _ ?_)))
      dsimp only at ha
      rwa [List.length_append, ← Nat.add_assoc] at ha

/-! ## The search -/

/-- An offset within an item finds it. -/
theorem findItem_eq {r : ℕ} (hr : r < t.packet.length)
    (hL : o + totalSize before + t.packet.length < 2 ^ 31) :
    findItem (seqAt base (o + totalSize before + r)) (before ++ t :: after) (seqAt base o) =
      some (before, t, after, seqAt base (o + totalSize before)) := by
  induction before generalizing o with
  | nil =>
    rw [totalSize_nil, Nat.add_zero] at hL ⊢
    rw [List.nil_append, findItem, add_getSize,
      if_pos ((lt_seqAt (by omega) (by omega)).mpr (by omega))]
  | cons item before ih =>
    rw [totalSize_cons] at hL ⊢
    rw [List.cons_append, findItem, add_getSize,
      if_neg (mt (lt_seqAt (by omega) (by omega)).mp (by omega))]
    have hrest := @ih (o + item.packet.length) (by omega)
    rw [← Nat.add_assoc o, hrest]

/-- The item that a byte is in. -/
theorem exists_item {items : List TcpTxItem} (ho : o < totalSize items) :
    ∃ before t after r, items = before ++ t :: after ∧ o = totalSize before + r ∧
      r < t.packet.length := by
  induction items generalizing o with
  | nil => exact absurd ho (Nat.not_lt_zero _)
  | cons item items ih =>
    rw [totalSize_cons] at ho
    by_cases hlt : o < item.packet.length
    · exact ⟨[], item, items, o, rfl, (Nat.zero_add _).symm, hlt⟩
    · obtain ⟨before, t, after, r, rfl, heq, hr⟩ := @ih (o - item.packet.length) (by omega)
      refine ⟨item :: before, t, after, r, rfl, ?_, hr⟩
      rw [totalSize_cons]
      omega

/-- A search from where an item starts. -/
theorem getPacketFromList_first (h : l.Valid) (hitems : l.items = before ++ t :: after)
    (hL : totalSize l.items < 2 ^ 31) (hend : totalSize before + n ≤ totalSize l.items)
    (fuel : ℕ) :
    getPacketFromList base (BitVec.ofNat 32 n) (seqAt base (totalSize before)) (fuel + 1) l =
      if n < t.packet.length then some (l.splitItems before t after (BitVec.ofNat 32 n))
      else if n = t.packet.length then some (t, l)
      else
        match after with
        | [] => some (t, l)
        | next :: after => getPacketFromList base (BitVec.ofNat 32 n)
            (seqAt base (totalSize before)) fuel (l.mergeItems before t next after) := by
  have hpos : 0 < t.packet.length := List.length_pos_of_ne_nil
    (h.nonempty t (hitems ▸ List.mem_append_right _ List.mem_cons_self))
  have htotal := congrArg totalSize hitems
  simp only [totalSize_append, totalSize_cons] at htotal
  have hfind := @findItem_eq before after t 0 base 0 hpos (by omega)
  rw [Nat.zero_add, Nat.add_zero, seqAt_zero, ← hitems] at hfind
  have hle : Le (seqAt base (totalSize before) + BitVec.ofNat 32 n)
      (seqAt base (totalSize before) + t.packet.getSize) ↔ n ≤ t.packet.length := by
    rw [seqAt_add, add_getSize, le_seqAt (by omega) (by omega)]
    omega
  have heq : BitVec.ofNat 32 n = t.packet.getSize ↔ n = t.packet.length := by
    rw [Packet.getSize, ← BitVec.toNat_inj, BitVec.toNat_ofNat, BitVec.toNat_ofNat]
    omega
  have hlt : BitVec.ofNat 32 n < t.packet.getSize ↔ n < t.packet.length := by
    rw [BitVec.lt_def, Packet.getSize, BitVec.toNat_ofNat, BitVec.toNat_ofNat]
    omega
  rw [getPacketFromList, hfind]
  simp only [if_true, hle, heq, hlt]
  rcases lt_trichotomy n t.packet.length with hn | hn | hn
  · rw [if_pos hn.le, if_neg hn.ne, if_pos hn, if_pos hn]
  · rw [if_pos hn.le, if_pos hn, if_neg (by omega), if_pos hn]
  · rw [if_neg (by omega), if_neg (by omega), if_neg (by omega)]

/-- An item with the bytes asked for is in the list. -/
structure Found (l l' : ItemList) (o n : ℕ) (item : TcpTxItem) : Prop where
  edited : l.Edited l'
  mem : (o, item) ∈ offsets 0 l'.items
  packet : item.packet = ((content l.items).drop o).take n

/-- The bytes asked for are in one item. -/
theorem getPacketFromList_within (h : l.Valid) (hitems : l.items = before ++ t :: after)
    (hL : totalSize l.items < 2 ^ 31) (hn : 0 < n) (hle : n ≤ t.packet.length) (fuel : ℕ) :
    ∃ item l', getPacketFromList base (BitVec.ofNat 32 n) (seqAt base (totalSize before)) (fuel + 1)
      l = some (item, l') ∧ Found l l' (totalSize before) n item := by
  have htotal := congrArg totalSize hitems
  simp only [totalSize_append, totalSize_cons] at htotal
  have hbytes : ((content l.items).drop (totalSize before)).take n = t.packet.take n := by
    rw [hitems, content_append, ← length_content, List.drop_left, content_cons,
      List.take_append_of_le_length hle]
  rw [getPacketFromList_first h hitems hL (by omega)]
  rcases hle.lt_or_eq with hlt | rfl
  · obtain ⟨t1, ht1, hpacket, hlist, hedited⟩ := h.split hitems hn hlt (by omega)
    rw [if_pos hlt]
    refine ⟨t1, _, by rw [← ht1], hedited, ?_, by rw [hbytes, hpacket]⟩
    rw [hlist, offsets_append, Nat.zero_add]
    exact List.mem_append_right _ List.mem_cons_self
  · rw [if_neg (lt_irrefl _), if_pos rfl]
    refine ⟨t, l, rfl, .refl h, ?_, by rw [hbytes, List.take_length]⟩
    rw [hitems, offsets_append, Nat.zero_add]
    exact List.mem_append_right _ List.mem_cons_self

/-- From where an item starts on, the items after it are merged into it until there are enough
bytes. -/
theorem getPacketFromList_at (h : l.Valid) (hitems : l.items = before ++ t :: after)
    (hL : totalSize l.items < 2 ^ 31) (hn : 0 < n)
    (hend : totalSize before + n ≤ totalSize l.items) {fuel : ℕ} (hfuel : after.length < fuel) :
    ∃ item l', getPacketFromList base (BitVec.ofNat 32 n) (seqAt base (totalSize before)) fuel l =
      some (item, l') ∧ Found l l' (totalSize before) n item := by
  obtain ⟨fuel, rfl⟩ : ∃ k, fuel = k + 1 := ⟨fuel - 1, by omega⟩
  have htotal := congrArg totalSize hitems
  simp only [totalSize_append, totalSize_cons] at htotal
  induction after generalizing l t fuel with
  | nil =>
    rw [totalSize_nil] at htotal
    exact getPacketFromList_within h hitems hL hn (by omega) fuel
  | cons next after ih =>
    by_cases hle : n ≤ t.packet.length
    · exact getPacketFromList_within h hitems hL hn hle fuel
    obtain ⟨fuel, rfl⟩ : ∃ k, fuel = k + 1 := ⟨fuel - 1, by rw [List.length_cons] at hfuel; omega⟩
    rw [getPacketFromList_first h hitems hL hend, if_neg (by omega), if_neg (by omega)]
    have hmerge := h.merge hitems
    have hsize : totalSize (l.mergeItems before t next after).items = totalSize l.items := by
      rw [← length_content, hmerge.content, length_content]
    obtain ⟨item, l', hrun, hfound⟩ := ih hmerge.valid rfl (by omega) (by omega) fuel
      (by rw [List.length_cons] at hfuel; omega) (by
        rw [hsize, htotal, totalSize_cons, List.length_append]
        omega)
    refine ⟨item, l', hrun, hmerge.trans hfound.edited, hfound.mem, ?_⟩
    rw [hfound.packet, hmerge.content]

/-- **The search of `GetPacketFromList`** for bytes of the list ends: with an item that starts where
they do and that has exactly these bytes, in a list that still has all of them. -/
theorem getPacketFromList_eq (h : l.Valid) (hL : totalSize l.items < 2 ^ 31) (hn : 0 < n)
    (hend : o + n ≤ totalSize l.items) {fuel : ℕ} (hfuel : l.items.length < fuel) :
    ∃ item l', getPacketFromList base (BitVec.ofNat 32 n) (seqAt base o) fuel l = some (item, l') ∧
      Found l l' o n item := by
  obtain ⟨before, t, after, r, hitems, rfl, hr⟩ :=
    exists_item (show o < totalSize l.items by omega)
  have htotal := congrArg totalSize hitems
  have hlength := congrArg List.length hitems
  simp only [totalSize_append, totalSize_cons] at htotal
  simp only [List.length_append, List.length_cons] at hlength
  rcases Nat.eq_zero_or_pos r with rfl | hpos
  · exact getPacketFromList_at h hitems hL hn hend (by omega)
  -- the search splits the item and starts again
  obtain ⟨fuel, rfl⟩ : ∃ k, fuel = k + 1 := ⟨fuel - 1, by omega⟩
  have hfind := @findItem_eq before after t 0 base r hr (by omega)
  rw [Nat.zero_add, seqAt_zero, ← hitems] at hfind
  rw [getPacketFromList, hfind]
  dsimp only
  rw [if_neg (mt (seqAt_inj (by omega) (by omega)).mp (by omega)),
    if_pos ((gt_seqAt (by omega) (by omega)).mpr (by omega)), sub_seqAt (Nat.le_add_right _ _),
    Nat.add_sub_cancel_left]
  obtain ⟨t1, -, hpacket, hlist, hsplit⟩ := h.split hitems hpos hr (by omega)
  generalize (l.splitItems before t after (BitVec.ofNat 32 r)).2 = l₁ at *
  have hsize : totalSize l₁.items = totalSize l.items := by
    rw [← length_content, hsplit.content, length_content]
  have hbefore : totalSize before + r = totalSize (before ++ [t1]) := by
    rw [totalSize_append, totalSize_cons, totalSize_nil, hpacket, List.length_take]
    omega
  rw [List.append_cons] at hlist
  rw [hbefore] at hend ⊢
  obtain ⟨item, l', hrun, hfound⟩ := @getPacketFromList_at l₁ (before ++ [t1]) _ _ n base
    hsplit.valid hlist (by omega) hn (by omega) fuel (by omega)
  refine ⟨item, l', hrun, hsplit.trans hfound.edited, hfound.mem, ?_⟩
  rw [hfound.packet, hsplit.content]

end ItemList

end TcpTxBuffer

end Ns3.Internet
