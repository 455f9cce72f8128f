import Ns3.Lib.Pieces
import Ns3.Lte.RlcUm

/-!
# How SDUs are cut into PDUs

`DoNotifyTxOpportunity` sends the pieces of the SDUs that wait, in order and
without a gap, in PDUs that fit their opportunities. Only the SDU at the front
of the transmission buffer may have been begun.
-/

namespace Ns3.Lte

open Ns3.Lib LteRlcUm

def TxPdu.piece (p : TxPdu) : Piece UInt8 := ⟨p.pdu, p.isFirst, p.isLast⟩

def wholeSdu (p : List UInt8) : TxPdu := ⟨p, .fullSdu⟩

/-- The tag of what is left of an SDU, by what has been sent of it. -/
def tagOf (held : Option (List UInt8)) : SduStatus :=
  if held.isNone = true then .fullSdu else .lastSegment

/-- `Owes held txBuffer sdus`: with the packets of the buffer the SDUs are complete, of the first of
which `held` has been sent. -/
inductive Owes : Option (List UInt8) → List TxPdu → List (List UInt8) → Prop
  | nothing : Owes none [] []
  | more (held : Option (List UInt8)) {rest : List UInt8} {sdus : List (List UInt8)}
      (hrest : rest ≠ []) (hsdus : ∀ p ∈ sdus, p ≠ []) :
      Owes held (⟨rest, tagOf held⟩ :: sdus.map wholeSdu) ((held.getD [] ++ rest) :: sdus)

theorem Owes.of_whole {sdus : List (List UInt8)} (h : ∀ p ∈ sdus, p ≠ []) :
    Owes none (sdus.map wholeSdu) sdus := by
  cases sdus with
  | nil => exact .nothing
  | cons p sdus =>
    exact .more none (h p List.mem_cons_self) fun q hq => h q (List.mem_cons_of_mem _ hq)

/-- An accepted SDU is owed after the others. -/
theorem Owes.append {held : Option (List UInt8)} {txBuffer : List TxPdu} {sdus : List (List UInt8)}
    {p : List UInt8} (h : Owes held txBuffer sdus) (hp : p ≠ []) :
    Owes held (txBuffer ++ [wholeSdu p]) (sdus ++ [p]) := by
  cases h with
  | nothing => exact .more none hp (fun q hq => absurd hq List.not_mem_nil)
  | @more _ rest sdus hrest hsdus =>
    have hall : ∀ q ∈ sdus ++ [p], q ≠ [] := by
      intro q hq
      rcases List.mem_append.mp hq with hq | hq
      · exact hsdus q hq
      · rwa [List.mem_singleton.mp hq]
    have h := Owes.more held hrest hall
    rwa [List.map_append] at h

/-- Where nothing waits, nothing is owed. -/
theorem Owes.nil_inv {held : Option (List UInt8)} {sdus : List (List UInt8)}
    (h : Owes held [] sdus) :
    held = none ∧ sdus = [] := by
  cases h
  exact ⟨rfl, rfl⟩

/-! ## The pieces of one PDU -/

/-- The packets that the loop adds to a data field send a prefix of what is owed, and leave the rest
owed. -/
def Sends (j : Joined UInt8) (sdus : List (List UInt8)) (dataField : List TxPdu) (t : Segments) :
    Prop :=
  ∃ new done rest, new ≠ [] ∧ t.dataField = dataField ++ new ∧ sdus = done ++ rest ∧
    (j.join (new.map TxPdu.piece)).delivered = j.delivered ++ done ∧
    Owes (j.join (new.map TxPdu.piece)).held t.txBuffer rest ∧ Seamed (new.map TxPdu.piece) ∧
    ∀ p ∈ new.head?, p.isFirst = j.held.isNone

theorem isFirst_tagOf (held : Option (List UInt8)) (p : List UInt8) :
    (⟨p, tagOf held⟩ : TxPdu).isFirst = held.isNone := by
  cases held <;> rfl

theorem isLast_tagOf (held : Option (List UInt8)) (p : List UInt8) :
    (⟨p, tagOf held⟩ : TxPdu).isLast = true := by
  cases held <;> rfl

variable {j : Joined UInt8} {first : List UInt8} {sdus : List (List UInt8)}

/-- All that is left of an SDU is sent, as the last packet of a data field. -/
theorem sends_last {dataField : List TxPdu} {t : Segments} (hsdus : ∀ p ∈ sdus, p ≠ [])
    (hdata : t.dataField = dataField ++ [⟨first, tagOf j.held⟩])
    (hbuffer : t.txBuffer = sdus.map wholeSdu) :
    Sends j ((j.held.getD [] ++ first) :: sdus) dataField t := by
  have htake : j.join [(⟨first, tagOf j.held⟩ : TxPdu).piece] =
      ⟨j.delivered ++ [j.held.getD [] ++ first], none⟩ := by
    show j.take ⟨first, _, _⟩ = _
    rw [isFirst_tagOf, isLast_tagOf, Joined.take_onward, if_pos rfl]
  refine ⟨_, [j.held.getD [] ++ first], sdus, List.cons_ne_nil _ _, hdata, rfl, ?_, ?_,
    List.isChain_singleton _, fun p hp => ?_⟩
  · rw [List.map_singleton, htake]
  · rw [List.map_singleton, htake, hbuffer]
    exact .of_whole hsdus
  · cases hp
    exact isFirst_tagOf _ _

/-- A part of what is left of an SDU is sent. -/
theorem sends_part {dataField : List TxPdu} {t : Segments} {n : ℕ} (hn : n < first.length)
    (hsdus : ∀ p ∈ sdus, p ≠ [])
    (hdata : t.dataField = dataField ++ [⟨first.take n, (cutTags (tagOf j.held)).1⟩])
    (hbuffer : t.txBuffer = ⟨first.drop n, (cutTags (tagOf j.held)).2⟩ :: sdus.map wholeSdu) :
    Sends j ((j.held.getD [] ++ first) :: sdus) dataField t := by
  have hfirst : (⟨first.take n, (cutTags (tagOf j.held)).1⟩ : TxPdu).isFirst = j.held.isNone := by
    cases j.held <;> rfl
  have hlast : (⟨first.take n, (cutTags (tagOf j.held)).1⟩ : TxPdu).isLast = false := by
    cases j.held <;> rfl
  have htake : j.join [(⟨first.take n, (cutTags (tagOf j.held)).1⟩ : TxPdu).piece] =
      ⟨j.delivered, some (j.held.getD [] ++ first.take n)⟩ := by
    show j.take ⟨first.take n, _, _⟩ = _
    rw [hfirst, hlast, Joined.take_onward, if_neg (by decide)]
  have htag : (cutTags (tagOf j.held)).2 = tagOf (some (j.held.getD [] ++ first.take n)) := by
    cases j.held <;> rfl
  refine ⟨_, [], _, List.cons_ne_nil _ _, hdata, rfl, ?_, ?_, List.isChain_singleton _,
    fun p hp => ?_⟩
  · rw [List.map_singleton, htake, List.append_nil]
  · have hrest : first.drop n ≠ [] := by
      intro hnil
      exact absurd (List.drop_eq_nil_iff.mp hnil) (by omega)
    have howes := Owes.more (some (j.held.getD [] ++ first.take n)) hrest hsdus
    rw [Option.getD_some, List.append_assoc, List.take_append_drop] at howes
    rw [List.map_singleton, htake, hbuffer, htag]
    exact howes
  · cases hp
    exact hfirst

theorem cutSegment_sends {n : ℕ} {t : Segments} (hsdus : ∀ p ∈ sdus, p ≠ [])
    (hbuffer : t.txBuffer = sdus.map wholeSdu) :
    Sends j ((j.held.getD [] ++ first) :: sdus) t.dataField
      (cutSegment ⟨first, tagOf j.held⟩ n t) := by
  unfold cutSegment
  dsimp only
  by_cases hn : n < first.length
  · rw [Nat.min_eq_right (Nat.le_of_lt hn), if_pos (by rw [List.length_drop]; omega)]
    exact sends_part hn hsdus rfl (by rw [hbuffer])
  · have hle : first.length ≤ n := Nat.le_of_not_lt hn
    rw [Nat.min_eq_left hle, List.drop_length, List.take_length, if_neg (by simp)]
    have htag : wholeTag (cutTags (tagOf j.held)).1 = tagOf j.held := by
      cases j.held <;> rfl
    exact sends_last hsdus (by rw [htag]) hbuffer

/-- **One PDU sends a prefix of what is owed.** -/
theorem segmentLoop_sends {n : ℕ} (id : ℕ) (size : UInt32) (dataField : List TxPdu)
    (header : LteRlcHeader) (hn : 0 < n) (hfirst : first ≠ []) (hsdus : ∀ p ∈ sdus, p ≠ []) :
    Sends j ((j.held.getD [] ++ first) :: sdus) dataField
      (segmentLoop (sdus.map wholeSdu) ⟨first, tagOf j.held⟩ n id size dataField header) := by
  induction sdus generalizing j first n id size dataField header with
  | nil =>
    unfold segmentLoop
    rw [if_pos ⟨List.length_pos_of_ne_nil hfirst, hn⟩]
    by_cases hcut : n < first.length ∨ 2047 < first.length
    · rw [if_pos hcut]
      exact cutSegment_sends hsdus rfl
    · rw [if_neg hcut]
      split <;> exact sends_last hsdus rfl rfl
  | cons next sdus ih =>
    unfold segmentLoop
    rw [if_pos ⟨List.length_pos_of_ne_nil hfirst, hn⟩]
    by_cases hcut : n < first.length ∨ 2047 < first.length
    · rw [if_pos hcut]
      exact cutSegment_sends hsdus rfl
    rw [if_neg hcut]
    by_cases hfull : n - first.length ≤ 2
    · rw [if_pos hfull]
      exact sends_last hsdus rfl rfl
    rw [if_neg hfull]
    have htake : j.take (⟨first, tagOf j.held⟩ : TxPdu).piece =
        ⟨j.delivered ++ [j.held.getD [] ++ first], none⟩ := by
      show j.take ⟨first, _, _⟩ = _
      rw [isFirst_tagOf, isLast_tagOf, Joined.take_onward, if_pos rfl]
    obtain ⟨new, done, rest, hne, hdata, heq, hdelivered, howes, hseam, hhead⟩ :=
      ih (j := ⟨j.delivered ++ [j.held.getD [] ++ first], none⟩)
        (n := n - ((if id % 2 = 1 then 2 else 1) + first.length)) (id + 1)
        (size - LteRlcUm.sizeOf next) (dataField ++ [⟨first, tagOf j.held⟩])
        ((header.pushExtensionBit eLiFieldsFollows).pushLengthIndicator
          (UInt16.ofNat first.length))
        (by split <;> omega) (hsdus next List.mem_cons_self)
        (fun p hp => hsdus p (List.mem_cons_of_mem _ hp))
    refine ⟨⟨first, tagOf j.held⟩ :: new, (j.held.getD [] ++ first) :: done, rest,
      List.cons_ne_nil _ _, ?_, ?_, ?_, ?_, ?_, ?_⟩
    · exact hdata.trans (List.append_assoc _ _ _)
    · rw [List.cons_append, ← heq]
      rfl
    · show ((j.take (⟨first, tagOf j.held⟩ : TxPdu).piece).join (new.map TxPdu.piece)).delivered = _
      rw [htake, hdelivered, List.append_assoc]
      rfl
    · show Owes ((j.take (⟨first, tagOf j.held⟩ : TxPdu).piece).join (new.map TxPdu.piece)).held _ _
      rw [htake]
      exact howes
    · obtain ⟨q, new, rfl⟩ := List.exists_cons_of_ne_nil hne
      exact List.isChain_cons_cons.mpr ⟨⟨isLast_tagOf _ _, hhead q rfl⟩, hseam⟩
    · intro p hp
      cases hp
      exact isFirst_tagOf _ _

/-! ## The header of one PDU -/

theorem lisLength_succ : ∀ k, LteRlcHeader.lisLength (k + 1) =
    LteRlcHeader.lisLength k + if (k + 1) % 2 = 1 then 2 else 1
  | 0 => rfl
  | 1 => rfl
  | k + 2 => by
    have hmod : (k + 2 + 1) % 2 = (k + 1) % 2 := Nat.add_mod_right (k + 1) 2
    show LteRlcHeader.lisLength (k + 1) + 3 = LteRlcHeader.lisLength k + 3 + _
    rw [lisLength_succ k, hmod, Nat.add_right_comm]

/-- The length that a header keeps is the one of so many length indicators. -/
theorem headerLength_pushExtensionBit {h : LteRlcHeader} {bit : UInt8} {k : ℕ}
    (hbits : h.extensionBits.length = k)
    (hlength : ∀ i, k = i + 1 → h.headerLength = UInt16.ofNat (2 + LteRlcHeader.lisLength i)) :
    (h.pushExtensionBit bit).headerLength = UInt16.ofNat (2 + LteRlcHeader.lisLength k) := by
  unfold LteRlcHeader.pushExtensionBit
  dsimp only
  rw [List.length_append, List.length_singleton, hbits]
  cases k with
  | zero => rfl
  | succ i =>
    rw [if_neg (by omega), hlength i rfl, lisLength_succ]
    have hmod : (i + 1 + 1) % 2 = 1 ↔ ¬ (i + 1) % 2 = 1 := by omega
    by_cases hodd : (i + 1) % 2 = 1
    · rw [if_neg (fun h => hmod.mp h hodd), if_pos hodd, ← Nat.add_assoc, UInt16.ofNat_add _ 2]
      rfl
    · rw [if_pos (hmod.mpr hodd), if_neg hodd, ← Nat.add_assoc, UInt16.ofNat_add _ 1]
      rfl

/-- While the loop goes on: each packet of the data field has its length indicator, and with the
next one there are `n` bytes left of the opportunity. -/
structure Filling (bytes : ℕ) (dataField : List TxPdu) (header : LteRlcHeader) (n : ℕ) : Prop where
  bits : header.extensionBits = List.replicate dataField.length 1
  lis : header.lengthIndicators = dataField.map fun p => UInt16.ofNat p.pdu.length
  small : ∀ p ∈ dataField, p.pdu.length < 2048
  length : ∀ i, dataField.length = i + 1 →
    header.headerLength = UInt16.ofNat (2 + LteRlcHeader.lisLength i)
  budget : 2 + LteRlcHeader.lisLength dataField.length + (dataField.flatMap TxPdu.pdu).length + n =
    bytes

/-- After it: the last packet has none. -/
structure Filled (bytes : ℕ) (t : Segments) : Prop where
  ends : t.dataField ≠ []
  bits : t.rlcHeader.extensionBits = List.replicate t.dataField.dropLast.length 1 ++ [0]
  lis : t.rlcHeader.lengthIndicators =
    t.dataField.dropLast.map fun p => UInt16.ofNat p.pdu.length
  small : ∀ p ∈ t.dataField.dropLast, p.pdu.length < 2048
  length : t.rlcHeader.headerLength =
    UInt16.ofNat (2 + LteRlcHeader.lisLength t.dataField.dropLast.length)
  fits : 2 + LteRlcHeader.lisLength t.dataField.dropLast.length +
    (t.dataField.flatMap TxPdu.pdu).length ≤ bytes

section Header

variable {bytes n id : ℕ} {dataField : List TxPdu} {header : LteRlcHeader}

/-- The last packet of a data field. -/
theorem Filling.close (h : Filling bytes dataField header n) {t : Segments} {p : TxPdu}
    (hp : p.pdu.length ≤ n) (hdata : t.dataField = dataField ++ [p])
    (hheader : t.rlcHeader = header.pushExtensionBit dataFieldFollows) : Filled bytes t := by
  obtain ⟨hbits, hlis, hsmall, hlength, hbudget⟩ := h
  have hlast : t.dataField.dropLast = dataField := by rw [hdata, List.dropLast_concat]
  refine ⟨?_, ?_, ?_, ?_, ?_, ?_⟩
  · rw [hdata]
    exact List.append_ne_nil_of_right_ne_nil _ (List.cons_ne_nil _ _)
  · rw [hlast, hheader, ← hbits]
    rfl
  · rw [hlast, hheader, ← hlis]
    rfl
  · rw [hlast]
    exact hsmall
  · rw [hlast, hheader]
    exact headerLength_pushExtensionBit (by rw [hbits, List.length_replicate]) hlength
  · rw [hlast, hdata, List.flatMap_append, List.length_append, List.flatMap_singleton]
    omega

/-- A packet that another one follows. -/
theorem Filling.push (h : Filling bytes dataField header n) {p : TxPdu} (hp : p.pdu.length < 2048)
    (hn : (if (dataField.length + 1) % 2 = 1 then 2 else 1) + p.pdu.length ≤ n) :
    Filling bytes (dataField ++ [p])
      ((header.pushExtensionBit eLiFieldsFollows).pushLengthIndicator (UInt16.ofNat p.pdu.length))
      (n - ((if (dataField.length + 1) % 2 = 1 then 2 else 1) + p.pdu.length)) := by
  obtain ⟨hbits, hlis, hsmall, hlength, hbudget⟩ := h
  refine ⟨?_, ?_, ?_, ?_, ?_⟩
  · rw [List.length_append, List.length_singleton, List.replicate_succ', ← hbits]
    rfl
  · rw [List.map_append, ← hlis]
    rfl
  · intro q hq
    rcases List.mem_append.mp hq with hq | hq
    · exact hsmall q hq
    · rwa [List.mem_singleton.mp hq]
  · intro i hi
    rw [List.length_append, List.length_singleton, Nat.add_right_cancel_iff] at hi
    rw [← hi]
    exact headerLength_pushExtensionBit (by rw [hbits, List.length_replicate]) hlength
  · rw [List.length_append, List.length_singleton, lisLength_succ, List.flatMap_append,
      List.length_append, List.flatMap_singleton]
    omega

theorem Filling.cut (h : Filling bytes dataField header n) (first : TxPdu) (txBuffer : List TxPdu)
    (size : UInt32) : Filled bytes (cutSegment first n ⟨dataField, header, txBuffer, size⟩) := by
  have hle : (first.pdu.take (min first.pdu.length n)).length ≤ n := by
    rw [List.length_take]
    omega
  unfold cutSegment
  dsimp only
  split
  · exact h.close (p := ⟨_, _⟩) hle rfl rfl
  · exact h.close (p := ⟨_, _⟩) hle rfl rfl

theorem segmentLoop_fills {first : TxPdu} {txBuffer : List TxPdu} {size : UInt32}
    (h : Filling bytes dataField header n) (hn : 0 < n) (hid : id = dataField.length + 1)
    (hfirst : first.pdu ≠ []) (hbuffer : ∀ p ∈ txBuffer, p.pdu ≠ []) :
    Filled bytes (segmentLoop txBuffer first n id size dataField header) := by
  induction txBuffer generalizing first n id size dataField header with
  | nil =>
    unfold segmentLoop
    rw [if_pos ⟨List.length_pos_of_ne_nil hfirst, hn⟩]
    by_cases hcut : n < first.pdu.length ∨ 2047 < first.pdu.length
    · rw [if_pos hcut]
      exact h.cut first [] size
    · rw [if_neg hcut]
      split <;> exact h.close (p := first) (by omega) rfl rfl
  | cons next txBuffer ih =>
    unfold segmentLoop
    rw [if_pos ⟨List.length_pos_of_ne_nil hfirst, hn⟩]
    by_cases hcut : n < first.pdu.length ∨ 2047 < first.pdu.length
    · rw [if_pos hcut]
      exact h.cut first (next :: txBuffer) size
    rw [if_neg hcut]
    by_cases hfull : n - first.pdu.length ≤ 2
    · rw [if_pos hfull]
      exact h.close (p := first) (by omega) rfl rfl
    rw [if_neg hfull, hid]
    have hstep : (if (dataField.length + 1) % 2 = 1 then 2 else 1) + first.pdu.length < n := by
      split <;> omega
    refine ih (h.push (by omega) (Nat.le_of_lt hstep)) (Nat.sub_pos_of_lt hstep) ?_
      (hbuffer next List.mem_cons_self) fun p hp => hbuffer p (List.mem_cons_of_mem _ hp)
    rw [List.length_append, List.length_singleton]

end Header

/-! ## One opportunity -/

/-- The PDU has this sequence number and carries these pieces. -/
structure Carries (pdu : List UInt8) (sn : BitVec 10) (pieces : List (Piece UInt8)) : Prop where
  exists_header : ∃ (header : LteRlcHeader) (first last : Bool) (contents : List (List UInt8)),
    pdu = header.serialize ++ contents.flatten ∧ header.Valid ∧
      header.headerLength.toNat = header.serialize.length ∧ header.sequenceNumber.value = sn ∧
      header.framingInfo = framingInfo first last ∧ contents ≠ [] ∧
      header.lengthIndicators = contents.dropLast.map (fun c => UInt16.ofNat c.length) ∧
      (∀ c ∈ contents.dropLast, c.length < 2048) ∧ pieces = framePieces first last contents

/-- The state of a sender, by what has been sent of the SDU at the front of its buffer. -/
structure Sender (s : LteRlcUm) (held : Option (List UInt8)) (sdus : List (List UInt8)) : Prop where
  owes : Owes held s.txBuffer sdus
  base : s.sequenceNumber.modulusBase = 0

theorem transmitPdcpPdu_sender {s : LteRlcUm} {held : Option (List UInt8)}
    {sdus : List (List UInt8)}
    {p : List UInt8} (h : Sender s held sdus) (hp : p ≠ []) (haccepts : s.Accepts p) :
    Sender (s.transmitPdcpPdu p) held (sdus ++ [p]) := by
  unfold transmitPdcpPdu
  rw [if_pos haccepts]
  exact ⟨h.owes.append hp, h.base⟩

theorem framingInfo_lt (first last : Bool) : (framingInfo first last).toNat < 4 := by
  cases first <;> cases last <;> decide

theorem framingInfo_and (first last : Bool) :
    framingInfo first last &&& 0x03 = framingInfo first last := by
  cases first <;> cases last <;> decide

/-- The header of a data field, with its sequence number and its framing information. -/
theorem Filled.header {bytes : ℕ} {t : Segments} (h : Filled bytes t) (hbytes : bytes < 2 ^ 16)
    {sn : SequenceNumber10} (hsn : sn.modulusBase = 0) (first last : Bool) :
    let header := (t.rlcHeader.setSequenceNumber sn).setFramingInfo (framingInfo first last)
    header.Valid ∧ header.serialize.length = header.headerLength.toNat ∧
      header.serialize.length + (t.dataField.flatMap TxPdu.pdu).length ≤ bytes := by
  obtain ⟨-, hbits, hlis, hsmall, hlength, hfits⟩ := h
  have hcount : t.rlcHeader.lengthIndicators.length = t.dataField.dropLast.length := by
    rw [hlis, List.length_map]
  have hvalid : ((t.rlcHeader.setSequenceNumber sn).setFramingInfo
      (framingInfo first last)).Valid := by
    refine ⟨?_, hsn, ?_, ?_, ?_⟩
    · show (framingInfo first last &&& 0x03).toNat < 4
      rw [framingInfo_and]
      exact framingInfo_lt first last
    · show t.rlcHeader.extensionBits = List.replicate t.rlcHeader.lengthIndicators.length 1 ++ [0]
      rw [hcount, hbits]
    · intro li hli
      have hmem : li ∈ t.rlcHeader.lengthIndicators := hli
      rw [hlis] at hmem
      obtain ⟨p, hp, rfl⟩ := List.mem_map.mp hmem
      have hlt := hsmall p hp
      rwa [UInt16.toNat_ofNat_of_lt' (Nat.lt_of_lt_of_le hlt (by decide))]
    · show t.rlcHeader.headerLength = _
      rw [hlength, ← hcount]
      rfl
  have hserialize := hvalid.length_serialize
  have hcount' : ((t.rlcHeader.setSequenceNumber sn).setFramingInfo
      (framingInfo first last)).lengthIndicators.length = t.dataField.dropLast.length := hcount
  rw [hcount'] at hserialize
  refine ⟨hvalid, ?_, ?_⟩
  · show _ = t.rlcHeader.headerLength.toNat
    have hlt : 2 + LteRlcHeader.lisLength t.dataField.dropLast.length < 2 ^ 16 := by omega
    rw [hserialize, hlength, UInt16.toNat_ofNat_of_lt' hlt]
  · rw [hserialize]
    exact hfits

/-- **One opportunity**: without anything to send or with too little room nothing happens; else the
PDU fits, and it carries a prefix of what is owed. -/
theorem notifyTxOpportunity_sends {s : LteRlcUm} {j : Joined UInt8} {sdus : List (List UInt8)}
    {bytes : ℕ} (h : Sender s j.held sdus) (hbytes : bytes < 2 ^ 16) :
    s.notifyTxOpportunity bytes = some (s, none) ∨
      ∃ s' pdu pieces done rest, s.notifyTxOpportunity bytes = some (s', some pdu) ∧
        pdu.length ≤ bytes ∧ Carries pdu s.sequenceNumber.value pieces ∧ sdus = done ++ rest ∧
        (j.join pieces).delivered = j.delivered ++ done ∧ Sender s' (j.join pieces).held rest ∧
        (∀ p ∈ pieces.head?, p.first = j.held.isNone) ∧
        s'.sequenceNumber = s.sequenceNumber.add 1 := by
  unfold notifyTxOpportunity
  obtain ⟨howes, hbase⟩ := h
  by_cases hsmall : bytes ≤ 2
  · rw [if_pos hsmall]
    exact .inl rfl
  rw [if_neg hsmall]
  obtain ⟨delivered, held⟩ := j
  dsimp only at howes
  generalize htx : s.txBuffer = txBuffer at howes
  cases howes with
  | nothing => exact .inl rfl
  | @more _ first sdus hfirst hsdus =>
    right
    dsimp only
    generalize ht : segmentLoop (sdus.map wholeSdu) ⟨first, tagOf held⟩ (bytes - 2) 1
      (s.txBufferSize - LteRlcUm.sizeOf first) [] .new = t
    have hsends : Sends ⟨delivered, held⟩ ((held.getD [] ++ first) :: sdus) [] t :=
      ht ▸ segmentLoop_sends (j := ⟨delivered, held⟩) _ _ _ _ (by omega) hfirst hsdus
    have hfills : Filled bytes t := ht ▸ segmentLoop_fills
      ⟨rfl, rfl, fun p hp => absurd hp List.not_mem_nil,
        fun i hi => absurd hi (Nat.zero_ne_add_one i),
        by simp [LteRlcHeader.lisLength]; omega⟩
      (by omega) rfl hfirst (by
        intro p hp
        obtain ⟨q, hq, rfl⟩ := List.mem_map.mp hp
        exact hsdus q hq)
    obtain ⟨new, done, rest, hne, hdata, heq, hdelivered, howes', hseam, hhead⟩ := hsends
    rw [List.nil_append] at hdata
    obtain ⟨p, new, rfl⟩ := List.exists_cons_of_ne_nil hne
    generalize hback : (p :: new).getLast (List.cons_ne_nil p new) = back
    obtain ⟨hvalid, hlength, hfits⟩ := hfills.header hbytes hbase p.isFirst back.isLast
    set header := (t.rlcHeader.setSequenceNumber s.sequenceNumber).setFramingInfo
      (framingInfo p.isFirst back.isLast) with hheader
    have hpieces : framePieces p.isFirst back.isLast ((p :: new).map TxPdu.pdu) =
        (p :: new).map TxPdu.piece := by
      have hframe := framePieces_of_seamed hseam (List.cons_ne_nil _ _)
      have hlast : ((p :: new).map TxPdu.piece).getLast (List.cons_ne_nil _ _) = back.piece := by
        rw [List.getLast_map, hback]
      rw [hlast, List.map_map] at hframe
      exact hframe
    refine ⟨{ s with
      txBuffer := t.txBuffer
      txBufferSize := t.txBufferSize
      sequenceNumber := s.sequenceNumber.add 1 }, header.serialize ++ t.dataField.flatMap TxPdu.pdu,
      (p :: new).map TxPdu.piece, done, rest, ?_, ?_, ?_, heq, hdelivered, ⟨howes', hbase⟩,
      fun q hq => ?_, rfl⟩
    · rw [hdata, List.head?_cons, List.getLast?_eq_some_getLast (List.cons_ne_nil p new), hback,
        Option.bind_eq_bind, Option.bind_some, Option.bind_eq_bind, Option.bind_some]
      unfold addHeader
      rw [← hheader, if_pos hlength]
      rfl
    · rw [List.length_append]
      exact hfits
    · refine ⟨header, p.isFirst, back.isLast, (p :: new).map TxPdu.pdu, ?_, hvalid, hlength.symm,
        rfl, ?_,
        List.cons_ne_nil _ _, ?_, ?_, hpieces.symm⟩
      · rw [hdata, List.flatMap_def]
      · exact framingInfo_and _ _
      · show t.rlcHeader.lengthIndicators = _
        rw [hfills.lis, hdata, ← List.map_dropLast, List.map_map]
        rfl
      · rw [← List.map_dropLast]
        intro c hc
        obtain ⟨q, hq, rfl⟩ := List.mem_map.mp hc
        exact hfills.small q (by rwa [hdata])
    · cases hq
      exact hhead p rfl

end Ns3.Lte
