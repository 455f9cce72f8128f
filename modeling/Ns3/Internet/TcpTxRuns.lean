import Ns3.Lib.Run
import Ns3.Internet.TcpTxBytes

/-!
# Runs of a TCP transmit buffer

The operations are called in any order. `keeps_of_reachable`: the items are always
the accepted bytes from the head sequence on, and a copy is some of them.
-/

namespace Ns3.Internet

open Ns3.Lib Ns3.Network
open SequenceNumber

namespace TcpTxStream

open TcpTxBuffer (ItemList totalSize offsets shape)
open TcpTxBuffer.ItemList

variable {b b' : TcpTxStream} {stream : List UInt8} {base : SequenceNumber32}

def update (b : TcpTxStream) (list : List SackBlock) : TcpTxStream :=
  { b with toTcpTxBuffer := (b.toTcpTxBuffer.update list).2 }

/-! ## The other operations -/

theorem update_same (b : TcpTxStream) (list : List SackBlock) : b.Same (b.update list) := by
  obtain ⟨hfirst, hsent, hshape⟩ := TcpTxBuffer.update_frame list b.toTcpTxBuffer
  have hrest : (b.toTcpTxBuffer.update list).2.appList = b.appList ∧
      (b.toTcpTxBuffer.update list).2.size = b.size := by
    unfold TcpTxBuffer.update
    dsimp only
    split
    · obtain ⟨marked, lostOut, heq, -⟩ := TcpTxBuffer.updateLostCount_frame _
      rw [heq]
      exact ⟨rfl, rfl⟩
    · exact ⟨rfl, rfl⟩
  exact ⟨hshape, congrArg (List.map shape) hrest.1, hrest.2, hsent, hfirst, rfl, rfl⟩

theorem Holds.add (h : b.Holds stream) {p : Packet} (hp : stream.length + p.length < 2 ^ 31) :
    (b.add p).2.Holds (if (b.add p).1 = true then stream ++ p else stream) ∧
      (b.add p).2.firstByteSeq = b.firstByteSeq := by
  unfold TcpTxStream.add
  by_cases hroom : p.getSize ≤ b.available
  swap
  · rw [if_neg hroom]
    exact ⟨h, rfl⟩
  rw [if_pos hroom]
  by_cases hsome : 0 < p.getSize
  swap
  · have hempty : p = [] := by
      rw [BitVec.lt_def, Packet.getSize_toNat (by omega)] at hsome
      exact List.length_eq_zero_iff.mp (Nat.eq_zero_of_not_pos hsome)
    rw [if_neg hsome, if_pos rfl, hempty, List.append_nil]
    exact ⟨h, rfl⟩
  rw [if_pos hsome, if_pos rfl]
  refine ⟨?_, rfl⟩
  have hne : p ≠ [] := by
    rintro rfl
    exact absurd hsome (by decide)
  have hfresh : ∀ i ∈ b.sentList ++ b.appList, i.ref ≠ b.nextRef := fun i hi => (h.fresh i hi).ne
  refine ⟨?_, ?_, ?_, ?_, ?_, ?_, h.sentSize, ?_⟩
  · dsimp only
    rw [← List.append_assoc, content_append, h.bytes, content_cons, content_nil, List.append_nil]
  · intro i hi
    dsimp only at hi
    rw [← List.append_assoc] at hi
    rcases List.mem_append.mp hi with hi | hi
    · exact h.nonempty i hi
    · obtain rfl := List.mem_singleton.mp hi
      exact hne
  · dsimp only
    rw [← List.append_assoc, List.map_append, List.nodup_append]
    refine ⟨h.distinct, List.nodup_singleton _, ?_⟩
    intro r hr r' hr' heq
    obtain ⟨i, hi, rfl⟩ := List.mem_map.mp hr
    obtain rfl := List.mem_singleton.mp hr'
    exact hfresh i hi heq
  · intro i hi
    dsimp only at hi ⊢
    rw [← List.append_assoc] at hi
    rcases List.mem_append.mp hi with hi | hi
    · exact (h.fresh i hi).trans (Nat.lt_succ_self _)
    · obtain rfl := List.mem_singleton.mp hi
      exact Nat.lt_succ_self _
  · intro q hq
    dsimp only at hq ⊢
    rw [Function.update_of_ne (hfresh _ (List.mem_append_left _ (mem_of_mem_offsets hq)))]
    exact h.placed q hq
  · dsimp only
    rw [h.size, Packet.getSize, List.length_append, BitVec.ofNat_add]
  · rw [List.length_append]
    exact hp

theorem Holds.resetSentList (h : b.Holds stream) : b.resetSentList.Holds stream := by
  refine h.move ?_ (fun p hp => absurd hp List.not_mem_nil) rfl rfl rfl rfl rfl
  show (b.sentList.map _ ++ b.appList).map shape = _
  rw [List.map_append, List.map_append, shape_map fun _ => by rfl]

theorem Holds.resetLastSegmentSent (h : b.Holds stream) : b.resetLastSegmentSent.Holds stream := by
  unfold TcpTxStream.resetLastSegmentSent
  cases hlast : b.sentList.getLast? with
  | none => exact h
  | some item =>
    obtain ⟨items, hitems⟩ := List.getLast?_eq_some_iff.mp hlast
    have htotal := h.totalSize_eq
    have hbound := h.bound
    refine h.move ?_ ?_ rfl ?_ rfl rfl rfl
    · rw [hitems, List.dropLast_concat, List.append_assoc, List.singleton_append]
    · intro p hp
      rw [hitems, List.dropLast_concat] at hp
      refine h.placed p ?_
      rw [hitems, offsets_append]
      exact List.mem_append_left _ hp
    · show b.sentSize - item.packet.getSize = _
      rw [h.sentSize, hitems, List.dropLast_concat, TcpTxBuffer.totalSize_append,
        TcpTxBuffer.totalSize_cons, TcpTxBuffer.totalSize_nil, Nat.add_zero]
      rw [hitems, TcpTxBuffer.totalSize_append, TcpTxBuffer.totalSize_cons] at htotal
      rw [Packet.getSize, BitVec.ofNat_sub_ofNat_of_le _ _ (by omega) (by omega),
        Nat.add_sub_cancel]

/-- What a copy leaves, and the bytes that it gives. -/
structure Kept (b b' : TcpTxStream) (stream : List UInt8) (seq : SequenceNumber32)
    (item : Option TcpTxItem) : Prop where
  holds : b'.Holds stream
  firstByteSeq : b'.firstByteSeq = b.firstByteSeq
  bytes : ∀ i ∈ item, ∃ j < stream.length, seq = seqAt b.firstByteSeq j ∧
    i.packet <+: stream.drop j

theorem Holds.copy_none (h : b.Holds stream) {seq : SequenceNumber32} {numBytes : BitVec 32}
    (hzero : least numBytes (b.sizeFromSequence seq) = 0) {fuel : ℕ}
    {r : Option TcpTxItem × TcpTxStream}
    (hcopy : b.copyFromSequence seq (fuel + 1) numBytes = some r) :
    b.Kept r.2 stream seq r.1 := by
  rw [TcpTxStream.copyFromSequence] at hcopy
  split at hcopy
  · cases hcopy
  · dsimp only at hcopy
    rw [if_pos hzero] at hcopy
    cases hcopy
    exact ⟨h, rfl, fun i hi => by cases hi⟩

/-- There is nothing beyond the tail. -/
theorem Holds.sizeFromSequence_beyond (h : b.Holds stream) {o : ℕ} (ho : stream.length ≤ o)
    (ho' : o < 2 ^ 32) (hnot : ¬ Gt b.firstByteSeq (seqAt b.firstByteSeq o)) :
    b.sizeFromSequence (seqAt b.firstByteSeq o) = 0 := by
  have hbound := h.bound
  have htail : b.tailSequence = seqAt b.firstByteSeq stream.length := by
    unfold TcpTxBuffer.tailSequence
    rw [h.size]
    rfl
  unfold TcpTxBuffer.sizeFromSequence
  rw [htail]
  split
  · rename_i hge
    rcases hge with hgt | heq
    · exfalso
      have ho := toNat_seqAt_cases b.firstByteSeq ho'
      have hl := toNat_seqAt_cases b.firstByteSeq (o := stream.length) (by omega)
      rw [gt_iff_raw] at hgt hnot
      omega
    · rw [heq]
      exact BitVec.sub_self _
  · rfl

/-- A copy from anywhere. -/
theorem Holds.copy_keeps (h : b.Holds stream) {seq : SequenceNumber32} {numBytes : BitVec 32}
    {r : Option TcpTxItem × TcpTxStream} (hcopy : b.copyFromSequence seq 2 numBytes = some r) :
    b.Kept r.2 stream seq r.1 := by
  have hbound := h.bound
  have htotal := h.totalSize_eq
  obtain ⟨o, ho, rfl⟩ : ∃ o < 2 ^ 32, seq = seqAt b.firstByteSeq o := by
    refine ⟨(seq - b.firstByteSeq).toNat, (seq - b.firstByteSeq).isLt, ?_⟩
    unfold seqAt
    rw [BitVec.ofNat_toNat, BitVec.setWidth_eq, BitVec.add_comm, BitVec.sub_add_cancel]
  by_cases hzero : least numBytes (b.sizeFromSequence (seqAt b.firstByteSeq o)) = 0
  · exact h.copy_none hzero hcopy
  by_cases hin : o < stream.length
  swap
  · rw [TcpTxStream.copyFromSequence] at hcopy
    split at hcopy
    · cases hcopy
    · rename_i hnot
      rw [h.sizeFromSequence_beyond (Nat.le_of_not_lt hin) ho hnot] at hzero
      refine absurd ?_ hzero
      unfold least
      split
      · rfl
      · rename_i hge
        exact BitVec.eq_of_toNat_eq (by rw [BitVec.lt_def] at hge; simpa using hge)
  have hpos : 0 < numBytes.toNat := by
    refine Nat.pos_of_ne_zero fun hnone => hzero ?_
    rw [BitVec.eq_of_toNat_eq (x := numBytes) (y := 0) hnone]
    unfold least
    rw [if_neg (by rw [BitVec.lt_def]; exact Nat.not_lt_zero _)]
  have hnum : BitVec.ofNat 32 numBytes.toNat = numBytes := by
    rw [BitVec.ofNat_toNat, BitVec.setWidth_eq]
  rw [← hnum] at hcopy
  by_cases hsent : o ≤ totalSize b.sentList
  · have hgood := h.copyFromSequence hpos numBytes.isLt hsent hin
    split at hgood
    · rw [hgood] at hcopy
      cases hcopy
    · obtain ⟨item, b₁, hrun, hcopied⟩ := hgood
      rw [hrun] at hcopy
      cases hcopy
      obtain ⟨m, -, -, hpacket⟩ := hcopied.packet
      refine ⟨hcopied.holds, hcopied.firstByteSeq, fun i hi => ⟨o, hin, rfl, ?_⟩⟩
      cases hi
      rw [hpacket]
      exact List.take_prefix _ _
  · -- a hole between what is sent and the number
    rw [h.copy_cases hpos numBytes.isLt rfl hin, if_neg (by omega), if_pos (by omega),
      if_neg (by omega)] at hcopy
    cases hcopy

end TcpTxStream

/-- A transmit buffer, all the bytes that it has accepted, and how many numbers its head has
advanced. -/
structure Sender where
  buffer : TcpTxStream
  accepted : List UInt8
  acked : ℕ

namespace Sender

open TcpTxStream
open TcpTxBuffer (totalSize offsets)
open TcpTxBuffer.ItemList

inductive Event where
  | add (p : Packet)
  | copyFromSequence (numBytes : BitVec 32) (seq : SequenceNumber32)
  | discardUpTo (seq : SequenceNumber32)
  | update (list : List SackBlock)
  | addRenoSack
  | resetRenoSack
  | markHeadAsLost
  | setSentListLost (resetSack : Bool)
  | deleteRetransmittedFlagFromHead
  | resetSentList
  | resetLastSegmentSent
  | setMaxBufferSize (n : BitVec 32)
  | setDupAckThresh (n : ℕ)
  | setSegmentSize (n : BitVec 32)

/-- The numbers that the head advances by. -/
def advance (b : TcpTxStream) (seq : SequenceNumber32) : ℕ :=
  if Ge b.firstByteSeq seq then 0 else (seq - b.firstByteSeq).toNat

/-- A step, unless it stops the program. -/
def step (w : Sender) : Event → Option Sender
  | .add p =>
    let r := w.buffer.add p
    some { w with
      buffer := r.2
      accepted := if r.1 = true then w.accepted ++ p else w.accepted }
  | .copyFromSequence numBytes seq =>
    (w.buffer.copyFromSequence seq 2 numBytes).map fun r => { w with buffer := r.2 }
  | .discardUpTo seq =>
    (w.buffer.discardUpTo seq).map fun b =>
      { w with buffer := b, acked := w.acked + advance w.buffer seq }
  | .update list => some { w with buffer := w.buffer.update list }
  | .addRenoSack => some { w with buffer := w.buffer.addRenoSack }
  | .resetRenoSack => some { w with buffer := w.buffer.resetRenoSack }
  | .markHeadAsLost => some { w with buffer := w.buffer.markHeadAsLost }
  | .setSentListLost resetSack =>
    some { w with buffer := w.buffer.setSentListLost resetSack }
  | .deleteRetransmittedFlagFromHead =>
    some { w with buffer := w.buffer.deleteRetransmittedFlagFromHead }
  | .resetSentList => some { w with buffer := w.buffer.resetSentList }
  | .resetLastSegmentSent => some { w with buffer := w.buffer.resetLastSegmentSent }
  | .setMaxBufferSize n => some { w with buffer := { w.buffer with maxBuffer := n } }
  | .setDupAckThresh n => some { w with buffer := { w.buffer with dupAckThresh := n } }
  | .setSegmentSize n => some { w with buffer := { w.buffer with segmentSize := n } }

def start (base : SequenceNumber32) : Sender := ⟨new base, [], 0⟩

def system (base : SequenceNumber32) : System Sender Event where
  init w := w = start base
  step w e w' := w.step e = some w'

/-- No bytes are added once a number beyond them, that of the FIN, is acknowledged; and there are
never half of all sequence numbers in the buffer. -/
def Fits (w : Sender) : Event → Prop
  | .add p => w.acked ≤ w.accepted.length ∧ w.accepted.length + p.length < w.acked + 2 ^ 31
  | _ => True

instance (w : Sender) (e : Event) : Decidable (w.Fits e) :=
  match e with
  | .add _ => inferInstanceAs (Decidable (_ ∧ _))
  | .copyFromSequence _ _ | .discardUpTo _ | .update _ | .addRenoSack | .resetRenoSack
  | .markHeadAsLost | .setSentListLost _ | .deleteRetransmittedFlagFromHead | .resetSentList
  | .resetLastSegmentSent | .setMaxBufferSize _ | .setDupAckThresh _ | .setSegmentSize _ =>
    inferInstanceAs (Decidable True)

/-- The items have the accepted bytes from the head on. -/
def Sound (base : SequenceNumber32) (w : Sender) : Prop :=
  w.buffer.Holds (w.accepted.drop w.acked) ∧ w.buffer.firstByteSeq = seqAt base w.acked

variable {base : SequenceNumber32} {w w' : Sender}

theorem Sound.same (h : w.Sound base) {b : TcpTxStream} (hs : w.buffer.Same b) :
    ({ w with buffer := b } : Sender).Sound base :=
  ⟨h.1.same hs, hs.firstByteSeq.trans h.2⟩

theorem step_sound {e : Event} (h : w.Sound base) (hfits : w.Fits e)
    (hstep : w.step e = some w') : w'.Sound base := by
  cases e with
  | add p =>
    obtain ⟨hacked, hroom⟩ := hfits
    obtain ⟨hholds, hfirst⟩ := h.1.add (p := p) (by rw [List.length_drop]; omega)
    cases hstep
    refine ⟨?_, hfirst.trans h.2⟩
    dsimp only
    split
    · rename_i hadded
      rw [if_pos hadded] at hholds
      rwa [List.drop_append_of_le_length hacked]
    · rename_i hnot
      rwa [if_neg hnot] at hholds
  | copyFromSequence numBytes seq =>
    obtain ⟨r, hcopy, rfl⟩ := Option.map_eq_some_iff.mp hstep
    have hkept := h.1.copy_keeps hcopy
    exact ⟨hkept.holds, hkept.firstByteSeq.trans h.2⟩
  | discardUpTo seq =>
    obtain ⟨b, hdiscard, rfl⟩ := Option.map_eq_some_iff.mp hstep
    unfold Sound advance
    dsimp only
    by_cases hahead : Ge w.buffer.firstByteSeq seq
    · rw [TcpTxStream.discardUpTo, if_pos hahead] at hdiscard
      cases hdiscard
      rw [if_pos hahead]
      exact h
    · obtain ⟨b', hdiscard', hholds, hfirst⟩ := h.1.discardUpTo hahead
      rw [hdiscard] at hdiscard'
      cases hdiscard'
      rw [if_neg hahead, ← List.drop_drop]
      refine ⟨hholds, ?_⟩
      rw [hfirst, ← seqAt_seqAt, ← h.2]
      unfold seqAt
      rw [BitVec.ofNat_toNat, BitVec.setWidth_eq, BitVec.add_comm, BitVec.sub_add_cancel]
  | update list =>
    cases hstep
    exact h.same (update_same _ _)
  | addRenoSack =>
    cases hstep
    exact h.same (addRenoSack_same _)
  | resetRenoSack =>
    cases hstep
    exact h.same (resetRenoSack_same _)
  | markHeadAsLost =>
    cases hstep
    exact h.same (markHeadAsLost_same _)
  | setSentListLost resetSack =>
    cases hstep
    exact h.same (setSentListLost_same _ _)
  | deleteRetransmittedFlagFromHead =>
    cases hstep
    exact h.same (deleteRetransmittedFlagFromHead_same _)
  | resetSentList =>
    cases hstep
    exact ⟨h.1.resetSentList, h.2⟩
  | resetLastSegmentSent =>
    cases hstep
    refine ⟨h.1.resetLastSegmentSent, ?_⟩
    rw [← h.2]
    show w.buffer.resetLastSegmentSent.firstByteSeq = _
    unfold TcpTxStream.resetLastSegmentSent
    split <;> rfl
  | setMaxBufferSize n | setDupAckThresh n | setSegmentSize n =>
    cases hstep
    exact h.same ⟨rfl, rfl, rfl, rfl, rfl, rfl, rfl⟩

/-- A copy of up to `numBytes` bytes from the number at offset `k` on, unless it crosses the end of
the values: then the program uses a null pointer. -/
def Copies (base : SequenceNumber32) (w : Sender) (k : ℕ) (numBytes : BitVec 32) : Prop :=
  if w.buffer.Crosses (k - w.acked) (min numBytes.toNat (w.accepted.length - k)) then
    w.buffer.copyFromSequence (seqAt base k) 2 numBytes = none
  else
    ∃ item b, w.buffer.copyFromSequence (seqAt base k) 2 numBytes = some (some item, b) ∧
      item.packet ≠ [] ∧ item.packet.length ≤ numBytes.toNat ∧
      item.packet <+: w.accepted.drop k ∧ b.startSeq item.ref = seqAt base k

/-- The buffer keeps the accepted bytes. -/
structure Keeps (base : SequenceNumber32) (w : Sender) : Prop where
  head : w.buffer.firstByteSeq = seqAt base w.acked
  bytes : content w.buffer.sentList ++ content w.buffer.appList = w.accepted.drop w.acked
  nonempty : ∀ item ∈ w.buffer.sentList ++ w.buffer.appList, item.packet ≠ []
  starts : ∀ p ∈ offsets w.acked w.buffer.sentList, w.buffer.startSeq p.2.ref = seqAt base p.1
  size : w.buffer.size.toNat = totalSize w.buffer.sentList + totalSize w.buffer.appList
  sentSize : w.buffer.sentSize.toNat = totalSize w.buffer.sentList
  copies : ∀ k numBytes, w.acked ≤ k → k ≤ w.acked + totalSize w.buffer.sentList →
    k < w.accepted.length → 0 < numBytes.toNat → w.Copies base k numBytes
  discards : ∀ seq, (w.buffer.discardUpTo seq).isSome

theorem Sound.copies (h : w.Sound base) {k : ℕ} {numBytes : BitVec 32} (hk : w.acked ≤ k)
    (hsent : k ≤ w.acked + totalSize w.buffer.sentList) (hlt : k < w.accepted.length)
    (hpos : 0 < numBytes.toNat) : w.Copies base k numBytes := by
  obtain ⟨hholds, hfirst⟩ := h
  have hseq : seqAt base k = seqAt w.buffer.firstByteSeq (k - w.acked) := by
    rw [hfirst, seqAt_seqAt, Nat.add_sub_cancel' hk]
  have hcopy := hholds.copyFromSequence (j := k - w.acked) hpos numBytes.isLt (by omega)
    (by rw [List.length_drop]; omega)
  rw [List.length_drop, show w.accepted.length - w.acked - (k - w.acked) = w.accepted.length - k by
    omega, ← hseq, BitVec.ofNat_toNat, BitVec.setWidth_eq] at hcopy
  unfold Copies
  split
  · rename_i hcross
    rwa [if_pos hcross] at hcopy
  · rename_i hcross
    rw [if_neg hcross] at hcopy
    obtain ⟨item, b, hrun, hcopied⟩ := hcopy
    obtain ⟨m, hm, hmn, hpacket⟩ := hcopied.packet
    rw [List.drop_drop, Nat.add_sub_cancel' hk] at hpacket
    refine ⟨item, b, hrun, ?_, ?_, ?_, ?_⟩
    · refine List.ne_nil_of_length_pos ?_
      rw [hpacket, List.length_take, List.length_drop]
      omega
    · rw [hpacket, List.length_take]
      omega
    · rw [hpacket]
      exact List.take_prefix _ _
    · rw [hcopied.startSeq, hseq]

theorem Sound.keeps (h : w.Sound base) : w.Keeps base := by
  have hholds := h.1
  have htotal := hholds.totalSize_eq
  have hbound := hholds.bound
  refine ⟨h.2, ?_, hholds.nonempty, ?_, ?_, ?_, fun k numBytes => h.copies, ?_⟩
  · rw [← content_append, hholds.bytes]
  · intro p hp
    rw [← Nat.add_zero w.acked, offsets_add] at hp
    obtain ⟨q, hq, rfl⟩ := List.mem_map.mp hp
    rw [← seqAt_seqAt, ← h.2]
    exact hholds.placed q hq
  · rw [hholds.size, BitVec.toNat_ofNat, Nat.mod_eq_of_lt (by omega), htotal]
  · rw [hholds.sentSize, BitVec.toNat_ofNat, Nat.mod_eq_of_lt (by omega)]
  · intro seq
    by_cases hahead : Ge w.buffer.firstByteSeq seq
    · rw [TcpTxStream.discardUpTo, if_pos hahead]
      rfl
    · obtain ⟨b, hrun, -⟩ := hholds.discardUpTo hahead
      rw [hrun]
      rfl

end Sender

end Ns3.Internet
