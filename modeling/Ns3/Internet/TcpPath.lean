import Ns3.Internet.TcpTxRuns
import Ns3.Internet.RxDelivery

/-!
# One direction of a TCP connection

A sender's transmit buffer and a receiver's receive buffer, and between them
segments and acknowledgements that get lost, come twice or in another order. Of
`tcp-socket-base.cc` it has how the buffers are used by `SendDataPacket`,
`SendEmptyPacket`, `ReceivedData`, `PeerClose` and `ReceivedAck`: any data may be
sent, or sent again, at any time.
-/

namespace Ns3.Internet

open Ns3.Lib Ns3.Network
open SequenceNumber

namespace TcpRxBuffer

def maxRxSequence (b : TcpRxBuffer) : SequenceNumber32 :=
  if b.gotFin = true then b.finSeq
  else
    match b.data with
    | (first, _) :: _ =>
      if Gt b.nextRxSeq first then first + b.maxBuffer else b.nextRxSeq + b.maxBuffer
    | [] => b.nextRxSeq + b.maxBuffer

def finished (b : TcpRxBuffer) : Bool := b.gotFin && decide (Lt b.finSeq b.nextRxSeq)

end TcpRxBuffer

structure Segment where
  seq : SequenceNumber32
  packet : Packet
  fin : Bool
  deriving DecidableEq

/-- A segment arrives: `PeerClose` or `ReceivedData`. -/
def TcpRxBuffer.receive (b : TcpRxBuffer) (s : Segment) : TcpRxBuffer :=
  if s.fin = true then
    if Lt s.seq b.nextRxSeq ∨ Gt s.seq b.maxRxSequence then b
    else
      let b := b.setFinSequence (s.seq + s.packet.getSize)
      if s.packet.getSize ≠ 0 then (b.add s.seq s.packet).2 else b
  else (b.add s.seq s.packet).2

structure Path where
  sender : Sender
  closed : Bool
  segments : List Segment
  acks : List (SequenceNumber32 × List SackBlock)
  receiver : Receiver

namespace Path

inductive Event where
  | local (e : Sender.Event)
  | close
  | sendDataPacket (seq : SequenceNumber32) (maxSize : BitVec 32)
  | sendFin
  | lose (i : ℕ)
  | deliver (i : ℕ)
  | extract (maxSize : BitVec 32)
  | sendAck
  | loseAck (i : ℕ)
  | receivedAck (i : ℕ)

/-- `SendDataPacket`. The FIN goes with the last data once the socket is closed. -/
def sendDataPacket (w : Path) (seq : SequenceNumber32) (maxSize : BitVec 32) : Option Path :=
  match w.sender.buffer.copyFromSequence seq 2 maxSize with
  | some (some item, b) =>
    let fin := w.closed && b.sizeFromSequence (seq + item.packet.getSize) = 0
    some { w with
      sender := { w.sender with buffer := b }
      segments := w.segments ++ [⟨seq, item.packet, fin⟩] }
  | _ => none

/-- A segment that arrives stays on its way: it may come again. -/
def step (w : Path) : Event → Option Path
  | .local e => (w.sender.step e).map fun s => { w with sender := s }
  | .close => some { w with closed := true }
  | .sendDataPacket seq maxSize => w.sendDataPacket seq maxSize
  | .sendFin =>
    some { w with segments := w.segments ++ [⟨w.sender.buffer.tailSequence, [], true⟩] }
  | .lose i => some { w with segments := w.segments.eraseIdx i }
  | .deliver i =>
    w.segments[i]?.map fun s =>
      { w with receiver := { w.receiver with buffer := w.receiver.buffer.receive s } }
  | .extract maxSize =>
    let taken := w.receiver.buffer.extract maxSize
    some { w with
      receiver := { buffer := taken.2, extracted := w.receiver.extracted ++ taken.1 } }
  | .sendAck =>
    some { w with
      acks := w.acks ++ [(w.receiver.buffer.nextRxSeq, w.receiver.buffer.sackList)] }
  | .loseAck i => some { w with acks := w.acks.eraseIdx i }
  | .receivedAck i =>
    match w.acks[i]? with
    | none => none
    | some (ack, list) =>
      match w.sender.step (.update list) with
      | none => none
      | some s => (s.step (.discardUpTo ack)).map fun s => { w with sender := s }

def start (base : SequenceNumber32) : Path where
  sender := .start base
  closed := false
  segments := []
  acks := []
  receiver := .start base

def system (base : SequenceNumber32) : System Path Event where
  init w := w = start base
  step w e w' := w.step e = some w'

/-- Data are added before the socket is closed, and with the FIN they take less than half of all
sequence numbers. Only acknowledgements advance the head. The FIN is sent alone after the last data,
unless it is acknowledged. -/
def Fits (w : Path) : Event → Prop
  | .local (.add p) =>
    w.closed = false ∧ w.sender.accepted.length + p.length + 1 < 2 ^ 31
  | .local (.discardUpTo _) => False
  | .sendFin => w.closed = true ∧ w.sender.acked ≤ w.sender.accepted.length
  | _ => True

instance (w : Path) (e : Event) : Decidable (w.Fits e) :=
  match e with
  | .local (.add _) | .sendFin => inferInstanceAs (Decidable (_ ∧ _))
  | .local (.discardUpTo _) => inferInstanceAs (Decidable False)
  | .local (.copyFromSequence _ _) | .local (.update _) | .local .addRenoSack
  | .local .resetRenoSack | .local .markHeadAsLost | .local (.setSentListLost _)
  | .local .deleteRetransmittedFlagFromHead | .local .resetSentList
  | .local .resetLastSegmentSent | .local (.setMaxBufferSize _) | .local (.setDupAckThresh _)
  | .local (.setSegmentSize _) | .close | .sendDataPacket _ _ | .lose _ | .deliver _ | .extract _
  | .sendAck | .loseAck _ | .receivedAck _ => inferInstanceAs (Decidable True)

end Path

/-! ## The receiver's end -/

namespace TcpRxBuffer

variable {b : TcpRxBuffer} {base : SequenceNumber32} {stream : List UInt8} {x n : ℕ}
  {cs ds : List (ℕ × ℕ)}

theorem gotFin_advance (data : List (SequenceNumber32 × Packet)) (b : TcpRxBuffer) :
    (advance data b).gotFin = b.gotFin := by
  induction data generalizing b with
  | nil => rfl
  | cons c data ih =>
    obtain ⟨first, p⟩ := c
    rw [advance]
    split
    · exact ih b
    split
    · rfl
    · rw [ih]
      rfl

theorem gotFin_add (b : TcpRxBuffer) (seq : SequenceNumber32) (p : Packet) :
    (b.add seq p).2.gotFin = b.gotFin := by
  unfold add
  dsimp only
  split
  · rfl
  · obtain ⟨sack, heq⟩ := store_eq { b with
      data := (removeOverlaps (b.window seq (seq + p.getSize)).1
        (b.window seq (seq + p.getSize)).2 b.size b.data).data
      size := (removeOverlaps (b.window seq (seq + p.getSize)).1
        (b.window seq (seq + p.getSize)).2 b.size b.data).size } _ _ _
    rw [heq]
    unfold passFin
    split
    · exact gotFin_advance _ _
    · exact gotFin_advance _ _

theorem gotFin_extract (b : TcpRxBuffer) (maxSize : BitVec 32) :
    (b.extract maxSize).2.gotFin = b.gotFin := by
  have hloop : ∀ (data : List (SequenceNumber32 × Packet)) (extractSize : BitVec 32)
      (b : TcpRxBuffer) (out : Packet),
      (extractLoop extractSize b out data).2.gotFin = b.gotFin := by
    intro data
    induction data with
    | nil => exact fun _ _ _ => rfl
    | cons c data ih =>
      intro extractSize b out
      obtain ⟨first, p⟩ := c
      rw [extractLoop]
      split
      · rfl
      split
      · rw [ih]
      · rfl
  unfold extract
  dsimp only
  generalize (if b.availBytes < maxSize then b.availBytes else maxSize) = extractSize
  split
  · rfl
  · exact hloop _ _ _ _

theorem nextOffset_of_not (hfin : b.gotFin = false) (n L : ℕ) : nextOffset b n L = n := by
  unfold nextOffset
  rw [hfin]
  exact if_neg fun hc => by cases hc.1

/-- The stream grows as long as its end is not known. -/
theorem Layout.append (h : Layout base stream b x n cs ds) (hfin : b.gotFin = false)
    (hL : stream.length < 2 ^ 31) (p : List UInt8) : Layout base (stream ++ p) b x n cs ds := by
  have hall : ∀ c ∈ cs ++ ds, Inside stream c := fun c hc =>
    (List.mem_append.mp hc).elim (fun hc => (h.inside_cs hL c hc).1) (h.inside c)
  have hn := h.bound
  refine ⟨?_, h.tiles, h.sorted, h.above, ?_, ?_, h.size, h.avail, fun hgot => ?_, ?_⟩
  · rw [h.data]
    refine List.map_congr_left fun c hc => ?_
    unfold chunk
    rcases (hall c hc).2 with hzero | hle
    · rw [hzero, List.take_zero, List.take_zero]
    · rw [List.drop_append_of_le_length (by omega),
        List.take_append_of_le_length (by rw [List.length_drop]; omega)]
  · intro c hc
    obtain ⟨hlt, hin⟩ := h.inside c hc
    refine ⟨hlt, hin.imp_right fun hle => ?_⟩
    rw [List.length_append]
    omega
  · rw [List.length_append]
    omega
  · rw [hfin] at hgot
    cases hgot
  · rw [h.next, nextOffset_of_not hfin, nextOffset_of_not hfin]

end TcpRxBuffer

namespace Receiver

open TcpRxBuffer

variable {base : SequenceNumber32} {stream : List UInt8} {w : Receiver} {k : ℕ}

/-- What the receiver has are bytes of the stream, and the next number that it asks for is at the
offset `k`. -/
def Reads (base : SequenceNumber32) (stream : List UInt8) (k : ℕ) (w : Receiver) : Prop :=
  w.extracted <+: stream ∧
    ∃ n cs ds, Layout base stream w.buffer w.extracted.length n cs ds ∧
      nextOffset w.buffer n stream.length = k

theorem Reads.next (h : w.Reads base stream k) :
    w.buffer.nextRxSeq = seqAt base k ∧ k ≤ stream.length + 1 ∧
      (w.buffer.gotFin = false → k ≤ stream.length) := by
  obtain ⟨-, n, cs, ds, hlayout, rfl⟩ := h
  have hn := hlayout.bound
  refine ⟨hlayout.next, ?_, fun hgot => ?_⟩
  · unfold nextOffset
    split <;> omega
  · rw [nextOffset_of_not hgot]
    exact hn

theorem Reads.append (h : w.Reads base stream k) (hfin : w.buffer.gotFin = false)
    (hL : stream.length < 2 ^ 31) (p : List UInt8) : w.Reads base (stream ++ p) k := by
  obtain ⟨hpre, n, cs, ds, hlayout, rfl⟩ := h
  refine ⟨hpre.trans (List.prefix_append _ _), n, cs, ds, hlayout.append hfin hL p, ?_⟩
  rw [nextOffset_of_not hfin, nextOffset_of_not hfin]

theorem Reads.add (h : w.Reads base stream k) (hL : stream.length < 2 ^ 31) {o len : ℕ}
    (ho : o + len ≤ stream.length) :
    ∃ k', k ≤ k' ∧ Reads base stream k' { w with
      buffer := (w.buffer.add (seqAt base o) ((stream.drop o).take len)).2 } := by
  obtain ⟨hpre, n, cs, ds, hlayout, rfl⟩ := h
  obtain ⟨n', cs', ds', hle, hlayout'⟩ := hlayout.add hL ho
  refine ⟨_, ?_, hpre, n', cs', ds', hlayout', rfl⟩
  have hn' := hlayout'.bound
  unfold nextOffset
  rw [gotFin_add]
  split
  · rename_i hc
    rw [if_pos ⟨hc.1, by omega⟩]
    omega
  · split <;> omega

theorem Reads.setFinSequence (h : w.Reads base stream k) (hL : stream.length + 1 < 2 ^ 31) :
    ∃ k', k ≤ k' ∧ Reads base stream k' { w with
      buffer := w.buffer.setFinSequence (seqAt base stream.length) } := by
  obtain ⟨hpre, n, cs, ds, hlayout, rfl⟩ := h
  refine ⟨_, ?_, hpre, n, cs, ds, hlayout.setFinSequence hL, rfl⟩
  have hgot : (w.buffer.setFinSequence (seqAt base stream.length)).gotFin = true := by
    unfold TcpRxBuffer.setFinSequence
    dsimp only
    split <;> rfl
  unfold nextOffset
  rw [hgot]
  split
  · rename_i hc
    rw [if_pos ⟨rfl, hc.2⟩]
  · split <;> omega

theorem Reads.extract (h : w.Reads base stream k) (hL : stream.length < 2 ^ 31)
    (maxSize : BitVec 32) :
    Reads base stream k ⟨(w.buffer.extract maxSize).2,
      w.extracted ++ (w.buffer.extract maxSize).1⟩ := by
  obtain ⟨hpre, n, cs, ds, hlayout, rfl⟩ := h
  obtain ⟨e, cs', he, htaken, hlayout'⟩ := hlayout.extract hL maxSize
  have hn := hlayout.bound
  have hlength : ((stream.drop w.extracted.length).take e).length = e := by
    rw [List.length_take, List.length_drop]
    omega
  refine ⟨?_, n, cs', ds, ?_, ?_⟩
  · rw [htaken, List.prefix_iff_eq_take.mp hpre, List.length_take,
      Nat.min_eq_left hpre.length_le, ← List.take_add]
    exact List.take_prefix _ _
  · dsimp only
    rw [htaken, List.length_append, hlength]
    exact hlayout'
  · unfold nextOffset
    rw [gotFin_extract]

end Receiver

/-- The segment has the bytes of the stream from an offset on; with a FIN, it has the last ones. -/
def Segment.Of (base : SequenceNumber32) (stream : List UInt8) (closed : Bool) (s : Segment) :
    Prop :=
  ∃ o, s.seq = seqAt base o ∧ o ≤ stream.length ∧ s.packet <+: stream.drop o ∧
    (s.fin = true → closed = true ∧ o + s.packet.length = stream.length)

namespace Receiver

open TcpRxBuffer

variable {base : SequenceNumber32} {stream : List UInt8} {w : Receiver} {k : ℕ}

theorem Reads.add_packet (h : w.Reads base stream k) (hL : stream.length < 2 ^ 31) {o : ℕ}
    {p : Packet} (ho : o ≤ stream.length) (hp : p <+: stream.drop o) :
    ∃ k', k ≤ k' ∧ Reads base stream k' { w with
      buffer := (w.buffer.add (seqAt base o) p).2 } := by
  have hlength := hp.length_le
  rw [List.length_drop] at hlength
  have hadd := h.add hL (o := o) (show o + p.length ≤ stream.length by omega)
  rwa [← List.prefix_iff_eq_take.mp hp] at hadd

theorem Reads.receive (h : w.Reads base stream k) (hL : stream.length + 1 < 2 ^ 31)
    {s : Segment} {closed : Bool} (hs : s.Of base stream closed) :
    (∃ k', k ≤ k' ∧ Reads base stream k' { w with buffer := w.buffer.receive s }) ∧
      ((w.buffer.receive s).gotFin = true → w.buffer.gotFin = true ∨ closed = true) := by
  obtain ⟨o, hseq, ho, hp, hfin⟩ := hs
  unfold TcpRxBuffer.receive
  split
  swap
  · rw [hseq]
    exact ⟨h.add_packet (by omega) ho hp, fun hgot => .inl (by rwa [gotFin_add] at hgot)⟩
  rename_i hflag
  obtain ⟨hclosed, hend⟩ := hfin hflag
  refine ⟨?_, fun _ => .inr hclosed⟩
  split
  · exact ⟨k, le_rfl, h⟩
  have hseq' : s.seq + s.packet.getSize = seqAt base stream.length := by
    rw [hseq, ← hend, ← seqAt_add]
    rfl
  rw [hseq']
  obtain ⟨k', hle, h'⟩ := h.setFinSequence hL
  dsimp only
  split
  · obtain ⟨k'', hle', h''⟩ := h'.add_packet (by omega) ho hp
    rw [hseq]
    exact ⟨k'', hle.trans hle', h''⟩
  · exact ⟨k', hle, h'⟩

end Receiver

/-! ## Both ends -/

namespace Path

open TcpTxStream

variable {base : SequenceNumber32} {w w' : Path}

/-- What the receiver has, and what it has said, is of the bytes that the sender has accepted. -/
structure Agrees (base : SequenceNumber32) (w : Path) : Prop where
  sound : w.sender.Sound base
  room : w.sender.accepted.length + 1 < 2 ^ 31
  reads : ∃ k, w.receiver.Reads base w.sender.accepted k ∧ w.sender.acked ≤ k ∧
    ∀ a ∈ w.acks, ∃ j ≤ k, a.1 = seqAt base j
  fin : w.receiver.buffer.gotFin = true → w.closed = true
  segments : ∀ s ∈ w.segments, s.Of base w.sender.accepted w.closed

theorem start_agrees (base : SequenceNumber32) : (start base).Agrees base where
  sound := ⟨new_holds base, (seqAt_zero base).symm⟩
  room := by
    show 0 + 1 < 2 ^ 31
    decide
  reads := by
    refine ⟨0, ⟨List.nil_prefix, 0, [], [], TcpRxBuffer.Layout.new base [], ?_⟩, le_rfl, ?_⟩
    · exact TcpRxBuffer.nextOffset_of_not rfl _ _
    · exact fun a ha => absurd ha List.not_mem_nil
  fin := fun h => by cases h
  segments := fun s hs => absurd hs List.not_mem_nil

/-- Before the socket is closed no number beyond the bytes is acknowledged. -/
theorem Agrees.acked_le (h : w.Agrees base) (hopen : w.closed = false) :
    w.sender.acked ≤ w.sender.accepted.length := by
  obtain ⟨k, hreads, hacked, -⟩ := h.reads
  have hgot : w.receiver.buffer.gotFin = false := by
    cases hfin : w.receiver.buffer.gotFin with
    | false => rfl
    | true => exact absurd (h.fin hfin) (by rw [hopen]; exact Bool.false_ne_true)
  exact hacked.trans (hreads.next.2.2 hgot)

/-- Only data that are added, and acknowledgements, change what is accepted or acknowledged. -/
theorem step_local {s s' : Sender} {e : Sender.Event} (hadd : ∀ p, e ≠ .add p)
    (hdiscard : ∀ seq, e ≠ .discardUpTo seq) (hstep : s.step e = some s') :
    s'.accepted = s.accepted ∧ s'.acked = s.acked := by
  cases e with
  | add p => exact absurd rfl (hadd p)
  | discardUpTo seq => exact absurd rfl (hdiscard seq)
  | copyFromSequence numBytes seq =>
    obtain ⟨r, -, rfl⟩ := Option.map_eq_some_iff.mp hstep
    exact ⟨rfl, rfl⟩
  | update | addRenoSack | resetRenoSack | markHeadAsLost | setSentListLost
  | deleteRetransmittedFlagFromHead | resetSentList | resetLastSegmentSent | setMaxBufferSize
  | setDupAckThresh | setSegmentSize =>
    cases hstep
    exact ⟨rfl, rfl⟩

theorem Agrees.sender (h : w.Agrees base) {s : Sender} (hs : s.Sound base)
    (haccepted : s.accepted = w.sender.accepted) (hacked : s.acked = w.sender.acked) :
    Agrees base { w with sender := s } := by
  obtain ⟨k, hreads, hle, hacks⟩ := h.reads
  refine ⟨hs, ?_, ⟨k, ?_, ?_, hacks⟩, h.fin, ?_⟩
  · dsimp only
    rw [haccepted]
    exact h.room
  · dsimp only
    rw [haccepted]
    exact hreads
  · dsimp only
    rw [hacked]
    exact hle
  · intro s hs
    dsimp only
    rw [haccepted]
    exact h.segments s hs

theorem Agrees.add (h : w.Agrees base) {p : Packet} (hopen : w.closed = false)
    (hroom : w.sender.accepted.length + p.length + 1 < 2 ^ 31) {s : Sender}
    (hstep : w.sender.step (.add p) = some s) : Agrees base { w with sender := s } := by
  have hacked := h.acked_le hopen
  have hroom' := h.room
  have hfits : w.sender.Fits (.add p) := ⟨hacked, by omega⟩
  have hsound := Sender.step_sound h.sound hfits hstep
  cases hstep
  by_cases hadded : (w.sender.buffer.add p).1 = true
  swap
  · refine h.sender hsound ?_ rfl
    dsimp only
    rw [if_neg hadded]
  have hgot : w.receiver.buffer.gotFin = false := by
    cases hfin : w.receiver.buffer.gotFin with
    | false => rfl
    | true => exact absurd (h.fin hfin) (by rw [hopen]; exact Bool.false_ne_true)
  obtain ⟨k, hreads, hle, hacks⟩ := h.reads
  refine ⟨hsound, ?_, ⟨k, ?_, hle, hacks⟩, h.fin, ?_⟩
  · dsimp only
    rw [if_pos hadded, List.length_append]
    exact hroom
  · dsimp only
    rw [if_pos hadded]
    exact hreads.append hgot (by omega) p
  · intro s hs
    obtain ⟨o, hseq, ho, hp, hfin⟩ := h.segments s hs
    dsimp only
    rw [if_pos hadded]
    refine ⟨o, hseq, ?_, ?_, fun hflag => ?_⟩
    · rw [List.length_append]
      omega
    · rw [List.drop_append_of_le_length ho]
      exact hp.trans (List.prefix_append _ _)
    · exact absurd (hfin hflag).1 (by rw [hopen]; exact Bool.false_ne_true)

theorem Agrees.sendDataPacket (h : w.Agrees base) {seq : SequenceNumber32} {maxSize : BitVec 32}
    (hstep : w.sendDataPacket seq maxSize = some w') : w'.Agrees base := by
  unfold Path.sendDataPacket at hstep
  split at hstep
  swap
  · cases hstep
  rename_i item b hcopy
  cases hstep
  obtain ⟨hholds, hfirst⟩ := h.sound
  have hkept := hholds.copy_keeps hcopy
  have hsound : Sender.Sound base { w.sender with buffer := b } :=
    ⟨hkept.holds, hkept.firstByteSeq.trans hfirst⟩
  obtain ⟨j, hj, hseq, hpacket⟩ := hkept.bytes item rfl
  have hsender := h.sender hsound rfl rfl
  refine ⟨hsound, h.room, hsender.reads, h.fin, ?_⟩
  intro s hs
  rcases List.mem_append.mp hs with hs | hs
  · exact h.segments s hs
  obtain rfl := List.mem_singleton.mp hs
  have hlength := hpacket.length_le
  rw [List.drop_drop] at hpacket
  rw [List.length_drop, List.length_drop] at hlength
  rw [List.length_drop] at hj
  have ho : w.sender.acked + j ≤ w.sender.accepted.length := by omega
  refine ⟨w.sender.acked + j, ?_, ho, hpacket, ?_⟩
  · rw [hseq, hfirst, seqAt_seqAt]
  · intro hflag
    rw [Bool.and_eq_true, decide_eq_true_iff] at hflag
    refine ⟨hflag.1, ?_⟩
    have hsize := hkept.holds.sizeFromSequence (j := j + item.packet.length) (by
      rw [List.length_drop]
      omega)
    rw [hkept.firstByteSeq, ← seqAt_add, ← hseq] at hsize
    have hzero := hflag.2.symm.trans hsize
    have hroom := h.room
    have hmod := congrArg BitVec.toNat hzero
    rw [BitVec.toNat_ofNat, List.length_drop, Nat.mod_eq_of_lt (by omega)] at hmod
    show w.sender.acked + j + item.packet.length = w.sender.accepted.length
    change 0 = _ at hmod
    omega

theorem Agrees.receivedAck (h : w.Agrees base) {ack : SequenceNumber32} {list : List SackBlock}
    (hack : (ack, list) ∈ w.acks) {s s' : Sender}
    (hupdate : w.sender.step (.update list) = some s)
    (hdiscard : s.step (.discardUpTo ack) = some s') : Agrees base { w with sender := s' } := by
  have hsound := Sender.step_sound h.sound (show w.sender.Fits (.update list) from trivial) hupdate
  have hsound' := Sender.step_sound hsound (show s.Fits (.discardUpTo ack) from trivial) hdiscard
  obtain ⟨haccepted, hacked⟩ := step_local (fun p => by simp) (fun seq => by simp) hupdate
  obtain ⟨k, hreads, hle, hacks⟩ := h.reads
  obtain ⟨j, hj, hat⟩ := hacks _ hack
  change ack = seqAt base j at hat
  have hk := hreads.next.2.1
  have hroom := h.room
  obtain ⟨b, -, rfl⟩ := Option.map_eq_some_iff.mp hdiscard
  have hadvance : Sender.advance s.buffer ack = j - s.acked := by
    unfold Sender.advance
    rw [hsound.2, hat, ite_congr (propext (ge_seqAt (by omega) (by omega))) (fun _ => rfl)
      (fun _ => rfl)]
    split
    · omega
    · rw [sub_seqAt (by omega), BitVec.toNat_ofNat, Nat.mod_eq_of_lt (by omega)]
  refine ⟨hsound', ?_, ⟨k, ?_, ?_, hacks⟩, h.fin, ?_⟩
  · dsimp only
    rw [haccepted]
    exact h.room
  · dsimp only
    rw [haccepted]
    exact hreads
  · dsimp only
    rw [hadvance]
    omega
  · intro s hs
    dsimp only
    rw [haccepted]
    exact h.segments s hs

theorem step_agrees {e : Event} (h : w.Agrees base) (hfits : w.Fits e)
    (hstep : w.step e = some w') : w'.Agrees base := by
  obtain ⟨k, hreads, hle, hacks⟩ := h.reads
  have hroom := h.room
  cases e with
  | «local» e =>
    obtain ⟨s, hs, rfl⟩ := Option.map_eq_some_iff.mp hstep
    by_cases hadd : ∃ p, e = .add p
    · obtain ⟨p, rfl⟩ := hadd
      exact h.add hfits.1 hfits.2 hs
    have hnot : ∀ p, e ≠ .add p := fun p hp => hadd ⟨p, hp⟩
    have hlocal : ∀ seq, e ≠ .discardUpTo seq := by
      rintro seq rfl
      exact hfits
    obtain ⟨haccepted, hacked⟩ := step_local hnot hlocal hs
    refine h.sender (Sender.step_sound h.sound ?_ hs) haccepted hacked
    cases e with
    | add p => exact absurd rfl (hnot p)
    | _ => trivial
  | close =>
    cases hstep
    refine ⟨h.sound, h.room, h.reads, fun _ => rfl, fun s hs => ?_⟩
    obtain ⟨o, hseq, ho, hp, hfin⟩ := h.segments s hs
    exact ⟨o, hseq, ho, hp, fun hflag => ⟨rfl, (hfin hflag).2⟩⟩
  | sendDataPacket seq maxSize => exact h.sendDataPacket hstep
  | sendFin =>
    cases hstep
    obtain ⟨hclosed, hacked⟩ := hfits
    refine ⟨h.sound, h.room, h.reads, h.fin, fun s hs => ?_⟩
    rcases List.mem_append.mp hs with hs | hs
    · exact h.segments s hs
    obtain rfl := List.mem_singleton.mp hs
    refine ⟨w.sender.accepted.length, ?_, le_rfl, List.nil_prefix, fun _ => ⟨hclosed, rfl⟩⟩
    show w.sender.buffer.firstByteSeq + w.sender.buffer.size = _
    rw [h.sound.1.size, h.sound.2, seqAt_add, List.length_drop, Nat.add_sub_cancel' hacked]
  | lose i =>
    cases hstep
    exact ⟨h.sound, h.room, h.reads, h.fin, fun s hs => h.segments s (List.mem_of_mem_eraseIdx hs)⟩
  | deliver i =>
    obtain ⟨s, hs, rfl⟩ := Option.map_eq_some_iff.mp hstep
    obtain ⟨⟨k', hk', hreads'⟩, hgot⟩ := hreads.receive hroom
      (h.segments s (List.mem_of_getElem? hs))
    refine ⟨h.sound, h.room, ⟨k', hreads', hle.trans hk', fun a ha => ?_⟩, fun hfin => ?_,
      h.segments⟩
    · obtain ⟨j, hj, hat⟩ := hacks a ha
      exact ⟨j, hj.trans hk', hat⟩
    · exact (hgot hfin).elim h.fin id
  | extract maxSize =>
    cases hstep
    refine ⟨h.sound, h.room, ⟨k, hreads.extract (by omega) maxSize, hle, hacks⟩, fun hfin => ?_,
      h.segments⟩
    rw [TcpRxBuffer.gotFin_extract] at hfin
    exact h.fin hfin
  | sendAck =>
    cases hstep
    refine ⟨h.sound, h.room, ⟨k, hreads, hle, fun a ha => ?_⟩, h.fin, h.segments⟩
    rcases List.mem_append.mp ha with ha | ha
    · exact hacks a ha
    · obtain rfl := List.mem_singleton.mp ha
      exact ⟨k, le_rfl, hreads.next.1⟩
  | loseAck i =>
    cases hstep
    exact ⟨h.sound, h.room, ⟨k, hreads, hle, fun a ha => hacks a (List.mem_of_mem_eraseIdx ha)⟩,
      h.fin, h.segments⟩
  | receivedAck i =>
    simp only [step] at hstep
    split at hstep
    · cases hstep
    rename_i ack list hack
    split at hstep
    · cases hstep
    rename_i s hupdate
    obtain ⟨s', hdiscard, rfl⟩ := Option.map_eq_some_iff.mp hstep
    exact h.receivedAck (List.mem_of_getElem? hack) hupdate hdiscard

/-- The bytes that were accepted are with the receiver or with the sender. -/
structure Intact (base : SequenceNumber32) (w : Path) : Prop where
  keeps : w.sender.Keeps base
  delivers : ∃ n, w.receiver.Delivers base w.sender.accepted n ∧
    min w.sender.acked w.sender.accepted.length ≤ n ∧
    (w.receiver.buffer.finished = true → w.closed = true ∧ n = w.sender.accepted.length)

theorem Agrees.intact (h : w.Agrees base) : w.Intact base := by
  have hroom := h.room
  obtain ⟨k, hreads, hacked, -⟩ := h.reads
  have hk := hreads.next.2.1
  have htidy : w.receiver.Tidy base w.sender.accepted := by
    obtain ⟨hpre, n, cs, ds, hlayout, -⟩ := hreads
    exact ⟨hpre, n, cs, ds, hlayout⟩
  have hfinSeq : w.receiver.buffer.gotFin = true →
      w.receiver.buffer.finSeq = seqAt base w.sender.accepted.length := by
    obtain ⟨-, n, cs, ds, hlayout, -⟩ := hreads
    exact fun hgot => (hlayout.fin hgot).1
  obtain ⟨n, hdelivers⟩ := Receiver.Tidy.delivers (by omega) htidy
  have hn := hdelivers.bounds.2
  -- the number that the receiver asks for, as both say it
  have hnext := hdelivers.next
  rw [hreads.next.1, seqAt_inj (by omega) (by split <;> omega)] at hnext
  refine ⟨h.sound.keeps, n, hdelivers, ?_, fun hfinished => ?_⟩
  · split at hnext
    · rename_i hend
      have hlast := hend.2
      rw [hfinSeq hend.1, seqAt_inj (by omega) (by omega)] at hlast
      omega
    · omega
  · unfold TcpRxBuffer.finished at hfinished
    rw [Bool.and_eq_true, decide_eq_true_iff] at hfinished
    obtain ⟨hgot, hlt⟩ := hfinished
    rw [hfinSeq hgot, hreads.next.1, lt_seqAt (by omega) (by omega)] at hlt
    refine ⟨h.fin hgot, ?_⟩
    split at hnext <;> omega

/-- **A connection loses nothing and invents nothing**, whatever is lost, repeated or reordered on
the way: what the receiver extracts is a prefix of what the sender accepted, a byte that the sender
has let go has arrived, and the end that the receiver sees comes after every byte. -/
theorem intact_of_reachable (h : ((system base).restrict Fits).Reachable w) : w.Intact base := by
  refine Agrees.intact (h.invariant (P := Agrees base) ?_ ?_)
  · rintro _ rfl
    exact start_agrees base
  · intro w e w' hw hstep
    exact step_agrees hw hstep.1 hstep.2

/-- A segment is lost and sent again; the last one, with the FIN, arrives before another that comes
twice; and an acknowledgement is lost. -/
theorem intact_sample : ∃ w : Path, w.Intact 0xFFFFFFFE ∧
    (w.sender.accepted, w.sender.acked, w.receiver.extracted, w.receiver.buffer.finished) =
      ([10, 20, 30, 40, 50], 2, [10, 20, 30, 40, 50], true) := by
  have hrun : (System.exec step Fits (start 0xFFFFFFFE)
      [.local (.add [10, 20, 30]), .local (.add [40, 50]), .sendDataPacket 0xFFFFFFFE 2,
        .sendDataPacket 0 2, .lose 0, .local (.setSentListLost false),
        .sendDataPacket 0xFFFFFFFE 2, .deliver 1, .sendAck, .receivedAck 0, .close,
        .sendDataPacket 2 2, .deliver 2, .extract 9, .sendAck, .loseAck 1, .deliver 0, .deliver 0,
        .local .markHeadAsLost, .sendDataPacket 0 3, .extract 9]).map
      (fun w => (w.sender.accepted, w.sender.acked, w.receiver.extracted,
        w.receiver.buffer.finished)) =
      some ([10, 20, 30, 40, 50], 2, [10, 20, 30, 40, 50], true) := by
    decide +kernel
  obtain ⟨w, hw, hview⟩ := System.reachable_of_exec (S := system 0xFFFFFFFE) (fun _ _ _ => id) rfl
    hrun
  exact ⟨w, intact_of_reachable hw, hview⟩

end Path

end Ns3.Internet
