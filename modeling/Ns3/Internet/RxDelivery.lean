import Ns3.Internet.RxStream

/-!
# What a receiver extracts

Runs of a receive buffer that is given segments of a stream, in any order, and
is extracted from at any time. `delivers_of_reachable`: in every state the
bytes extracted and those in the buffer are the ones of the stream.
-/

namespace Ns3.Internet

open Ns3.Lib Ns3.Network
open SequenceNumber
open Intervals

namespace TcpRxBuffer

variable {base : SequenceNumber32} {stream : List UInt8}
variable {b : TcpRxBuffer} {x n : ℕ} {cs ds : List (ℕ × ℕ)}

/-! ## Extracting -/

theorem ofNat_sub {k l : ℕ} (h : k ≤ l) :
    BitVec.ofNat 32 l - BitVec.ofNat 32 k = BitVec.ofNat 32 (l - k) := by
  rw [BitVec.sub_eq_iff_eq_add, ← BitVec.ofNat_add, Nat.sub_add_cancel h]

/-- The last part of a packet takes its place. -/
theorem assign_cut (base : SequenceNumber32) {c : ℕ × ℕ} {e : ℕ} (hin : Inside stream c)
    (he : 0 < e) (hlt : e < c.2) (hcs : ∀ d ∈ cs, Inside stream d ∧ c.1 + c.2 ≤ d.1) :
    (assign (seqAt base (c.1 + e)) (chunk base stream (c.1 + e, c.2 - e)).2
      ((c :: cs).map (chunk base stream))).eraseP (fun d => d.1 = seqAt base c.1) =
      ((c.1 + e, c.2 - e) :: cs).map (chunk base stream) := by
  have hbound := hin.1
  have hplace : place (c.1 + e, c.2 - e) (c :: cs) = c :: (c.1 + e, c.2 - e) :: cs := by
    rw [place, if_neg (by dsimp only; omega), if_neg (by dsimp only; omega)]
    congr 1
    cases cs with
    | nil => rfl
    | cons d cs =>
      have := (hcs d List.mem_cons_self).2
      rw [place, if_pos (by dsimp only; omega)]
  have hassign : assign (seqAt base (c.1 + e)) (chunk base stream (c.1 + e, c.2 - e)).2
      ((c :: cs).map (chunk base stream)) = (place (c.1 + e, c.2 - e) (c :: cs)).map
        (chunk base stream) := by
    refine assign_eq (c := (c.1 + e, c.2 - e)) (by dsimp only; omega) fun d hd => ?_
    rcases List.mem_cons.mp hd with rfl | hd
    · omega
    · have := (hcs d hd).1.1
      omega
  rw [hassign, hplace, List.map_cons]
  exact List.eraseP_cons_of_pos (decide_eq_true rfl)

/-- The loop takes the first bytes of those in order. -/
theorem extractLoop_eq {e : ℕ} (out : Packet) (hL : stream.length < 2 ^ 31) (hn : n ≤ stream.length)
    (htiles : Tiles x n cs) (hds : ∀ c ∈ ds, Inside stream c ∧ n ≤ c.1) (he : x + e ≤ n) :
    ∃ cs', Tiles (x + e) n cs' ∧
      extractLoop (BitVec.ofNat 32 e) b out ((cs ++ ds).map (chunk base stream)) =
        (out ++ (stream.drop x).take e, { b with
          data := (cs' ++ ds).map (chunk base stream)
          size := b.size - BitVec.ofNat 32 e
          availBytes := b.availBytes - BitVec.ofNat 32 e }) := by
  induction cs generalizing x e b out with
  | nil =>
    obtain rfl : x = n := htiles
    obtain rfl : e = 0 := by omega
    refine ⟨[], rfl, ?_⟩
    cases ds <;> simp [extractLoop]
  | cons c cs ih =>
    have htiles' := htiles
    obtain ⟨rfl, hpos, hrest⟩ := htiles
    have hle := hrest.le
    have hin : Inside stream c := ⟨by omega, .inr (by omega)⟩
    by_cases hzero : e = 0
    · subst hzero
      refine ⟨c :: cs, htiles', ?_⟩
      rw [List.cons_append, List.map_cons, extractLoop, if_pos (by rfl)]
      simp
    have hne : ¬ BitVec.ofNat 32 e = 0 := by
      intro hc
      have hmod : e % 2 ^ 32 = 0 := by simpa using congrArg BitVec.toNat hc
      omega
    have hfit : (chunk base stream c).2.getSize ≤ BitVec.ofNat 32 e ↔ c.2 ≤ e := by
      rw [getSize_chunk base hin, BitVec.le_def, BitVec.toNat_ofNat, BitVec.toNat_ofNat]
      omega
    rw [List.cons_append, List.map_cons, extractLoop, if_neg hne]
    by_cases hwhole : c.2 ≤ e
    · rw [if_pos (hfit.mpr hwhole), getSize_chunk base hin, ofNat_sub hwhole]
      obtain ⟨cs', htiles', hrun⟩ := @ih { b with
        size := b.size - BitVec.ofNat 32 c.2
        availBytes := b.availBytes - BitVec.ofNat 32 c.2 } (c.1 + c.2) (e - c.2)
        (out ++ (chunk base stream c).2) hrest (by omega)
      rw [show c.1 + c.2 + (e - c.2) = c.1 + e by omega] at htiles'
      refine ⟨cs', htiles', ?_⟩
      rw [hrun]
      simp only [BitVec.sub_sub, ← BitVec.ofNat_add, Nat.add_sub_cancel' hwhole]
      congr 1
      rw [List.append_assoc, ← List.drop_drop]
      show out ++ ((stream.drop c.1).take c.2 ++ _) = _
      rw [← List.take_add, Nat.add_sub_cancel' hwhole]
    · -- a part of it: the rest is put back
      have hlength : (chunk base stream c).2.length = c.2 := length_chunk hin
      have hfirst : Packet.createFragment (chunk base stream c).2 0 (BitVec.ofNat 32 e) =
          (stream.drop c.1).take e := by
        rw [show (0 : BitVec 32) = BitVec.ofNat 32 0 from rfl,
          Packet.createFragment_eq (by omega) (by omega), List.drop_zero]
        show ((stream.drop c.1).take c.2).take e = _
        rw [List.take_take, Nat.min_eq_left (by omega)]
      have hlast : Packet.createFragment (chunk base stream c).2 (BitVec.ofNat 32 e)
          (BitVec.ofNat 32 (c.2 - e)) = (chunk base stream (c.1 + e, c.2 - e)).2 := by
        rw [Packet.createFragment_eq (by omega) (by omega)]
        show (((stream.drop c.1).take c.2).drop e).take (c.2 - e) =
          (stream.drop (c.1 + e)).take (c.2 - e)
        rw [List.drop_take, List.take_take, Nat.min_self, List.drop_drop]
      refine ⟨(c.1 + e, c.2 - e) :: cs, ⟨rfl, by dsimp only; omega, ?_⟩, ?_⟩
      · rw [show c.1 + e + (c.2 - e) = c.1 + c.2 by omega]
        exact hrest
      rw [if_neg (mt hfit.mp hwhole), getSize_chunk base hin, ofNat_sub (by omega), hfirst, hlast]
      have hafter : ∀ d ∈ cs ++ ds, Inside stream d ∧ c.1 + c.2 ≤ d.1 := by
        intro d hd
        rcases List.mem_append.mp hd with hd | hd
        · have := hrest.mem hd
          exact ⟨⟨by omega, .inr (by omega)⟩, by omega⟩
        · exact ⟨(hds d hd).1, hle.trans (hds d hd).2⟩
      have hcut := assign_cut base hin (Nat.pos_of_ne_zero hzero) (by omega) hafter
      rw [← seqAt_add] at hcut
      rw [List.cons_append, ← hcut]
      rfl

theorem Layout.extract (h : Layout base stream b x n cs ds) (hL : stream.length < 2 ^ 31)
    (maxSize : BitVec 32) :
    ∃ e cs', x + e ≤ n ∧ (b.extract maxSize).1 = (stream.drop x).take e ∧
      Layout base stream (b.extract maxSize).2 (x + e) n cs' ds := by
  have hle := h.tiles.le
  have hn := h.bound
  obtain ⟨e, he, hsize⟩ : ∃ e, x + e ≤ n ∧
      (if b.availBytes < maxSize then b.availBytes else maxSize) = BitVec.ofNat 32 e := by
    split
    · exact ⟨n - x, by omega, h.avail⟩
    · rename_i hsmall
      refine ⟨maxSize.toNat, ?_, by simp⟩
      rw [h.avail, BitVec.lt_def, BitVec.toNat_ofNat] at hsmall
      omega
  obtain ⟨cs', htiles, hrun⟩ := extractLoop_eq (b := b) [] hL hn h.tiles
    (fun c hc => ⟨h.inside c hc, (h.above c hc).1⟩) he
  unfold TcpRxBuffer.extract
  rw [hsize]
  dsimp only
  split
  · rename_i hzero
    have hmod : e % 2 ^ 32 = 0 := by simpa using congrArg BitVec.toNat hzero
    obtain rfl : e = 0 := by omega
    exact ⟨0, cs, by omega, by rw [List.take_zero], h⟩
  · rw [h.data, hrun]
    refine ⟨e, cs', he, rfl, rfl, htiles, h.sorted, h.above, h.inside, hn, ?_, ?_, h.fin, h.next⟩
    · dsimp only
      rw [h.size, total_append, total_append, h.tiles.total, htiles.total, ofNat_sub (by omega)]
      congr 1
      omega
    · dsimp only
      rw [h.avail, ofNat_sub (by omega)]
      congr 1
      omega

/-! ## The end of the stream -/

theorem Layout.setFinSequence (h : Layout base stream b x n cs ds) (hL : stream.length + 1 < 2 ^ 31) :
    Layout base stream (b.setFinSequence (seqAt base stream.length)) x n cs ds := by
  have hn := h.bound
  have hnext := h.next
  unfold TcpRxBuffer.setFinSequence
  dsimp only
  split
  · rename_i heq
    rw [heq] at hnext
    have hoffset : stream.length = nextOffset b n stream.length := by
      rw [seqAt_inj (by omega) (by have := h.nextOffset_lt (by omega); omega)] at hnext
      exact hnext
    obtain rfl : n = stream.length := by
      unfold nextOffset at hoffset
      split at hoffset <;> omega
    refine ⟨h.data, h.tiles, h.sorted, h.above, h.inside, hn, h.size, h.avail, fun _ => ⟨rfl, hL⟩, ?_⟩
    show b.nextRxSeq + 1 = seqAt base (if true = true ∧ stream.length = stream.length then
      stream.length + 1 else stream.length)
    rw [if_pos ⟨rfl, rfl⟩, heq, ← seqAt_add]
    rfl
  · rename_i hne
    refine ⟨h.data, h.tiles, h.sorted, h.above, h.inside, hn, h.size, h.avail, fun _ => ⟨rfl, hL⟩, ?_⟩
    show b.nextRxSeq = seqAt base (if true = true ∧ n = stream.length then n + 1 else n)
    rw [hnext]
    unfold nextOffset at hnext ⊢
    by_cases hend : n = stream.length
    · have hgot : b.gotFin = true := by
        by_contra hgot
        rw [if_neg fun hc => hgot hc.1, hend] at hnext
        exact hne hnext
      rw [if_pos ⟨hgot, hend⟩, if_pos ⟨rfl, hend⟩]
    · rw [if_neg fun hc => hend hc.2, if_neg fun hc => hend hc.2]

theorem Layout.setMaxBufferSize (h : Layout base stream b x n cs ds) (size : BitVec 32) :
    Layout base stream (b.setMaxBufferSize size) x n cs ds :=
  ⟨h.data, h.tiles, h.sorted, h.above, h.inside, h.bound, h.size, h.avail, h.fin, h.next⟩

theorem Layout.new (base : SequenceNumber32) (stream : List UInt8) :
    Layout base stream (new base) 0 0 [] [] := by
  refine ⟨rfl, rfl, .nil, fun c hc => ?_, fun c hc => ?_, Nat.zero_le _, rfl, rfl, fun h => ?_, ?_⟩
  · cases hc
  · cases hc
  · cases h
  · show base = seqAt base 0
    rw [seqAt_zero]

/-! ## Runs -/

/-- The packet has the byte at this sequence number. -/
def Holds (c : SequenceNumber32 × Packet) (m : SequenceNumber32) : Prop :=
  ∃ i < c.2.length, m = c.1 + BitVec.ofNat 32 i

theorem holds_chunk {c : ℕ × ℕ} (hin : Inside stream c) {m : SequenceNumber32} :
    Holds (chunk base stream c) m ↔ ∃ o, c.1 ≤ o ∧ o < c.1 + c.2 ∧ m = seqAt base o := by
  unfold Holds
  rw [length_chunk hin]
  constructor
  · rintro ⟨i, hi, rfl⟩
    exact ⟨c.1 + i, by omega, by omega, seqAt_add ..⟩
  · rintro ⟨o, hle, hlt, rfl⟩
    refine ⟨o - c.1, by omega, ?_⟩
    show _ = seqAt base c.1 + _
    rw [seqAt_add, Nat.add_sub_cancel' hle]

end TcpRxBuffer

/-- A receive buffer and what has been extracted from it. -/
structure Receiver where
  buffer : TcpRxBuffer
  extracted : List UInt8
  deriving DecidableEq

namespace Receiver

open TcpRxBuffer

/-- A segment is given by the offset of its first byte and its length. -/
inductive Event
  | add (s len : ℕ)
  | extract (maxSize : BitVec 32)
  | setFin
  | setMaxBufferSize (size : BitVec 32)
  deriving DecidableEq

variable (base : SequenceNumber32) (stream : List UInt8)

def step (w : Receiver) : Event → Option Receiver
  | .add s len =>
    if s + len ≤ stream.length then
      some { w with buffer := (w.buffer.add (seqAt base s) ((stream.drop s).take len)).2 }
    else none
  | .extract maxSize =>
    let taken := w.buffer.extract maxSize
    some { buffer := taken.2, extracted := w.extracted ++ taken.1 }
  | .setFin => some { w with buffer := w.buffer.setFinSequence (seqAt base stream.length) }
  | .setMaxBufferSize size => some { w with buffer := w.buffer.setMaxBufferSize size }

def start : Receiver := ⟨.new base, []⟩

/-- A buffer whose initial RCV.NXT is `base`, and segments of one stream that begins there. -/
def system : System Receiver Event where
  init w := w = start base
  step w e w' := w.step base stream e = some w'

variable {base stream}

/-- `n` bytes have arrived in order: those extracted are the first ones of the stream, and the
others of them are in the buffer. -/
structure Delivers (base : SequenceNumber32) (stream : List UInt8) (n : ℕ) (w : Receiver) :
    Prop where
  extracted : w.extracted <+: stream
  bounds : w.extracted.length ≤ n ∧ n ≤ stream.length
  pieces : ∀ c ∈ w.buffer.data, ∃ o, c.1 = seqAt base o ∧ c.2 <+: stream.drop o
  disjoint : w.buffer.data.Pairwise fun c c' => ∀ m, ¬ (Holds c m ∧ Holds c' m)
  size : w.buffer.size.toNat = (w.buffer.data.map fun c => c.2.length).sum
  available : w.buffer.availBytes.toNat = n - w.extracted.length
  arrived : ∀ o, w.extracted.length ≤ o → o < n → ∃ c ∈ w.buffer.data, Holds c (seqAt base o)
  missing : ∀ c ∈ w.buffer.data, ¬ Holds c (seqAt base n)
  next : w.buffer.nextRxSeq =
    seqAt base (if w.buffer.gotFin = true ∧ w.buffer.finSeq = seqAt base n then n + 1 else n)

/-- The buffer holds pieces of the stream, those in order from the end of what was extracted. -/
def Tidy (base : SequenceNumber32) (stream : List UInt8) (w : Receiver) : Prop :=
  w.extracted <+: stream ∧
    ∃ n cs ds, Layout base stream w.buffer w.extracted.length n cs ds

theorem step_tidy (hL : stream.length < 2 ^ 31) {w w' : Receiver} {e : Event}
    (hfin : e = .setFin → stream.length + 1 < 2 ^ 31) (h : w.Tidy base stream)
    (hstep : w.step base stream e = some w') : w'.Tidy base stream := by
  obtain ⟨hpre, n, cs, ds, hlayout⟩ := h
  cases e with
  | add s len =>
    rw [step] at hstep
    split at hstep
    · rename_i hs
      cases hstep
      obtain ⟨n', cs', ds', -, hlayout'⟩ := hlayout.add hL hs
      exact ⟨hpre, n', cs', ds', hlayout'⟩
    · cases hstep
  | extract maxSize =>
    cases hstep
    obtain ⟨e, cs', he, htaken, hlayout'⟩ := hlayout.extract hL maxSize
    have hn := hlayout.bound
    have hlength : ((stream.drop w.extracted.length).take e).length = e := by
      rw [List.length_take, List.length_drop]
      omega
    refine ⟨?_, n, cs', ds, ?_⟩
    · show w.extracted ++ (w.buffer.extract maxSize).1 <+: stream
      rw [htaken, List.prefix_iff_eq_take.mp hpre, List.length_take,
        Nat.min_eq_left hpre.length_le, ← List.take_add]
      exact List.take_prefix _ _
    · show Layout base stream _ (w.extracted ++ (w.buffer.extract maxSize).1).length n cs' ds
      rw [htaken, List.length_append, hlength]
      exact hlayout'
  | setFin =>
    cases hstep
    exact ⟨hpre, n, cs, ds, hlayout.setFinSequence (hfin rfl)⟩
  | setMaxBufferSize size =>
    cases hstep
    exact ⟨hpre, n, cs, ds, hlayout.setMaxBufferSize size⟩

theorem Tidy.delivers (hL : stream.length < 2 ^ 31) {w : Receiver} (h : w.Tidy base stream) :
    ∃ n, w.Delivers base stream n := by
  obtain ⟨hpre, n, cs, ds, h⟩ := h
  have hle := h.tiles.le
  have hn := h.bound
  have hcs := h.inside_cs hL
  have hall : ∀ c ∈ cs ++ ds, Inside stream c := fun c hc =>
    (List.mem_append.mp hc).elim (fun hc => (hcs c hc).1) (h.inside c)
  have hmem : ∀ c ∈ w.buffer.data, ∃ d ∈ cs ++ ds, chunk base stream d = c := by
    intro c hc
    rw [h.data] at hc
    exact List.mem_map.mp hc
  refine ⟨n, hpre, ⟨hle, hn⟩, ?_, ?_, ?_, ?_, ?_, ?_, ?_⟩
  · intro c hc
    obtain ⟨d, hd, rfl⟩ := hmem c hc
    exact ⟨d.1, rfl, List.take_prefix _ _⟩
  · rw [h.data, List.pairwise_map]
    refine h.pairwise.imp_of_mem fun {c d} hc hd hbefore m hboth => ?_
    obtain ⟨o, hco, hoc, rfl⟩ := (holds_chunk (hall c hc)).mp hboth.1
    obtain ⟨o', hdo, hod, heq⟩ := (holds_chunk (hall d hd)).mp hboth.2
    have hcbound := (hall c hc).1
    have hdbound := (hall d hd).1
    rw [seqAt_inj (by omega) (by omega)] at heq
    have := hbefore.1
    omega
  · have htotal : total (cs ++ ds) < 2 ^ 32 := by
      have := total_le h.pairwise (fun c _ => Nat.zero_le c.1) fun c hc => (hall c hc).2
      omega
    rw [h.size, BitVec.toNat_ofNat, Nat.mod_eq_of_lt htotal, h.data, List.map_map]
    unfold total
    congr 1
    exact List.map_congr_left fun c hc => (length_chunk (hall c hc)).symm
  · rw [h.avail, BitVec.toNat_ofNat, Nat.mod_eq_of_lt (by omega)]
  · intro o hx ho
    obtain ⟨c, hc, hco, hoc⟩ := h.tiles.cover hx ho
    refine ⟨chunk base stream c, ?_, (holds_chunk (hcs c hc).1).mpr ⟨o, hco, hoc, rfl⟩⟩
    rw [h.data]
    exact List.mem_map_of_mem (List.mem_append_left _ hc)
  · intro c hc hholds
    obtain ⟨d, hd, rfl⟩ := hmem c hc
    obtain ⟨o, hdo, hod, heq⟩ := (holds_chunk (hall d hd)).mp hholds
    have hbound := (hall d hd).1
    rw [seqAt_inj (by omega) (by omega)] at heq
    subst heq
    rcases List.mem_append.mp hd with hd | hd
    · have := (hcs d hd).2
      omega
    · have := h.above d hd
      omega
  · rw [h.next]
    unfold nextOffset
    by_cases hgot : w.buffer.gotFin = true
    · have hat : w.buffer.finSeq = seqAt base n ↔ n = stream.length := by
        rw [(h.fin hgot).1, seqAt_inj (by omega) (by omega)]
        exact eq_comm
      simp only [hat]
    · rw [if_neg fun hc => hgot hc.1, if_neg fun hc => hgot hc.1]

/-- **The receive buffer delivers the stream**, whatever segments of it arrive and in whatever
order, when the stream and its FIN, if it has one, have less than half of all sequence numbers. -/
theorem delivers_of_reachable (hL : stream.length < 2 ^ 31) {w : Receiver}
    (h : ((system base stream).restrict fun _ e =>
      e = .setFin → stream.length + 1 < 2 ^ 31).Reachable w) : ∃ n, w.Delivers base stream n := by
  refine Tidy.delivers hL (h.invariant (P := Tidy base stream) ?_ ?_)
  · rintro _ rfl
    exact ⟨List.nil_prefix, 0, [], [], Layout.new base stream⟩
  · intro w e w' hw hstep
    exact step_tidy hL hstep.1 hw hstep.2

/-- Segments out of order, with overlaps, across the place where sequence numbers wrap around. -/
theorem delivers_sample : ∃ (w : Receiver) (n : ℕ),
    w.Delivers 0xFFFFFFFE [10, 20, 30, 40, 50] n ∧
      (w.extracted, w.buffer.nextRxSeq) = ([10, 20, 30], 4#32) := by
  have hrun : (System.exec (step 0xFFFFFFFE [10, 20, 30, 40, 50])
      (fun _ e => e = .setFin → ([10, 20, 30, 40, 50] : List UInt8).length + 1 < 2 ^ 31)
      (start 0xFFFFFFFE) [.add 3 1, .add 1 3, .setFin, .add 0 2, .extract 3, .add 2 3]).map
      (fun w => (w.extracted, w.buffer.nextRxSeq)) = some ([10, 20, 30], 4#32) := by
    decide +kernel
  obtain ⟨w, hw, hview⟩ := System.reachable_of_exec
    (S := system 0xFFFFFFFE [10, 20, 30, 40, 50]) (fun _ _ _ => id) rfl hrun
  obtain ⟨n, hn⟩ := delivers_of_reachable (by decide) hw
  exact ⟨w, n, hn, hview⟩

/-! ## The last place -/

section

variable {p q : Packet}

/-- The buffer after a packet of `2 ^ 31 - 1` bytes, and the FIN. -/
def afterFin (p : Packet) : TcpRxBuffer where
  nextRxSeq := 2147483648#32
  finSeq := 2147483647#32
  gotFin := true
  size := 2147483647#32
  maxBuffer := 32768#32
  availBytes := 2147483647#32
  data := [(0, p)]
  sackList := []

theorem fin_add_new (hp : p.length = 2147483647) :
    ((new 0).add 0 p).2.setFinSequence 2147483647#32 = afterFin p := by
  have hsize : p.getSize = 2147483647#32 := by
    unfold Packet.getSize
    rw [hp]
  have hwhole : Packet.createFragment p 0#32 2147483647#32 = p := by
    rw [@Packet.createFragment_eq p 0 2147483647 (by omega) (by omega),
      List.drop_zero, List.take_of_length_le (by omega)]
  simp +decide [new, add, window, removeOverlaps, store, assign, advance, passFin, setFinSequence,
    clearSackList, afterFin, hsize, hwhole]

/-- What is left of the buffer when its first five bytes are extracted. -/
def afterExtract (left : BitVec 32) (q : Packet) : TcpRxBuffer where
  nextRxSeq := 2147483648#32
  finSeq := 2147483647#32
  gotFin := true
  size := left
  maxBuffer := 32768#32
  availBytes := left
  data := [(5, q)]
  sackList := []

theorem extract_afterFin (hp : p.length = 2147483647) :
    ∃ q, (afterFin p).extract 5 = (p.take 5, afterExtract (2147483647#32 - 5) q) := by
  have hsize : p.getSize = 2147483647#32 := by
    unfold Packet.getSize
    rw [hp]
  have hfirst : Packet.createFragment p 0 5 = p.take 5 :=
    @Packet.createFragment_eq p 0 5 (by omega) (by omega)
  have htake : (if (afterFin p).availBytes < 5 then (afterFin p).availBytes else 5) = 5 := by
    simp +decide [afterFin]
  refine ⟨p.createFragment 5 (2147483647#32 - 5), ?_⟩
  generalize hq : Packet.createFragment p 5 (2147483647#32 - 5) = q
  have hcut : (assign ((0 : SequenceNumber32) + 5) q [(0, p)]).eraseP (fun c => c.1 = 0) =
      [(5, q)] := by
    simp +decide [assign]
  rw [extract, htake]
  show (if (5 : BitVec 32) = 0 then _ else extractLoop 5 (afterFin p) [] [(0, p)]) = _
  rw [if_neg (by decide), extractLoop, if_neg (by decide), if_neg (by rw [hsize]; decide), hsize,
    hfirst, hq, hcut]
  rfl

/-- The window takes nothing off a segment within it. -/
theorem window_of_not_lt {b : TcpRxBuffer} {head tail first : SequenceNumber32}
    {rest : List (SequenceNumber32 × Packet)} (hdata : b.data = (first, p) :: rest)
    (hnext : ¬ Lt head b.nextRxSeq) (hmax : ¬ Lt (first + b.maxBuffer) tail)
    (hlt : ¬ Lt tail head) : b.window head tail = (head, tail) := by
  unfold window
  rw [hdata]
  simp only [if_neg hnext, if_neg hmax, if_neg hlt]

/-- A packet half of all sequence numbers behind is not seen as old. -/
theorem extract_stale {left : BitVec 32} (hleft : ¬ left < 3#32) (hq : q.length = 3) :
    (((afterExtract left p).add 0 q).2.extract 3).1 = q := by
  have hsize : q.getSize = 3#32 := by
    unfold Packet.getSize
    rw [hq]
  have hwhole : Packet.createFragment q 0#32 3#32 = q := by
    rw [@Packet.createFragment_eq q 0 3 (by omega) (by omega), List.drop_zero,
      List.take_of_length_le (by omega)]
  have hwindow : (afterExtract left p).window 0 (0 + q.getSize) = (0, 3) := by
    rw [hsize]
    exact window_of_not_lt rfl (show ¬ Lt 0 2147483648#32 by decide)
      (show ¬ Lt (5#32 + 32768#32) 3#32 by decide) (by decide)
  unfold add
  rw [hwindow]
  simp +decide [afterExtract, removeOverlaps, store, assign, advance, passFin, updateSackList,
    mergeSackBlocks, extract, extractLoop, hsize, hwhole, hleft]

theorem system_add {w : Receiver} {s len : ℕ} (hs : s + len ≤ stream.length) :
    (system base stream).step w (.add s len)
      { w with buffer := (w.buffer.add (seqAt base s) ((stream.drop s).take len)).2 } :=
  if_pos hs

/-- With its FIN in the last place before half of all sequence numbers, a stream of `2 ^ 31 - 1`
bytes is not delivered. -/
theorem not_delivers_of_fin : ¬ ∀ (base : SequenceNumber32) (stream : List UInt8),
    stream.length < 2 ^ 31 → ∀ w, (system base stream).Reachable w →
      ∃ n, w.Delivers base stream n := by
  intro h
  obtain ⟨k, hk⟩ : ∃ k, k = 2147483642 := ⟨_, rfl⟩
  have hlength : (1 :: List.replicate (k + 4) 0 : List UInt8).length = 2147483647 := by
    rw [List.length_cons, List.length_replicate, hk]
  have hfive : (1 :: List.replicate (k + 4) 0 : List UInt8).take 5 = [1, 0, 0, 0, 0] := by
    simp [List.replicate_succ]
  have hthree : (1 :: List.replicate (k + 4) 0 : List UInt8).take 3 = [1, 0, 0] := by
    simp [List.replicate_succ]
  have hsixth : (1 :: List.replicate (k + 4) 0 : List UInt8)[5]? = some 0 ∨
      (1 :: List.replicate (k + 4) 0 : List UInt8)[5]? = none := by
    rw [List.getElem?_cons_succ, List.getElem?_replicate]
    split
    · exact .inl rfl
    · exact .inr rfl
  generalize (1 :: List.replicate (k + 4) 0 : List UInt8) = stream at *
  have hadd := @system_add 0 stream (start 0) 0 2147483647 (by omega)
  rw [List.drop_zero, List.take_of_length_le (Nat.le_of_eq hlength), seqAt_zero] at hadd
  have hfin : (system 0 stream).step ⟨((new 0).add 0 stream).2, []⟩ .setFin
      ⟨afterFin stream, []⟩ := by
    show some _ = some _
    rw [hlength, ← fin_add_new hlength,
      show seqAt (0 : SequenceNumber32) 2147483647 = 2147483647#32 from BitVec.zero_add _]
  obtain ⟨q, hq⟩ := extract_afterFin hlength
  have hextract : (system 0 stream).step ⟨afterFin stream, []⟩ (.extract 5)
      ⟨afterExtract (2147483647#32 - 5) q, [1, 0, 0, 0, 0]⟩ := by
    show some _ = some _
    rw [hq, hfive]
    rfl
  have hold := @system_add 0 stream ⟨afterExtract (2147483647#32 - 5) q, [1, 0, 0, 0, 0]⟩ 0 3
    (by omega)
  rw [List.drop_zero, hthree, seqAt_zero] at hold
  have hagain := @extract_stale q [1, 0, 0] (2147483647#32 - 5) (by decide) rfl
  have hlast : (system 0 stream).step
      ⟨((afterExtract (2147483647#32 - 5) q).add 0 [1, 0, 0]).2, [1, 0, 0, 0, 0]⟩ (.extract 3)
      ⟨(((afterExtract (2147483647#32 - 5) q).add 0 [1, 0, 0]).2.extract 3).2,
        [1, 0, 0, 0, 0, 1, 0, 0]⟩ := by
    show some _ = some _
    rw [hagain]
    rfl
  have hrun := (((((System.Run.nil (start 0)).snoc hadd).snoc hfin).snoc hextract).snoc hold).snoc
    hlast
  obtain ⟨n, hdelivers⟩ := h 0 stream (by omega) _ ⟨_, _, rfl, hrun⟩
  obtain ⟨rest, hrest⟩ := hdelivers.extracted
  rw [← hrest] at hsixth
  simp at hsixth

end

end Receiver

end Ns3.Internet
