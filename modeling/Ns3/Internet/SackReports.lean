import Ns3.Internet.SackList

/-!
# What the receiver reports

`Add` takes out the packets that a segment covers and leaves the SACK list as it
is; the block of such a packet stays, within the new one. Runs in which no
segment swallows a reported packet keep the list in order:
`reports_of_not_swallows`.
-/

namespace Ns3.Internet

open Ns3.Lib Ns3.Network
open SequenceNumber
open Intervals

namespace TcpRxBuffer

variable {base : SequenceNumber32} {stream : List UInt8} {b b' : TcpRxBuffer}
  {x n s len : ℕ} {cs ds ws bs : List (ℕ × ℕ)} {c : ℕ × ℕ}

instance (c : SequenceNumber32 × Packet) (m : SequenceNumber32) : Decidable (Holds c m) :=
  inferInstanceAs (Decidable (∃ i < c.2.length, m = c.1 + BitVec.ofNat 32 i))

/-- The block has this byte. -/
def InBlock (block : SackBlock) (m : SequenceNumber32) : Prop := Ge m block.1 ∧ Lt m block.2

instance (block : SackBlock) (m : SequenceNumber32) : Decidable (InBlock block m) :=
  inferInstanceAs (Decidable (_ ∧ _))

/-- The list after an `Add`: at most four blocks, disjoint, not empty, beyond the next sequence
number, and of bytes that are held; what the `Add` stored there is within the first one. -/
structure Reports (b b' : TcpRxBuffer) : Prop where
  length : b'.sackList.length ≤ 4
  disjoint : b'.sackList.Pairwise fun d d' => ∀ m, ¬ (InBlock d m ∧ InBlock d' m)
  nonempty : ∀ block ∈ b'.sackList, Lt block.1 block.2
  above : ∀ block ∈ b'.sackList, Gt block.1 b'.nextRxSeq
  held : ∀ block ∈ b'.sackList, ∀ m, InBlock block m → ∃ c ∈ b'.data, Holds c m
  first : ∀ c ∈ b'.data, (∀ d ∈ b.data, d.1 ≠ c.1) → Gt c.1 b'.nextRxSeq →
    ∃ block rest, b'.sackList = block :: rest ∧ Le block.1 c.1 ∧ Le (c.1 + c.2.getSize) block.2

/-- Beyond the next sequence number, the segment has a missing byte and then reaches past the end of
a packet, some of which is in the SACK list. -/
def Swallows (b : TcpRxBuffer) (seq : SequenceNumber32) (p : Packet) : Prop :=
  Gt seq b.nextRxSeq ∧ ∃ c ∈ b.data, Lt (c.1 + c.2.getSize) (b.window seq (seq + p.getSize)).2 ∧
    (∃ i < p.length, Lt (seq + BitVec.ofNat 32 i) c.1 ∧
      ∀ d ∈ b.data, ¬ Holds d (seq + BitVec.ofNat 32 i)) ∧
    ∃ block ∈ b.sackList, Lt block.1 (c.1 + c.2.getSize) ∧ Lt c.1 block.2

instance (b : TcpRxBuffer) (seq : SequenceNumber32) (p : Packet) : Decidable (Swallows b seq p) :=
  inferInstanceAs (Decidable (_ ∧ _))

/-- One `Add` after the other. -/
def adds (b : TcpRxBuffer) (segments : List (SequenceNumber32 × Packet)) : TcpRxBuffer :=
  segments.foldl (fun b segment => (b.add segment.1 segment.2).2) b

/-! ## Storing -/

theorem advance_frame (l : List (SequenceNumber32 × Packet)) (b : TcpRxBuffer) :
    ∃ next avail sack, advance l b =
      { b with nextRxSeq := next, availBytes := avail, sackList := sack } := by
  induction l generalizing b with
  | nil => exact ⟨b.nextRxSeq, b.availBytes, b.sackList, rfl⟩
  | cons c l ih =>
    rw [advance]
    split
    · exact ih b
    split
    · exact ⟨b.nextRxSeq, b.availBytes, b.sackList, rfl⟩
    · obtain ⟨next, avail, sack, heq⟩ := ih (({ b with
        nextRxSeq := c.1 + c.2.getSize
        availBytes := b.availBytes + c.2.getSize } : TcpRxBuffer).clearSackList
          (c.1 + c.2.getSize))
      exact ⟨next, avail, sack, heq⟩

theorem passFin_of_not (hfin : b.gotFin = false) : b.passFin = b := by
  unfold passFin
  rw [if_neg]
  rw [hfin]
  exact fun hc => Bool.false_ne_true hc.1

/-- The loop stays where it is when nothing is at the next sequence number. -/
theorem advance_still (hn : n < 2 ^ 31) (hnext : b.nextRxSeq = seqAt base n)
    (hcs : ∀ d ∈ cs, d.1 < n) (hds : ∀ d ∈ ds, n < d.1 ∧ d.1 < 2 ^ 31) :
    advance ((cs ++ ds).map (chunk base stream)) b = b := by
  rw [List.map_append, advance_skip hn hnext hcs, advance_stop hn hnext hds]

/-- What is stored beyond the next sequence number does not move it. -/
theorem store_beyond (hfin : b.gotFin = false) (hn : n < 2 ^ 31)
    (hnext : b.nextRxSeq = seqAt base n) (hdata : b.data = (cs ++ ds).map (chunk base stream))
    (hcs : ∀ d ∈ cs, d.1 < n) (hds : ∀ d ∈ ds, n < d.1 ∧ d.1 < 2 ^ 31) (hc : n < c.1 ∧ c.1 < 2 ^ 31)
    (tail : SequenceNumber32) :
    b.store (seqAt base c.1) tail (chunk base stream c).2 =
      { b.updateSackList (seqAt base c.1) tail with
        data := (cs ++ place c ds).map (chunk base stream)
        size := b.size + (chunk base stream c).2.getSize } := by
  have hbound : ∀ d ∈ cs ++ ds, d.1 < 2 ^ 31 := by
    intro d hd
    rcases List.mem_append.mp hd with hd | hd
    · have := hcs d hd
      omega
    · exact (hds d hd).2
  have hassign : assign (seqAt base c.1) (chunk base stream c).2 b.data =
      (cs ++ place c ds).map (chunk base stream) := by
    rw [hdata, assign_eq hc.2 hbound, place_append fun d hd => (hcs d hd).trans hc.1]
  have hbeyond : ∀ d ∈ place c ds, n < d.1 ∧ d.1 < 2 ^ 31 := fun d hd =>
    (mem_place hd).elim (fun heq => heq ▸ hc) (hds d)
  have hgt : Gt (seqAt base c.1) b.nextRxSeq := by
    rw [hnext]
    exact (gt_seqAt hc.2 hn).mpr hc.1
  have hrun : ∀ sack, (advance ((cs ++ place c ds).map (chunk base stream)) { b with
      data := (cs ++ place c ds).map (chunk base stream)
      size := b.size + (chunk base stream c).2.getSize
      sackList := sack }).passFin = { b with
      data := (cs ++ place c ds).map (chunk base stream)
      size := b.size + (chunk base stream c).2.getSize
      sackList := sack } := by
    intro sack
    rw [advance_still hn ?_ hcs hbeyond, passFin_of_not]
    · exact hfin
    · exact hnext
  unfold store
  dsimp only
  rw [hassign, if_pos hgt]
  exact hrun _

/-- What is stored at the next sequence number leaves the packets in place, and clears the blocks
that end by where the bytes in order do then. -/
theorem store_next (hfin : b.gotFin = false) (hnext : b.nextRxSeq = seqAt base c.1)
    (hdata : b.data = (cs ++ ds).map (chunk base stream)) (hcs : ∀ d ∈ cs, d.1 < c.1)
    (hc : Inside stream c) (hall : ∀ d ∈ cs ++ ds, Inside stream d)
    (hsack : b.sackList = bs.map (block base)) (hbs : ∀ d ∈ bs, Proper d ∧ c.1 < d.1)
    (tail : SequenceNumber32) :
    ∃ n' next avail, b.store (seqAt base c.1) tail (chunk base stream c).2 =
        { b with
          nextRxSeq := next
          availBytes := avail
          data := (cs ++ place c ds).map (chunk base stream)
          size := b.size + (chunk base stream c).2.getSize
          sackList := (bs.filter fun d => n' < d.1 + d.2).map (block base) } ∧
      next = seqAt base n' ∧ c.1 ≤ n' ∧ n' < 2 ^ 31 := by
  have hbound : ∀ d ∈ cs ++ ds, d.1 < 2 ^ 31 := by
    intro d hd
    have := (hall d hd).1
    omega
  have hfar : c.1 < 2 ^ 31 := by
    have := hc.1
    omega
  have hassign : assign (seqAt base c.1) (chunk base stream c).2 b.data =
      (cs ++ place c ds).map (chunk base stream) := by
    rw [hdata, assign_eq hfar hbound, place_append hcs]
  have hinside : ∀ d ∈ cs ++ place c ds, Inside stream d := by
    intro d hd
    rcases List.mem_append.mp hd with hd | hd
    · exact hall d (List.mem_append_left _ hd)
    · exact (mem_place hd).elim (fun heq => heq ▸ hc) fun hd => hall d (List.mem_append_right _ hd)
  have hstay : ¬ Gt (seqAt base c.1) b.nextRxSeq := by
    rw [hnext, gt_seqAt hfar hfar]
    exact lt_irrefl _
  unfold store
  dsimp only
  rw [hassign, if_neg hstay]
  obtain ⟨n', hle, hlt, hnext', hsack'⟩ := advance_sackList (b := { b with
    data := (cs ++ place c ds).map (chunk base stream)
    size := b.size + (chunk base stream c).2.getSize }) hfar hnext hinside hsack
    fun d hd => ⟨(hbs d hd).1, by have := (hbs d hd).2; omega⟩
  obtain ⟨next, avail, sack, heq⟩ := advance_frame ((cs ++ place c ds).map (chunk base stream))
    { b with
      data := (cs ++ place c ds).map (chunk base stream)
      size := b.size + (chunk base stream c).2.getSize }
  rw [heq] at hnext' hsack'
  have hsack' : sack = (bs.filter fun d => n' < d.1 + d.2).map (block base) := hsack'
  refine ⟨n', next, avail, ?_, hnext', hle, hlt⟩
  rw [heq, passFin_of_not, hsack']
  exact hfin

/-! ## The invariant -/

theorem Layout.holds_iff (h : Layout base stream b x n cs ds) (hL : stream.length < 2 ^ 31) {k : ℕ}
    (hk : k < 2 ^ 31) : (∃ c ∈ b.data, Holds c (seqAt base k)) ↔ ∃ d ∈ cs ++ ds, Has d k := by
  have hin : ∀ d ∈ cs ++ ds, Inside stream d := fun d hd =>
    (List.mem_append.mp hd).elim (fun hd => (h.inside_cs hL d hd).1) (h.inside d)
  rw [h.data]
  constructor
  · rintro ⟨c, hc, hholds⟩
    obtain ⟨d, hd, rfl⟩ := List.mem_map.mp hc
    obtain ⟨o, hle, hlt, heq⟩ := (holds_chunk (hin d hd)).mp hholds
    have := (hin d hd).1
    rw [seqAt_inj (by omega) (by omega)] at heq
    exact ⟨d, hd, by rw [heq]; exact ⟨hle, hlt⟩⟩
  · rintro ⟨d, hd, hhas⟩
    exact ⟨_, List.mem_map_of_mem hd, (holds_chunk (hin d hd)).mpr ⟨k, hhas.1, hhas.2, rfl⟩⟩

/-- The byte after those in order is missing. -/
theorem Layout.missing (h : Layout base stream b x n cs ds) (hL : stream.length < 2 ^ 31) :
    ¬ ∃ d ∈ cs ++ ds, Has d n := by
  rintro ⟨d, hd, hhas⟩
  unfold Has at hhas
  rcases List.mem_append.mp hd with hd | hd
  · have := (h.inside_cs hL d hd).2
    omega
  · have := h.above d hd
    omega

/-- No FIN has come, no packet is empty, and the SACK list is that of the intervals `bs`. -/
structure Tracked (base : SequenceNumber32) (stream : List UInt8) (b : TcpRxBuffer) (x n : ℕ)
    (cs ds bs : List (ℕ × ℕ)) : Prop where
  layout : Layout base stream b x n cs ds
  noFin : b.gotFin = false
  window : stream.length + b.maxBuffer.toNat < 2 ^ 31
  nonempty : ∀ c ∈ b.data, c.2 ≠ []
  sack : b.sackList = bs.map (block base)
  length : bs.length ≤ 4
  apart : bs.Pairwise Apart
  proper : ∀ d ∈ bs, Proper d
  above : ∀ d ∈ bs, n < d.1
  held : ∀ d ∈ bs, ∀ k, Has d k → ∃ e ∈ cs ++ ds, Has e k

theorem Layout.next_of_not (h : Layout base stream b x n cs ds) (hfin : b.gotFin = false) :
    b.nextRxSeq = seqAt base n := by
  rw [h.next, nextOffset, if_neg]
  rw [hfin]
  exact fun hc => Bool.false_ne_true hc.1

theorem Tracked.next (h : Tracked base stream b x n cs ds bs) : b.nextRxSeq = seqAt base n :=
  h.layout.next_of_not h.noFin

theorem Tracked.inside (h : Tracked base stream b x n cs ds bs) :
    ∀ d ∈ cs ++ ds, Inside stream d ∧ 0 < d.2 := by
  have hwindow := h.window
  intro d hd
  have hin : Inside stream d := (List.mem_append.mp hd).elim
    (fun hd => (h.layout.inside_cs (by omega) d hd).1) (h.layout.inside d)
  have hne := h.nonempty (chunk base stream d) (h.layout.data ▸ List.mem_map_of_mem hd)
  have hpos := List.length_pos_of_ne_nil hne
  rw [length_chunk hin] at hpos
  exact ⟨hin, hpos⟩

/-- The segment swallows a block if it covers a packet of it, and has a missing byte below. -/
theorem Tracked.swallows (h : Tracked base stream b x n cs ds bs) (hs : s + len ≤ stream.length)
    (hbeyond : n < s) {t₀ m : ℕ} {d e : ℕ × ℕ}
    (htail : (b.window (seqAt base s) (seqAt base (s + len))).2 = seqAt base t₀)
    (ht₀ : t₀ ≤ s + len) (he : e ∈ cs ++ ds) (hend : e.1 + e.2 < t₀) (hm : s ≤ m ∧ m < e.1)
    (hmissing : ¬ ∃ f ∈ cs ++ ds, Has f m) (hd : d ∈ bs) (hover : d.1 < e.1 + e.2 ∧ e.1 < d.1 + d.2) :
    b.Swallows (seqAt base s) ((stream.drop s).take len) := by
  have hwindow := h.window
  have hin : Inside stream (s, len) := ⟨by dsimp only; omega, .inr hs⟩
  have hsize : seqAt base s + Packet.getSize ((stream.drop s).take len) = seqAt base (s + len) := by
    rw [← seqAt_add, ← getSize_chunk base hin]
    rfl
  have hein := (h.inside e he).1
  have hlast : (chunk base stream e).1 + (chunk base stream e).2.getSize =
      seqAt base (e.1 + e.2) := by
    rw [getSize_chunk base hein]
    exact seqAt_add ..
  have hebound := hein.1
  have hdbound := (h.proper d hd).2
  refine ⟨?_, chunk base stream e, h.layout.data ▸ List.mem_map_of_mem he, ?_, ⟨m - s, ?_, ?_, ?_⟩,
    block base d, h.sack ▸ List.mem_map_of_mem hd, ?_, ?_⟩
  · rw [h.next]
    exact (gt_seqAt (by omega) (by omega)).mpr hbeyond
  · rw [hsize, htail, hlast]
    exact (lt_seqAt hebound (by omega)).mpr hend
  · rw [List.length_take, List.length_drop]
    omega
  · rw [seqAt_add, Nat.add_sub_cancel' hm.1]
    exact (lt_seqAt (by omega) (by omega)).mpr hm.2
  · rw [seqAt_add, Nat.add_sub_cancel' hm.1]
    intro c hc hholds
    exact hmissing ((h.layout.holds_iff (by omega) (by omega)).mp ⟨c, hc, hholds⟩)
  · rw [hlast]
    exact (lt_seqAt (by omega) hebound).mpr hover.1
  · exact (lt_seqAt (by omega) hdbound).mpr hover.2

/-- The first block has the packets that an `Add` puts under a new key. -/
def FirstHas (base : SequenceNumber32) (stream : List UInt8) (b b' : TcpRxBuffer)
    (bs : List (ℕ × ℕ)) : Prop :=
  ∀ c ∈ b'.data, (∀ d ∈ b.data, d.1 ≠ c.1) → Gt c.1 b'.nextRxSeq →
    ∃ B R e, bs = B :: R ∧ c = chunk base stream e ∧ Inside stream e ∧ B.1 ≤ e.1 ∧
      e.1 + e.2 ≤ B.1 + B.2

/-! ## One `Add` -/

/-- A place that an old interval had is in an interval that is left, or in the new one. -/
theorem held_place {h t k : ℕ} (hds : ds.Pairwise Before) (hpos : ∀ d ∈ ds, 0 < d.2)
    (hlt : (trim h t ds).1 < (trim h t ds).2.1) (hheld : ∃ e ∈ cs ++ ds, Has e k) :
    ∃ e ∈ cs ++ place ((trim h t ds).1, (trim h t ds).2.1 - (trim h t ds).1) (trim h t ds).2.2,
      Has e k := by
  obtain ⟨e, he, hhas⟩ := hheld
  rcases List.mem_append.mp he with he | he
  · exact ⟨e, List.mem_append_left _ he, hhas⟩
  by_cases hleft : e ∈ (trim h t ds).2.2
  · have hoff := trim_disjoint hds hlt e hleft
    have hpos := hpos e he
    exact ⟨e, List.mem_append_right _ (mem_place_of_mem hleft (by dsimp only; omega)), hhas⟩
  · obtain ⟨hhead, htail, -⟩ := trim_erased hds he hleft
    refine ⟨_, List.mem_append_right _ (mem_place_self _ _), ?_⟩
    unfold Has at hhas ⊢
    dsimp only
    omega

/-- Unless the segment swallows a block, the blocks keep off what is new of it. -/
theorem Tracked.apart_new (h : Tracked base stream b x n cs ds bs) (hs : s + len ≤ stream.length)
    (hnot : ¬ b.Swallows (seqAt base s) ((stream.drop s).take len)) {t₀ : ℕ}
    (htail : (b.window (seqAt base s) (seqAt base (s + len))).2 = seqAt base t₀)
    (ht₀ : t₀ ≤ s + len) (hlt : (trim (max s n) t₀ ds).1 < (trim (max s n) t₀ ds).2.1)
    (hbeyond : n < (trim (max s n) t₀ ds).1) {d : ℕ × ℕ} (hd : d ∈ bs) :
    Apart ((trim (max s n) t₀ ds).1, (trim (max s n) t₀ ds).2.1 - (trim (max s n) t₀ ds).1) d := by
  have hwindow := h.window
  have hsorted := h.layout.sorted
  have hheadle := @trim_head_le (max s n) t₀ ds
  have hfrom : n < s := by
    by_contra hle
    have hstay : (trim (max s n) t₀ ds).1 = max s n := trim_head_eq fun e he _ => by
      have := (h.layout.above e he).1
      have := (h.layout.above e he).2
      omega
    omega
  by_contra hover
  unfold Apart at hover
  dsimp only at hover
  obtain ⟨k, hk, hkd⟩ : ∃ k, ((trim (max s n) t₀ ds).1 ≤ k ∧ k < (trim (max s n) t₀ ds).2.1) ∧
      Has d k := by
    have := (h.proper d hd).1
    refine ⟨max (trim (max s n) t₀ ds).1 d.1, ?_, ?_⟩
    · omega
    · unfold Has
      omega
  obtain ⟨e, he, hek⟩ := h.held d hd k hkd
  have hwhere : e ∈ ds ∧ e ∉ (trim (max s n) t₀ ds).2.2 := by
    rcases List.mem_append.mp he with he | he
    · have := (h.layout.inside_cs (by omega) e he).2
      unfold Has at hek
      omega
    · refine ⟨he, fun hleft => ?_⟩
      have := trim_disjoint hsorted hlt e hleft
      unfold Has at hek
      omega
  obtain ⟨hhead, hend, hend₀⟩ := trim_erased hsorted hwhere.1 hwhere.2
  refine hnot (h.swallows hs hfrom htail ht₀ he hend₀
    (m := (trim (max s n) t₀ ds).1) ⟨by omega, hhead⟩ ?_ hd ?_)
  · rintro ⟨f, hf, hfhas⟩
    unfold Has at hfhas
    rcases List.mem_append.mp hf with hf | hf
    · have := (h.layout.inside_cs (by omega) f hf).2
      omega
    · by_cases hleft : f ∈ (trim (max s n) t₀ ds).2.2
      · have := trim_disjoint hsorted hlt f hleft
        omega
      · have := (trim_erased hsorted hf hleft).1
        omega
  · unfold Has at hek hkd
    omega

/-- What holds of the buffer with other packets, once its layout is known. -/
theorem Tracked.of_layout {n' : ℕ} {cs' ds' bs' : List (ℕ × ℕ)}
    (h : Tracked base stream b x n cs ds bs) (hlayout : Layout base stream b' x n' cs' ds')
    (hfin : b'.gotFin = b.gotFin) (hmax : b'.maxBuffer = b.maxBuffer)
    (hdata : b'.data = ws.map (chunk base stream))
    (hws : ∀ e ∈ ws, Inside stream e ∧ 0 < e.2) (hsack : b'.sackList = bs'.map (block base))
    (hlength : bs'.length ≤ 4) (hapart : bs'.Pairwise Apart)
    (hbs : ∀ d ∈ bs', Proper d ∧ n' < d.1 ∧ ∀ k, Has d k → ∃ e ∈ ws, Has e k) :
    Tracked base stream b' x n' cs' ds' bs' := by
  have hwindow := h.window
  refine ⟨hlayout, hfin.trans h.noFin, hmax ▸ h.window, ?_, hsack, hlength, hapart,
    fun d hd => (hbs d hd).1, fun d hd => (hbs d hd).2.1, fun d hd k hk => ?_⟩
  · intro c hc
    rw [hdata] at hc
    obtain ⟨e, he, rfl⟩ := List.mem_map.mp hc
    refine List.ne_nil_of_length_pos ?_
    rw [length_chunk (hws e he).1]
    exact (hws e he).2
  · obtain ⟨e, he, hek⟩ := (hbs d hd).2.2 k hk
    have hbound := (hws e he).1.1
    unfold Has at hek
    refine (hlayout.holds_iff (by omega) (by omega)).mp ⟨_, hdata ▸ List.mem_map_of_mem he, ?_⟩
    exact (holds_chunk (hws e he).1).mpr ⟨k, hek.1, hek.2, rfl⟩

/-- A packet under a new key is the one that is stored. -/
theorem new_of_place (hdata : b.data = (cs ++ ds).map (chunk base stream)) {ds' : List (ℕ × ℕ)}
    (hsub : ds'.Sublist ds) {e : ℕ × ℕ} (he : e ∈ cs ++ place c ds')
    (hnew : ∀ d ∈ b.data, d.1 ≠ (chunk base stream e).1) : e = c := by
  by_contra hne
  have hold : e ∈ cs ++ ds := by
    rcases List.mem_append.mp he with he | he
    · exact List.mem_append_left _ he
    · exact List.mem_append_right _ (hsub.subset ((mem_place he).resolve_left hne))
  exact hnew _ (hdata ▸ List.mem_map_of_mem hold) rfl

/-- One `Add`, of a segment that swallows no block. -/
theorem Tracked.add (h : Tracked base stream b x n cs ds bs) (hs : s + len ≤ stream.length)
    (hnot : ¬ b.Swallows (seqAt base s) ((stream.drop s).take len)) :
    ∃ n' cs' ds' bs',
      Tracked base stream (b.add (seqAt base s) ((stream.drop s).take len)).2 x n' cs' ds' bs' ∧
      FirstHas base stream b (b.add (seqAt base s) ((stream.drop s).take len)).2 bs' := by
  have hwindow := h.window
  have hL : stream.length < 2 ^ 31 := by omega
  have hbound := h.layout.bound
  have hsorted := h.layout.sorted
  have hpos : ∀ d ∈ ds, 0 < d.2 := fun d hd => (h.inside d (List.mem_append_right _ hd)).2
  have hin : Inside stream (s, len) := ⟨by dsimp only; omega, .inr hs⟩
  have hend : seqAt base s + Packet.getSize ((stream.drop s).take len) = seqAt base (s + len) := by
    rw [← seqAt_add, ← getSize_chunk base hin]
    rfl
  obtain ⟨n', cs', ds', -, hlayout⟩ := h.layout.add hL hs
  have hn' := hlayout.bound
  have hcases := removeOverlaps_window h.layout h.noFin hpos hs h.window rfl
  unfold TcpRxBuffer.add at hlayout ⊢
  dsimp only at hlayout ⊢
  rw [hend] at hlayout ⊢
  generalize ht : removeOverlaps (b.window (seqAt base s) (seqAt base (s + len))).1
    (b.window (seqAt base s) (seqAt base (s + len))).2 b.size b.data = t at hcases hlayout ⊢
  by_cases hempty : Ge t.head t.tail
  · rw [if_pos hempty] at hlayout ⊢
    obtain ⟨ds₁, hdata, hsub, hall⟩ : ∃ ds₁, t.data = (cs ++ ds₁).map (chunk base stream) ∧
        ds₁.Sublist ds ∧ ∀ e ∈ ds, e ∈ ds₁ := by
      rcases hcases with ⟨-, hdata⟩ | ⟨t₀, hlow, ht₀, -, hhead, htail, hdata⟩
      · exact ⟨ds, hdata.trans h.layout.data, .refl _, fun e he => he⟩
      · refine ⟨_, hdata, trim_sublist, fun e he => ?_⟩
        by_contra herased
        obtain ⟨hlt, hle, -⟩ := trim_erased hsorted he herased
        have hinside := (h.inside e (List.mem_append_right _ he)).1.1
        have htl := @trim_tail_le (max s n) t₀ ds
        rw [hhead, htail, ge_seqAt (by omega) (by omega)] at hempty
        omega
    have hnext := hlayout.next_of_not h.noFin
    change b.nextRxSeq = _ at hnext
    rw [h.next, seqAt_inj (by omega) (by omega)] at hnext
    subst hnext
    refine ⟨n, cs', ds', bs, h.of_layout hlayout rfl rfl hdata ?_ h.sack h.length h.apart ?_, ?_⟩
    · intro e he
      refine h.inside e ((List.mem_append.mp he).elim (List.mem_append_left _) fun he => ?_)
      exact List.mem_append_right _ (hsub.subset he)
    · refine fun d hd => ⟨h.proper d hd, h.above d hd, fun k hk => ?_⟩
      obtain ⟨e, he, hek⟩ := h.held d hd k hk
      refine ⟨e, (List.mem_append.mp he).elim (List.mem_append_left _) fun he => ?_, hek⟩
      exact List.mem_append_right _ (hall e he)
    · intro c hc hnew _
      change c ∈ t.data at hc
      rw [hdata] at hc
      refine absurd rfl (hnew c ?_)
      rw [h.layout.data]
      exact ((hsub.append_left cs).map _).subset hc
  · rw [if_neg hempty] at hlayout ⊢
    rcases hcases with ⟨hge, -⟩ | ⟨t₀, hlow, ht₀, htail₀, hhead, htail, hdata⟩
    · exact absurd hge hempty
    have hapart := fun hlt hbeyond d hd => h.apart_new hs hnot htail₀ ht₀ hlt hbeyond (d := d) hd
    have hheld := fun k hlt => @held_place cs ds (max s n) t₀ k hsorted hpos hlt
    have hheadle := @trim_head_le (max s n) t₀ ds
    have htaille := @trim_tail_le (max s n) t₀ ds
    have hsub := @trim_sublist (max s n) t₀ ds
    have hheadlt := @trim_head_lt (max s n) t₀ (2 ^ 31) ds (by omega)
      fun e he => (h.layout.inside e he).1
    generalize trim (max s n) t₀ ds = r at *
    obtain ⟨hd, tl, ds₁⟩ := r
    dsimp only at *
    have hlt : hd < tl := by
      by_contra hle
      refine hempty ?_
      rw [hhead, htail]
      exact (ge_seqAt hheadlt (by omega)).mpr (by omega)
    have hc : Inside stream (hd, tl - hd) := ⟨by dsimp only; omega, .inr (by dsimp only; omega)⟩
    have htl : seqAt base tl = seqAt base (hd + (tl - hd)) := by
      rw [Nat.add_sub_cancel' hlt.le]
    have hfragment : Packet.createFragment ((stream.drop s).take len) (t.head - seqAt base s)
        (t.tail - t.head) = (chunk base stream (hd, tl - hd)).2 := by
      rw [hhead, htail, htl]
      exact fragment_eq hs (by omega) (by omega) (by omega)
    rw [hfragment, hhead, htail, htl] at hlayout ⊢
    have hcs : ∀ e ∈ cs, e.1 < n := fun e he => by
      have := h.layout.tiles.mem he
      omega
    have hds : ∀ e ∈ ds₁, n < e.1 ∧ e.1 < 2 ^ 31 := fun e he => by
      have := (h.layout.above e (hsub.subset he))
      have := hpos e (hsub.subset he)
      have := (h.layout.inside e (hsub.subset he)).1
      omega
    have hinside : ∀ e ∈ cs ++ place (hd, tl - hd) ds₁, Inside stream e ∧ 0 < e.2 := by
      intro e he
      rcases List.mem_append.mp he with he | he
      · exact h.inside e (List.mem_append_left _ he)
      · rcases mem_place he with rfl | he
        · exact ⟨hc, Nat.sub_pos_of_lt hlt⟩
        · exact h.inside e (List.mem_append_right _ (hsub.subset he))
    by_cases hbeyond : n < hd
    · have hstore := store_beyond (b := { b with data := t.data, size := t.size }) h.noFin
        (by omega) h.next hdata hcs hds (c := (hd, tl - hd)) ⟨hbeyond, hheadlt⟩
        (seqAt base (hd + (tl - hd)))
      dsimp only at hstore hlayout ⊢
      rw [hstore] at hlayout ⊢
      have hproper : ∀ d ∈ (hd, tl - hd) :: bs, Proper d :=
        List.forall_mem_cons.mpr ⟨⟨Nat.sub_pos_of_lt hlt, hc.1⟩, h.proper⟩
      obtain ⟨B, R, hsack, hlength, hpair, hblocks, hcovers⟩ := updateSackList_eq
        (b := { b with data := t.data, size := t.size }) base h.sack h.length hproper
        (List.pairwise_cons.mpr ⟨fun d hd => hapart hlt hbeyond d hd, h.apart⟩)
      have hnext := hlayout.next_of_not h.noFin
      change b.nextRxSeq = _ at hnext
      rw [h.next, seqAt_inj (by omega) (by omega)] at hnext
      subst hnext
      refine ⟨n, cs', ds', B :: R, h.of_layout hlayout rfl rfl rfl hinside hsack
        (by rw [List.length_cons]; omega) hpair ?_, ?_⟩
      · refine fun d hd => ⟨(hblocks d hd).1, ?_, fun k hk => ?_⟩
        · have hpos := (hblocks d hd).1.1
          obtain ⟨e, he, hek⟩ := (hblocks d hd).2 d.1 (by unfold Has; omega)
          rcases List.mem_cons.mp he with rfl | he
          · exact hbeyond.trans_le hek.1
          · exact (h.above e he).trans_le hek.1
        · obtain ⟨e, he, hek⟩ := (hblocks d hd).2 k hk
          rcases List.mem_cons.mp he with rfl | he
          · exact ⟨_, List.mem_append_right _ (mem_place_self _ _), hek⟩
          · exact hheld k hlt (h.held e he k hek)
      · intro c hc' hnew _
        obtain ⟨e, he, rfl⟩ := List.mem_map.mp hc'
        obtain rfl := new_of_place h.layout.data hsub he hnew
        exact ⟨B, R, _, rfl, rfl, hc, hcovers⟩
    · obtain rfl : n = hd := by omega
      obtain ⟨k, next, avail, hstore, rfl, hle, hk⟩ := store_next
        (b := { b with data := t.data, size := t.size }) (c := (n, tl - n)) h.noFin h.next hdata
        hcs hc (fun e he => ((List.mem_append.mp he).elim
          (fun he => h.inside e (List.mem_append_left _ he))
          fun he => h.inside e (List.mem_append_right _ (hsub.subset he))).1)
        h.sack (fun d hd => ⟨h.proper d hd, h.above d hd⟩) (seqAt base (n + (tl - n)))
      dsimp only at hstore hlayout ⊢
      rw [hstore] at hlayout ⊢
      have hnext := hlayout.next_of_not h.noFin
      dsimp only at hnext
      rw [seqAt_inj (by omega) (by omega)] at hnext
      subst hnext
      have hfilter : ∀ d ∈ bs.filter fun d => k < d.1 + d.2, d ∈ bs ∧ k < d.1 + d.2 := by
        intro d hd
        obtain ⟨hmem, hlt⟩ := List.mem_filter.mp hd
        exact ⟨hmem, of_decide_eq_true hlt⟩
      have hkept := fun d hd k hk => hheld k hlt (h.held d hd k hk)
      refine ⟨k, cs', ds', _, h.of_layout hlayout rfl rfl rfl hinside rfl
        ((List.length_filter_le ..).trans h.length) (h.apart.filter _) ?_, ?_⟩
      · refine fun d hd => ⟨h.proper d (hfilter d hd).1, ?_, hkept d (hfilter d hd).1⟩
        -- the byte that is missing now is none of the block
        by_contra hlow
        obtain ⟨e, he, hek⟩ := hkept d (hfilter d hd).1 k ⟨by omega, (hfilter d hd).2⟩
        refine hlayout.missing hL ((hlayout.holds_iff hL hk).mp
          ⟨_, List.mem_map_of_mem he, ?_⟩)
        exact (holds_chunk (hinside e he).1).mpr ⟨k, hek.1, hek.2, rfl⟩
      · intro c hc' hnew hgt
        obtain ⟨e, he, rfl⟩ := List.mem_map.mp hc'
        obtain rfl := new_of_place h.layout.data hsub he hnew
        have hgt' : Gt (seqAt base n) (seqAt base k) := hgt
        rw [gt_seqAt (by omega) (by omega)] at hgt'
        dsimp only at hle
        omega

theorem inBlock_block {d : ℕ × ℕ} (hd : Proper d) {m : SequenceNumber32} :
    InBlock (block base d) m ↔ ∃ k, Has d k ∧ m = seqAt base k := by
  obtain ⟨hpos, hbound⟩ := hd
  unfold InBlock block Has
  dsimp only
  constructor
  · rintro ⟨hge, hlt⟩
    have hlow : ¬ Lt m (seqAt base d.1) := fun h => hge.elim h.1 h.2
    obtain ⟨k, hle, hk, heq⟩ := exists_between (by omega) hbound hlow hlt
    exact ⟨k, ⟨hle, hk⟩, heq⟩
  · rintro ⟨k, ⟨hle, hk⟩, rfl⟩
    exact ⟨(ge_seqAt (by omega) (by omega)).mpr hle, (lt_seqAt (by omega) hbound).mpr hk⟩

theorem Tracked.reports (h : Tracked base stream b' x n cs ds bs)
    (hfirst : FirstHas base stream b b' bs) : Reports b b' := by
  have hwindow := h.window
  have hbound := h.layout.bound
  have hmem : ∀ block' ∈ b'.sackList, ∃ d ∈ bs, block base d = block' := by
    intro block' hblock
    rw [h.sack] at hblock
    exact List.mem_map.mp hblock
  refine ⟨?_, ?_, ?_, ?_, ?_, ?_⟩
  · rw [h.sack, List.length_map]
    exact h.length
  · rw [h.sack, List.pairwise_map]
    refine h.apart.imp_of_mem fun {d e} hd he hapart m hboth => ?_
    have hdbound := (h.proper d hd).2
    have hebound := (h.proper e he).2
    obtain ⟨k, hk, rfl⟩ := (inBlock_block (h.proper d hd)).mp hboth.1
    obtain ⟨l, hl, heq⟩ := (inBlock_block (h.proper e he)).mp hboth.2
    unfold Has Apart at *
    rw [seqAt_inj (by omega) (by omega)] at heq
    omega
  · intro block' hblock
    obtain ⟨d, hd, rfl⟩ := hmem block' hblock
    obtain ⟨hpos, hlt⟩ := h.proper d hd
    exact (lt_seqAt (by omega) hlt).mpr (by omega)
  · intro block' hblock
    obtain ⟨d, hd, rfl⟩ := hmem block' hblock
    have hlt := (h.proper d hd).2
    rw [h.next]
    exact (gt_seqAt (by omega) (by omega)).mpr (h.above d hd)
  · intro block' hblock m hm
    obtain ⟨d, hd, rfl⟩ := hmem block' hblock
    have hlt := (h.proper d hd).2
    obtain ⟨k, hk, rfl⟩ := (inBlock_block (h.proper d hd)).mp hm
    have hk' := hk
    unfold Has at hk'
    exact (h.layout.holds_iff (by omega) (by omega)).mpr (h.held d hd k hk)
  · intro c hc hnew hgt
    obtain ⟨B, R, e, rfl, rfl, hin, hlow, hhigh⟩ := hfirst c hc hnew hgt
    have hB := (h.proper B List.mem_cons_self).2
    have hbound := hin.1
    refine ⟨block base B, R.map (block base), h.sack, (le_seqAt (by omega) (by omega)).mpr hlow, ?_⟩
    have hend : (chunk base stream e).1 + (chunk base stream e).2.getSize =
        seqAt base (e.1 + e.2) := by
      rw [getSize_chunk base hin]
      exact seqAt_add ..
    rw [hend]
    exact (le_seqAt hbound hB).mpr hhigh

/-! ## Packets without content -/

/-- A packet of the same length. -/
def blankPacket (p : Packet) : Packet := List.replicate p.length 0

def blankChunk (c : SequenceNumber32 × Packet) : SequenceNumber32 × Packet := (c.1, blankPacket c.2)

/-- The buffer without the contents of its packets, on which nothing that is reported depends. -/
def blank (b : TcpRxBuffer) : TcpRxBuffer := { b with data := b.data.map blankChunk }

@[simp] theorem length_blankPacket (p : Packet) : (blankPacket p).length = p.length :=
  List.length_replicate

@[simp] theorem getSize_blankPacket (p : Packet) : (blankPacket p).getSize = p.getSize := by
  unfold Packet.getSize
  rw [length_blankPacket]

theorem holds_blankChunk {c : SequenceNumber32 × Packet} {m : SequenceNumber32} :
    Holds (blankChunk c) m ↔ Holds c m := by
  unfold Holds blankChunk
  rw [length_blankPacket]

theorem createFragment_blankPacket (p : Packet) (start length : BitVec 32) :
    (blankPacket p).createFragment start length = blankPacket (p.createFragment start length) := by
  unfold Packet.createFragment
  dsimp only
  rw [getSize_blankPacket]
  unfold blankPacket
  rw [List.drop_replicate, List.take_replicate, List.length_take, List.length_replicate,
    List.length_drop]

theorem removeOverlaps_blank (head tail : SequenceNumber32) (size : BitVec 32)
    (l : List (SequenceNumber32 × Packet)) :
    removeOverlaps head tail size (l.map blankChunk) =
      let t := removeOverlaps head tail size l
      { t with data := t.data.map blankChunk } := by
  induction l generalizing head tail size with
  | nil => rfl
  | cons c l ih =>
    rw [List.map_cons, blankChunk, removeOverlaps, removeOverlaps]
    simp only [getSize_blankPacket, ih]
    split
    · rfl
    split
    · rfl
    split
    · rfl
    · rfl

theorem assign_blank (k : SequenceNumber32) (p : Packet) (l : List (SequenceNumber32 × Packet)) :
    assign k (blankPacket p) (l.map blankChunk) = (assign k p l).map blankChunk := by
  induction l with
  | nil => rfl
  | cons c l ih =>
    rw [List.map_cons, blankChunk, assign, assign]
    split
    · rfl
    split
    · rfl
    · rw [ih]
      rfl

theorem advance_blank (l : List (SequenceNumber32 × Packet)) (b : TcpRxBuffer) :
    advance (l.map blankChunk) b.blank = (advance l b).blank := by
  induction l generalizing b with
  | nil => rfl
  | cons c l ih =>
    rw [List.map_cons, blankChunk, advance, advance]
    simp only [getSize_blankPacket]
    show (if Lt c.1 b.nextRxSeq then _ else if Gt c.1 b.nextRxSeq then _ else _) = _
    split
    · exact ih b
    split
    · rfl
    · exact ih (({ b with
        nextRxSeq := c.1 + c.2.getSize
        availBytes := b.availBytes + c.2.getSize } : TcpRxBuffer).clearSackList
          (c.1 + c.2.getSize))

theorem window_blank (b : TcpRxBuffer) (head tail : SequenceNumber32) :
    b.blank.window head tail = b.window head tail := by
  unfold window blank
  cases hdata : b.data with
  | nil => rfl
  | cons c l => rfl

theorem passFin_blank (b : TcpRxBuffer) : b.blank.passFin = b.passFin.blank := by
  unfold passFin
  show (if b.gotFin = true ∧ b.nextRxSeq = b.finSeq then _ else _) = _
  split
  · rfl
  · rfl

theorem store_blank (b : TcpRxBuffer) (head tail : SequenceNumber32) (p : Packet) :
    b.blank.store head tail (blankPacket p) = (b.store head tail p).blank := by
  have hrun : ∀ sack, (advance ((assign head p b.data).map blankChunk) { b with
      data := (assign head p b.data).map blankChunk
      size := b.size + p.getSize
      sackList := sack }).passFin =
      (advance (assign head p b.data) { b with
        data := assign head p b.data
        size := b.size + p.getSize
        sackList := sack }).passFin.blank := by
    intro sack
    rw [← passFin_blank, ← advance_blank]
    rfl
  unfold store
  dsimp only
  rw [getSize_blankPacket, show b.blank.data = b.data.map blankChunk from rfl, assign_blank]
  by_cases hgt : Gt head b.nextRxSeq
  · rw [if_pos (show Gt head b.blank.nextRxSeq from hgt), if_pos hgt]
    exact hrun _
  · rw [if_neg (show ¬ Gt head b.blank.nextRxSeq from hgt), if_neg hgt]
    exact hrun _

theorem add_blank (b : TcpRxBuffer) (seq : SequenceNumber32) (p : Packet) :
    (b.blank.add seq (blankPacket p)).2 = (b.add seq p).2.blank := by
  unfold add
  dsimp only
  rw [getSize_blankPacket, window_blank, show b.blank.data = b.data.map blankChunk from rfl,
    show b.blank.size = b.size from rfl, removeOverlaps_blank, createFragment_blankPacket]
  dsimp only
  split
  · rfl
  · exact store_blank { b with
      data := (removeOverlaps (b.window seq (seq + p.getSize)).1
        (b.window seq (seq + p.getSize)).2 b.size b.data).data
      size := (removeOverlaps (b.window seq (seq + p.getSize)).1
        (b.window seq (seq + p.getSize)).2 b.size b.data).size } _ _ _

theorem swallows_blank (b : TcpRxBuffer) (seq : SequenceNumber32) (p : Packet) :
    b.blank.Swallows seq (blankPacket p) ↔ b.Swallows seq p := by
  have hdata : ∀ P : SequenceNumber32 × Packet → Prop,
      (∃ c ∈ b.blank.data, P c) ↔ ∃ c ∈ b.data, P (blankChunk c) := by
    intro P
    show (∃ c ∈ b.data.map blankChunk, P c) ↔ _
    simp only [List.mem_map, exists_exists_and_eq_and]
  have hmissing : ∀ m, (∀ d ∈ b.blank.data, ¬ Holds d m) ↔ ∀ d ∈ b.data, ¬ Holds d m := by
    intro m
    show (∀ d ∈ b.data.map blankChunk, ¬ Holds d m) ↔ _
    simp only [List.forall_mem_map, holds_blankChunk]
  unfold Swallows
  rw [hdata]
  simp only [hmissing, window_blank, length_blankPacket, getSize_blankPacket, blankChunk]
  exact Iff.rfl

theorem reports_blank (h : Reports b.blank b'.blank) : Reports b b' := by
  refine ⟨h.length, h.disjoint, h.nonempty, h.above, fun block hblock m hm => ?_,
    fun c hc hnew hgt => ?_⟩
  · obtain ⟨c', hc', hholds⟩ := h.held block hblock m hm
    obtain ⟨c, hc, rfl⟩ := List.mem_map.mp hc'
    exact ⟨c, hc, holds_blankChunk.mp hholds⟩
  · have hnew' : ∀ d ∈ b.blank.data, d.1 ≠ (blankChunk c).1 := by
      intro d' hd'
      obtain ⟨d, hd, rfl⟩ := List.mem_map.mp hd'
      exact hnew d hd
    obtain ⟨block, rest, heq, hlow, hhigh⟩ :=
      h.first (blankChunk c) (List.mem_map_of_mem hc) hnew' hgt
    refine ⟨block, rest, heq, hlow, ?_⟩
    rw [← getSize_blankPacket]
    exact hhigh

/-! ## Every run of `Add` -/

variable {L : ℕ} {segment : SequenceNumber32 × Packet} {segments : List (SequenceNumber32 × Packet)}

/-- The segment lies within the first `L` sequence numbers from the base. -/
def Within (base : SequenceNumber32) (L : ℕ) (segment : SequenceNumber32 × Packet) : Prop :=
  ∃ s, segment.1 = seqAt base s ∧ s + segment.2.length ≤ L

theorem Tracked.add_blank (h : Tracked base (List.replicate L 0) b.blank x n cs ds bs)
    (hsegment : Within base L segment) (hnot : ¬ b.Swallows segment.1 segment.2) :
    (∃ n' cs' ds' bs',
      Tracked base (List.replicate L 0) (b.add segment.1 segment.2).2.blank x n' cs' ds' bs') ∧
      Reports b (b.add segment.1 segment.2).2 := by
  obtain ⟨s, hseq, hle⟩ := hsegment
  have hpacket : ((List.replicate L (0 : UInt8)).drop s).take segment.2.length =
      blankPacket segment.2 := by
    rw [List.drop_replicate, List.take_replicate, Nat.min_eq_left (by omega)]
    rfl
  rw [← swallows_blank, ← hpacket, hseq] at hnot
  obtain ⟨n', cs', ds', bs', htracked, hfirst⟩ :=
    h.add (by rw [List.length_replicate]; exact hle) hnot
  have hreports := htracked.reports hfirst
  rw [hpacket, ← hseq, TcpRxBuffer.add_blank] at htracked hreports
  exact ⟨⟨n', cs', ds', bs', htracked⟩, reports_blank hreports⟩

theorem Tracked.adds (h : Tracked base (List.replicate L 0) b.blank x n cs ds bs)
    (hsegments : ∀ segment ∈ segments, Within base L segment)
    (hnot : ∀ before segment after, segments = before ++ segment :: after →
      ¬ (b.adds before).Swallows segment.1 segment.2) :
    ∀ before segment after, segments = before ++ segment :: after →
      Reports (b.adds before) (b.adds (before ++ [segment])) := by
  induction segments generalizing b n cs ds bs with
  | nil =>
    intro before segment after heq
    exact absurd heq (by simp)
  | cons first segments ih =>
    obtain ⟨⟨n', cs', ds', bs', htracked⟩, hreports⟩ :=
      h.add_blank (hsegments first List.mem_cons_self) (hnot [] first segments rfl)
    intro before segment after heq
    cases before with
    | nil =>
      cases heq
      exact hreports
    | cons _ before =>
      cases heq
      exact ih htracked (fun d hd => hsegments d (List.mem_cons_of_mem _ hd))
        (fun before' segment' after' heq => hnot (first :: before') segment' after'
          (by rw [heq, List.cons_append])) before segment after rfl

theorem tracked_new (hx : x ≤ L) {size : BitVec 32} (hwindow : L + size.toNat < 2 ^ 31) :
    Tracked base (List.replicate L 0) ((new (seqAt base x)).setMaxBufferSize size).blank x x
      [] [] [] := by
  refine ⟨⟨rfl, rfl, .nil, fun c hc => absurd hc List.not_mem_nil,
    fun c hc => absurd hc List.not_mem_nil, by rw [List.length_replicate]; exact hx, rfl, ?_,
    fun hfin => absurd hfin Bool.false_ne_true, ?_⟩, rfl, by rw [List.length_replicate]; exact hwindow,
    fun c hc => absurd hc List.not_mem_nil, rfl, Nat.zero_le _, .nil,
    fun d hd => absurd hd List.not_mem_nil, fun d hd => absurd hd List.not_mem_nil,
    fun d hd => absurd hd List.not_mem_nil⟩
  · rw [Nat.sub_self]
    rfl
  · rw [nextOffset, if_neg fun hc => Bool.false_ne_true hc.1]
    rfl

/-- After every `Add` of a run in which no segment swallows a block, the SACK list is as it should
be. The segments, and the window above them, lie within half of all sequence numbers. -/
theorem reports_of_not_swallows (hx : x ≤ L) {size : BitVec 32} (hwindow : L + size.toNat < 2 ^ 31)
    (hsegments : ∀ segment ∈ segments, Within base L segment)
    (hnot : ∀ before segment after, segments = before ++ segment :: after →
      ¬ (((new (seqAt base x)).setMaxBufferSize size).adds before).Swallows segment.1 segment.2) :
    ∀ before segment after, segments = before ++ segment :: after →
      Reports (((new (seqAt base x)).setMaxBufferSize size).adds before)
        (((new (seqAt base x)).setMaxBufferSize size).adds (before ++ [segment])) :=
  (tracked_new hx hwindow).adds hsegments hnot

theorem reports_sample :
    (∀ segment ∈ [((10 : SequenceNumber32), ([0, 0] : Packet)), (14, [0, 0]), (12, [0, 0])],
      Within 0 20 segment) ∧
    ∀ before segment after,
      [((10 : SequenceNumber32), ([0, 0] : Packet)), (14, [0, 0]), (12, [0, 0])] =
        before ++ segment :: after →
      Reports (((new (seqAt 0 1)).setMaxBufferSize 100).adds before)
        (((new (seqAt 0 1)).setMaxBufferSize 100).adds (before ++ [segment])) := by
  have hwithin : ∀ segment ∈
      [((10 : SequenceNumber32), ([0, 0] : Packet)), (14, [0, 0]), (12, [0, 0])],
      Within 0 20 segment := by
    simp only [List.forall_mem_cons]
    exact ⟨⟨10, by decide, by decide⟩, ⟨14, by decide, by decide⟩, ⟨12, by decide, by decide⟩,
      fun _ h => absurd h List.not_mem_nil⟩
  refine ⟨hwithin, reports_of_not_swallows (L := 20) (by decide) (by decide) hwithin ?_⟩
  intro before segment after heq
  rcases before with - | ⟨first, - | ⟨second, - | ⟨third, before⟩⟩⟩
  · cases heq
    decide
  · cases heq
    decide
  · cases heq
    decide
  · have hlength := congrArg List.length heq
    simp only [List.length_append, List.length_cons, List.length_nil] at hlength
    omega

/-- The packet at 10 is taken out, and its block stays within that of the new one. -/
theorem not_reports :
    ¬ Reports ((new 1).adds [(10, [0, 0])]) ((new 1).adds [(10, [0, 0]), (8, [0, 0, 0, 0, 0, 0])]) := by
  intro h
  have hlist : ((new 1).adds [(10, [0, 0]), (8, [0, 0, 0, 0, 0, 0])]).sackList =
      [(8, 14), (10, 12)] := by
    simp +decide [adds, new, add, window, removeOverlaps, store, assign, advance, passFin,
      updateSackList, mergeSackBlocks, Packet.getSize]
  have hdisjoint := h.disjoint
  rw [hlist, List.pairwise_pair] at hdisjoint
  exact hdisjoint 10 (by decide)

end TcpRxBuffer

end Ns3.Internet
