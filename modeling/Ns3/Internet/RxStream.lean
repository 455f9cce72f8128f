import Ns3.Internet.TcpRxBuffer
import Ns3.Lib.Intervals
import Ns3.Lib.Run

/-!
# The TCP receive buffer delivers the stream

A buffer that is given segments of one byte stream holds pieces of the stream:
its keys are offsets from the first sequence number, and its operations are
those of `Ns3.Lib.Intervals` on these offsets. `Layout` is the invariant:
first the packets in order, without a gap, from what has been extracted to
`NextRxSequence`, then disjoint ones further on.
-/

namespace Ns3.Internet

open Ns3.Lib Ns3.Network
open SequenceNumber
open Intervals

namespace TcpRxBuffer

variable (base : SequenceNumber32) (stream : List UInt8)

/-- The key and the packet that hold a piece of the stream. -/
def chunk (c : ℕ × ℕ) : SequenceNumber32 × Packet :=
  (seqAt base c.1, (stream.drop c.1).take c.2)

variable {base stream}

/-- The piece is one of the stream, and within half of all sequence numbers. -/
def Inside (stream : List UInt8) (c : ℕ × ℕ) : Prop :=
  c.1 + c.2 < 2 ^ 31 ∧ (c.2 = 0 ∨ c.1 + c.2 ≤ stream.length)

theorem length_chunk {c : ℕ × ℕ} (h : Inside stream c) : (chunk base stream c).2.length = c.2 := by
  unfold chunk Inside at *
  rw [List.length_take, List.length_drop]
  omega

theorem getSize_chunk (base : SequenceNumber32) {c : ℕ × ℕ} (h : Inside stream c) :
    (chunk base stream c).2.getSize = BitVec.ofNat 32 c.2 := by
  unfold Packet.getSize
  rw [length_chunk h]

/-! ## Removing overlapped bytes -/

theorem sub_ofNat_sub (x : BitVec 32) {a b c : ℕ} (h : c ≤ b) :
    x - BitVec.ofNat 32 a - BitVec.ofNat 32 (b - c) = x - BitVec.ofNat 32 (a + b - c) := by
  rw [BitVec.sub_sub, ← BitVec.ofNat_add, Nat.add_sub_assoc h]

theorem removeOverlaps_eq (base : SequenceNumber32) {h t : ℕ} (size : BitVec 32)
    {cs : List (ℕ × ℕ)} (hh : h < 2 ^ 31) (ht : t < 2 ^ 31) (hcs : ∀ c ∈ cs, Inside stream c) :
    removeOverlaps (seqAt base h) (seqAt base t) size (cs.map (chunk base stream)) =
      ⟨seqAt base (trim h t cs).1, seqAt base (trim h t cs).2.1,
        (trim h t cs).2.2.map (chunk base stream),
        size - BitVec.ofNat 32 (total cs - total (trim h t cs).2.2)⟩ := by
  induction cs generalizing h t size with
  | nil => simp [removeOverlaps, trim]
  | cons c cs ih =>
    have hin := hcs c List.mem_cons_self
    have hcs' : ∀ d ∈ cs, Inside stream d := fun d hd => hcs d (List.mem_cons_of_mem _ hd)
    have hc : c.1 + c.2 < 2 ^ 31 := hin.1
    have hc₁ : c.1 < 2 ^ 31 := by omega
    have hlast : seqAt base c.1 + (chunk base stream c).2.getSize = seqAt base (c.1 + c.2) := by
      rw [getSize_chunk base hin]
      exact seqAt_add ..
    have hfirst : (chunk base stream c).1 = seqAt base c.1 := rfl
    rw [List.map_cons]
    unfold removeOverlaps trim
    simp only [hfirst, hlast, le_seqAt hc₁ ht, gt_seqAt hc hh, gt_seqAt hc₁ hh, lt_seqAt hc ht,
      le_seqAt hc₁ hh, ge_seqAt hc ht, Nat.not_le, Nat.not_lt]
    by_cases hout : t < c.1
    · simp [hout, chunk]
    rw [if_neg hout, if_neg hout]
    by_cases hbelow : c.1 + c.2 ≤ h
    · rw [if_pos hbelow, if_pos hbelow, ih _ hh ht hcs']
      simp [chunk, Nat.add_sub_add_left]
    rw [if_neg hbelow, if_neg hbelow]
    by_cases hnested : h < c.1 ∧ c.1 + c.2 < t
    · rw [if_pos hnested, if_pos hnested, ih _ hh ht hcs', getSize_chunk base hin,
        sub_ofNat_sub _ (total_sublist trim_sublist), total_cons]
    · rw [if_neg hnested, if_neg hnested]
      have hhead : (if c.1 ≤ h then seqAt base (c.1 + c.2) else seqAt base h) =
          seqAt base (if c.1 ≤ h then c.1 + c.2 else h) := by split <;> rfl
      have htail : (if t ≤ c.1 + c.2 then seqAt base c.1 else seqAt base t) =
          seqAt base (if t ≤ c.1 + c.2 then c.1 else t) := by split <;> rfl
      rw [hhead, htail, ih _ (by split <;> omega) (by split <;> omega) hcs']
      simp [chunk, Nat.add_sub_add_left]

/-- From a range that is empty the loop takes nothing, and it leaves the packets alone. -/
theorem removeOverlaps_self (base m : SequenceNumber32) (size : BitVec 32) {cs : List (ℕ × ℕ)}
    (hcs : ∀ c ∈ cs, Inside stream c) (hsorted : cs.Pairwise Before) :
    ∃ head tail, removeOverlaps m m size (cs.map (chunk base stream)) =
      ⟨head, tail, cs.map (chunk base stream), size⟩ ∧ Ge head tail := by
  induction cs with
  | nil => exact ⟨m, m, rfl, .inr rfl⟩
  | cons c cs ih =>
    have hin := hcs c List.mem_cons_self
    have hcs' : ∀ d ∈ cs, Inside stream d := fun d hd => hcs d (List.mem_cons_of_mem _ hd)
    obtain ⟨hc, hsorted⟩ := List.pairwise_cons.mp hsorted
    have hbound : c.1 + c.2 < 2 ^ 31 := hin.1
    rw [List.map_cons]
    unfold removeOverlaps
    dsimp only
    by_cases hout : Le (chunk base stream c).1 m
    swap
    · rw [if_pos hout]
      exact ⟨m, m, rfl, .inr rfl⟩
    rw [if_neg (not_not_intro hout)]
    by_cases hgt : Gt ((chunk base stream c).1 + (chunk base stream c).2.getSize) m
    swap
    · rw [if_pos hgt]
      obtain ⟨head, tail, heq, hge⟩ := ih hcs' hsorted
      rw [heq]
      exact ⟨head, tail, rfl, hge⟩
    rw [if_neg (not_not_intro hgt), if_neg fun h => hout h.1, if_pos hout, if_pos (.inl hgt)]
    have hlast : (chunk base stream c).1 + (chunk base stream c).2.getSize =
        seqAt base (c.1 + c.2) := by
      rw [getSize_chunk base hin]
      exact seqAt_add ..
    have hstop : trim (c.1 + c.2) c.1 cs = (c.1 + c.2, c.1, cs) :=
      trim_of_lt fun d hd => (hc d hd).2
    have hrest := removeOverlaps_eq base size hbound
      (show c.1 < 2 ^ 31 by omega) hcs'
    rw [hstop] at hrest
    rw [hlast, show (chunk base stream c).1 = seqAt base c.1 from rfl, hrest]
    refine ⟨seqAt base (c.1 + c.2), seqAt base c.1, by simp [chunk], ?_⟩
    exact (ge_seqAt hbound (by omega)).mpr (by omega)

/-- Whatever the tail is, the head stays when no packet reaches over it, and packets are taken out
only beyond it. -/
theorem removeOverlaps_far {h : ℕ} (base tail : SequenceNumber32) (size : BitVec 32)
    {cs ds : List (ℕ × ℕ)} (hh : h < 2 ^ 31) (hcs : ∀ c ∈ cs, Inside stream c ∧ c.1 + c.2 ≤ h)
    (hds : ∀ c ∈ ds, Inside stream c ∧ (c.1 ≤ h → c.1 + c.2 ≤ h)) :
    ∃ ds' tail', ds'.Sublist ds ∧
      removeOverlaps (seqAt base h) tail size ((cs ++ ds).map (chunk base stream)) =
        ⟨seqAt base h, tail', (cs ++ ds').map (chunk base stream),
          size - BitVec.ofNat 32 (total ds - total ds')⟩ := by
  induction cs with
  | nil =>
    induction ds generalizing tail size with
    | nil => exact ⟨[], tail, .slnil, by simp [removeOverlaps]⟩
    | cons c ds ih =>
      obtain ⟨hin, hreach⟩ := hds c List.mem_cons_self
      have hds' : ∀ d ∈ ds, Inside stream d ∧ (d.1 ≤ h → d.1 + d.2 ≤ h) :=
        fun d hd => hds d (List.mem_cons_of_mem _ hd)
      have hbound : c.1 + c.2 < 2 ^ 31 := hin.1
      have hlast : seqAt base c.1 + (chunk base stream c).2.getSize = seqAt base (c.1 + c.2) := by
        rw [getSize_chunk base hin]
        exact seqAt_add ..
      have hfirst : (chunk base stream c).1 = seqAt base c.1 := rfl
      rw [List.nil_append, List.map_cons, removeOverlaps]
      simp only [hfirst, hlast, gt_seqAt hbound hh, gt_seqAt (show c.1 < 2 ^ 31 by omega) hh,
        le_seqAt (show c.1 < 2 ^ 31 by omega) hh]
      by_cases hout : ¬ Le (seqAt base c.1) tail
      · rw [if_pos hout]
        exact ⟨c :: ds, tail, .refl _, by simp [chunk]⟩
      rw [if_neg hout]
      by_cases hbelow : ¬ h < c.1 + c.2
      · rw [if_pos hbelow]
        obtain ⟨ds', tail', hsub, heq⟩ := @ih tail size hds'
        refine ⟨c :: ds', tail', hsub.cons_cons c, ?_⟩
        rw [List.nil_append] at heq
        rw [heq]
        simp [chunk, Nat.add_sub_add_left]
      rw [if_neg hbelow]
      have hhead : h < c.1 := by
        by_contra hle
        have := hreach (by omega)
        omega
      by_cases hnested : h < c.1 ∧ Lt (seqAt base (c.1 + c.2)) tail
      · rw [if_pos hnested]
        obtain ⟨ds', tail', hsub, heq⟩ := @ih tail
          (size - (chunk base stream c).2.getSize) hds'
        refine ⟨ds', tail', hsub.cons c, ?_⟩
        rw [List.nil_append] at heq
        rw [heq, getSize_chunk base hin, sub_ofNat_sub _ (total_sublist hsub), total_cons,
          List.nil_append]
      · rw [if_neg hnested, if_neg (by omega)]
        obtain ⟨ds', tail', hsub, heq⟩ := @ih
          (if Ge (seqAt base (c.1 + c.2)) tail then seqAt base c.1 else tail) size hds'
        refine ⟨c :: ds', tail', hsub.cons_cons c, ?_⟩
        rw [List.nil_append] at heq
        rw [heq]
        simp [chunk, Nat.add_sub_add_left]
  | cons c cs ih =>
    obtain ⟨hin, hbelow⟩ := hcs c List.mem_cons_self
    have hlast : seqAt base c.1 + (chunk base stream c).2.getSize = seqAt base (c.1 + c.2) := by
      rw [getSize_chunk base hin]
      exact seqAt_add ..
    have hfirst : (chunk base stream c).1 = seqAt base c.1 := rfl
    rw [List.cons_append, List.map_cons, removeOverlaps]
    simp only [hfirst, hlast, gt_seqAt hin.1 hh]
    by_cases hout : ¬ Le (seqAt base c.1) tail
    · rw [if_pos hout]
      exact ⟨ds, tail, .refl _, by simp [chunk]⟩
    · rw [if_neg hout, if_pos (by omega)]
      obtain ⟨ds', tail', hsub, heq⟩ := ih fun d hd => hcs d (List.mem_cons_of_mem _ hd)
      refine ⟨ds', tail', hsub, ?_⟩
      rw [heq]
      simp [chunk]

/-! ## The invariant -/

/-- How far the next sequence number is: the FIN counts for one place once all bytes are there. -/
def nextOffset (b : TcpRxBuffer) (n L : ℕ) : ℕ := if b.gotFin = true ∧ n = L then n + 1 else n

/-- The packets in order, `cs`, hold the bytes from `x` to `n`, and those beyond are `ds`. -/
structure Layout (base : SequenceNumber32) (stream : List UInt8) (b : TcpRxBuffer) (x n : ℕ)
    (cs ds : List (ℕ × ℕ)) : Prop where
  data : b.data = (cs ++ ds).map (chunk base stream)
  tiles : Tiles x n cs
  sorted : ds.Pairwise Before
  above : ∀ c ∈ ds, n ≤ c.1 ∧ (c.1 = n → c.2 = 0)
  inside : ∀ c ∈ ds, Inside stream c
  bound : n ≤ stream.length
  size : b.size = BitVec.ofNat 32 (total (cs ++ ds))
  avail : b.availBytes = BitVec.ofNat 32 (n - x)
  fin : b.gotFin = true → b.finSeq = seqAt base stream.length ∧ stream.length + 1 < 2 ^ 31
  next : b.nextRxSeq = seqAt base (nextOffset b n stream.length)

variable {b : TcpRxBuffer} {x n : ℕ} {cs ds : List (ℕ × ℕ)}

theorem Layout.inside_cs (h : Layout base stream b x n cs ds) (hL : stream.length < 2 ^ 31) :
    ∀ c ∈ cs, Inside stream c ∧ c.1 + c.2 ≤ n := by
  intro c hc
  have := h.tiles.mem hc
  have := h.bound
  unfold Inside
  omega

theorem Layout.pairwise (h : Layout base stream b x n cs ds) : (cs ++ ds).Pairwise Before := by
  refine List.pairwise_append.mpr ⟨h.tiles.pairwise, h.sorted, fun c hc d hd => ?_⟩
  have := h.tiles.mem hc
  have := (h.above d hd).1
  unfold Before
  omega

theorem le_nextOffset {L : ℕ} : n ≤ nextOffset b n L := by
  unfold nextOffset
  split <;> omega

theorem Layout.nextOffset_lt (h : Layout base stream b x n cs ds) (hL : stream.length < 2 ^ 31) :
    nextOffset b n stream.length < 2 ^ 31 := by
  have := h.bound
  unfold nextOffset
  split
  · rename_i hfin
    have := (h.fin hfin.1).2
    omega
  · omega

/-- No packet reaches over the next sequence number. -/
theorem Layout.not_over (h : Layout base stream b x n cs ds) {c : ℕ × ℕ} (hc : c ∈ ds)
    (hle : c.1 ≤ nextOffset b n stream.length) : c.1 + c.2 ≤ nextOffset b n stream.length := by
  have habove := h.above c hc
  have hin := (h.inside c hc).2
  unfold nextOffset at hle ⊢
  split at hle
  · rename_i hfin
    rw [if_pos hfin]
    omega
  · rename_i hfin
    rw [if_neg hfin]
    omega

/-! ## Adding a segment -/

/-- The range of a segment within the window: empty, or from the first byte that is new to at most
the segment's end, or else the segment is old. -/
theorem window_cases (h : Layout base stream b x n cs ds) (hL : stream.length < 2 ^ 31) {s len : ℕ}
    (hs : s + len ≤ stream.length) :
    let range := b.window (seqAt base s) (seqAt base (s + len))
    range.1 = range.2 ∨
      (∃ t, max s (nextOffset b n stream.length) < t ∧ t ≤ s + len ∧
        range.1 = seqAt base (max s (nextOffset b n stream.length)) ∧ range.2 = seqAt base t) ∨
      s + len < nextOffset b n stream.length ∧
        range.1 = seqAt base (nextOffset b n stream.length) := by
  have hN := h.nextOffset_lt hL
  have hhead : (if Lt (seqAt base s) b.nextRxSeq then b.nextRxSeq else seqAt base s) =
      seqAt base (max s (nextOffset b n stream.length)) := by
    rw [h.next]
    simp only [lt_seqAt (show s < 2 ^ 31 by omega) hN]
    split <;> congr 1 <;> omega
  unfold window
  dsimp only
  rw [hhead]
  generalize hNval : nextOffset b n stream.length = N at hN ⊢
  cases hdata : b.data with
  | nil =>
    dsimp only
    rcases lt_trichotomy (max s N) (s + len) with hlt | heq | hgt
    · exact .inr (.inl ⟨s + len, hlt, le_rfl, rfl, rfl⟩)
    · exact .inl (by rw [heq])
    · refine .inr (.inr ⟨by omega, ?_⟩)
      congr 1
      omega
  | cons c rest =>
    dsimp only
    have hh : max s N < 2 ^ 31 := by omega
    by_cases hm : Lt (c.1 + b.maxBuffer) (seqAt base (s + len))
    · rw [if_pos hm]
      by_cases hback : Lt (c.1 + b.maxBuffer) (seqAt base (max s N))
      · rw [if_pos hback]
        exact .inl rfl
      rw [if_neg hback]
      rcases lt_trichotomy (max s N) (s + len) with hlt | heq | hgt
      · obtain ⟨k, hk, hklt, hkm⟩ := exists_between hlt (by omega) hback hm
        rw [hkm]
        rcases Nat.eq_or_lt_of_le hk with rfl | hk
        · exact .inl rfl
        · exact .inr (.inl ⟨k, hk, hklt.le, rfl, rfl⟩)
      · rw [heq] at hback
        exact absurd hm hback
      · refine .inr (.inr ⟨by omega, ?_⟩)
        congr 1
        omega
    · rw [if_neg hm]
      simp only [lt_seqAt (show s + len < 2 ^ 31 by omega) hh]
      split
      · exact .inl rfl
      · rcases Nat.eq_or_lt_of_le (show max s N ≤ s + len by omega) with heq | hlt
        · exact .inl (by rw [heq])
        · exact .inr (.inl ⟨s + len, hlt, le_rfl, rfl, rfl⟩)

/-- A fragment of a segment is a piece of the stream. -/
theorem fragment_eq {s len k l : ℕ} (hs : s + len ≤ stream.length) (hlen : len < 2 ^ 32)
    (hk : s ≤ k) (hl : k + l ≤ s + len) :
    Packet.createFragment ((stream.drop s).take len) (seqAt base k - seqAt base s)
      (seqAt base (k + l) - seqAt base k) = (chunk base stream (k, l)).2 := by
  have hlength : ((stream.drop s).take len).length = len := by
    rw [List.length_take, List.length_drop]
    omega
  rw [sub_seqAt hk, sub_seqAt (Nat.le_add_right k l), Nat.add_sub_cancel_left,
    Packet.createFragment_eq (by omega) (by omega), List.drop_take, List.drop_drop, List.take_take,
    Nat.add_sub_cancel' hk]
  show _ = (stream.drop k).take l
  congr 1
  omega

/-- What is left beyond the next sequence number, `ds'`, and what of the segment is new, `c`, if
anything is stored. -/
theorem trimmed_cases (h : Layout base stream b x n cs ds) (hL : stream.length < 2 ^ 31) {s len : ℕ}
    (hs : s + len ≤ stream.length) {t : Trimmed}
    (ht : t = removeOverlaps (b.window (seqAt base s) (seqAt base (s + len))).1
      (b.window (seqAt base s) (seqAt base (s + len))).2 b.size b.data) :
    ∃ ds', ds'.Sublist ds ∧ t.data = (cs ++ ds').map (chunk base stream) ∧
      t.size = b.size - BitVec.ofNat 32 (total ds - total ds') ∧
      (Ge t.head t.tail ∨ ∃ c : ℕ × ℕ, nextOffset b n stream.length ≤ c.1 ∧
        (c.2 = 0 → c.1 = nextOffset b n stream.length) ∧ Inside stream c ∧
        (∀ d ∈ ds', d.1 + d.2 ≤ c.1 ∨ c.1 + c.2 ≤ d.1) ∧ t.head = seqAt base c.1 ∧
        Packet.createFragment ((stream.drop s).take len) (t.head - seqAt base s)
          (t.tail - t.head) = (chunk base stream c).2) := by
  have hN := h.nextOffset_lt hL
  have hn : n ≤ nextOffset b n stream.length := le_nextOffset
  have hcs := h.inside_cs hL
  have hall : ∀ c ∈ cs ++ ds, Inside stream c := fun c hc =>
    (List.mem_append.mp hc).elim (fun hc => (hcs c hc).1) (h.inside c)
  rcases window_cases h hL hs with heq | ⟨t', hlt, hle, hhead, htail⟩ | ⟨hold, hhead⟩
  · obtain ⟨head, tail, hrun, hge⟩ := removeOverlaps_self base
      (b.window (seqAt base s) (seqAt base (s + len))).2 b.size hall h.pairwise
    rw [heq, h.data, hrun] at ht
    subst ht
    exact ⟨ds, .refl _, rfl, by simp, .inl hge⟩
  · rw [hhead, htail, h.data, removeOverlaps_eq base _ (by omega) (by omega) hall,
      trim_append fun c hc => ⟨(hcs c hc).2.trans (by omega), by have := (hcs c hc).2; omega⟩] at ht
    generalize hr : trim (max s (nextOffset b n stream.length)) t' ds = r at ht
    have hr₁ := @trim_head_le (max s (nextOffset b n stream.length)) t' ds
    have hr₂ := @trim_tail_le (max s (nextOffset b n stream.length)) t' ds
    rw [hr] at hr₁ hr₂
    refine ⟨r.2.2, hr ▸ trim_sublist, by rw [ht], ?_, ?_⟩
    · rw [ht]
      simp [Nat.add_sub_add_left]
    by_cases hempty : r.2.1 ≤ r.1
    · refine .inl ?_
      have hlt := @trim_head_lt (max s (nextOffset b n stream.length)) t' (2 ^ 31) ds (by omega)
        fun c hc => (h.inside c hc).1
      rw [hr] at hlt
      rw [ht]
      exact (ge_seqAt hlt (show r.2.1 < 2 ^ 31 by omega)).mpr hempty
    · have hdisjoint := @trim_disjoint (max s (nextOffset b n stream.length)) t' ds h.sorted
      rw [hr] at hdisjoint
      refine .inr ⟨(r.1, r.2.1 - r.1), by dsimp only; omega, by dsimp only; omega,
        ⟨by dsimp only; omega, .inr ?_⟩, ?_, ?_, ?_⟩
      · dsimp only
        omega
      · intro d hd
        have := hdisjoint (by omega) d hd
        dsimp only
        omega
      · rw [ht]
      · rw [ht, ← fragment_eq hs (by omega) (by omega) (by omega)]
        dsimp only
        rw [Nat.add_sub_cancel' (by omega)]
  · rw [hhead, h.data] at ht
    obtain ⟨ds', tail', hsub, hrun⟩ := removeOverlaps_far base
      (b.window (seqAt base s) (seqAt base (s + len))).2 b.size hN
      (fun c hc => ⟨(hcs c hc).1, (hcs c hc).2.trans hn⟩)
      fun c hc => ⟨h.inside c hc, h.not_over hc⟩
    rw [hrun] at ht
    refine ⟨ds', hsub, by rw [ht], by rw [ht], .inr ⟨(nextOffset b n stream.length, 0), le_rfl,
      fun _ => rfl, ⟨hN, .inl rfl⟩, fun d hd => ?_, by rw [ht], ?_⟩⟩
    · rcases Nat.lt_or_ge (nextOffset b n stream.length) d.1 with hlt | hge
      · exact .inr hlt.le
      · exact .inl (h.not_over (hsub.subset hd) hge)
    · rw [ht]
      dsimp only
      rw [sub_seqAt (by omega), Packet.createFragment_of_length_le]
      · simp [chunk]
      · rw [List.length_take, BitVec.toNat_ofNat]
        omega

/-! ## Storing -/

theorem assign_eq {c : ℕ × ℕ} {cs : List (ℕ × ℕ)} (hc : c.1 < 2 ^ 31)
    (hcs : ∀ d ∈ cs, d.1 < 2 ^ 31) :
    assign (seqAt base c.1) (chunk base stream c).2 (cs.map (chunk base stream)) =
      (place c cs).map (chunk base stream) := by
  induction cs with
  | nil => rfl
  | cons d cs ih =>
    have hd := hcs d List.mem_cons_self
    have hfirst : (chunk base stream d).1 = seqAt base d.1 := rfl
    rw [List.map_cons, assign, place]
    simp only [hfirst, lt_seqAt hc hd,
      seqAt_inj (show c.1 < 2 ^ 32 by omega) (show d.1 < 2 ^ 32 by omega)]
    split
    · rfl
    split
    · rfl
    · rw [ih fun e he => hcs e (List.mem_cons_of_mem _ he)]
      rfl

/-- The loop passes over packets before the next sequence number. -/
theorem advance_skip {k : ℕ} {rest : List (SequenceNumber32 × Packet)} (hk : k < 2 ^ 31)
    (hnext : b.nextRxSeq = seqAt base k) (hcs : ∀ c ∈ cs, c.1 < k) :
    advance (cs.map (chunk base stream) ++ rest) b = advance rest b := by
  induction cs with
  | nil => rfl
  | cons c cs ih =>
    have hc := hcs c List.mem_cons_self
    have hlt : Lt (chunk base stream c).1 b.nextRxSeq := by
      rw [hnext]
      exact (lt_seqAt (by omega) hk).mpr hc
    rw [List.map_cons, List.cons_append, advance, if_pos hlt]
    exact ih fun d hd => hcs d (List.mem_cons_of_mem _ hd)

/-- The loop stops at packets further on. -/
theorem advance_stop {k : ℕ} (hk : k < 2 ^ 31) (hnext : b.nextRxSeq = seqAt base k)
    (hcs : ∀ c ∈ cs, k < c.1 ∧ c.1 < 2 ^ 31) :
    advance (cs.map (chunk base stream)) b = b := by
  cases cs with
  | nil => rfl
  | cons c cs =>
    obtain ⟨hkc, hc⟩ := hcs c List.mem_cons_self
    rw [List.map_cons, advance]
    simp only [hnext, show (chunk base stream c).1 = seqAt base c.1 from rfl, lt_seqAt hc hk,
      gt_seqAt hc hk]
    rw [if_neg (by omega), if_pos hkc]

/-- The packet at the next sequence number is in order. -/
theorem advance_step {c : ℕ × ℕ} (cs : List (ℕ × ℕ)) (hin : Inside stream c)
    (hnext : b.nextRxSeq = seqAt base c.1) :
    ∃ sack, advance ((c :: cs).map (chunk base stream)) b =
      advance (cs.map (chunk base stream)) { b with
        nextRxSeq := seqAt base (c.1 + c.2)
        availBytes := b.availBytes + BitVec.ofNat 32 c.2
        sackList := sack } := by
  have hc : c.1 < 2 ^ 31 := by
    have := hin.1
    omega
  rw [List.map_cons, advance]
  simp only [hnext, show (chunk base stream c).1 = seqAt base c.1 from rfl, lt_seqAt hc hc,
    gt_seqAt hc hc, lt_irrefl, if_false, getSize_chunk base hin, seqAt_add]
  exact ⟨_, rfl⟩

/-- The loop goes to the end of what follows without a gap. -/
theorem advance_run {k n' : ℕ} {taken rest : List (ℕ × ℕ)} (hnext : b.nextRxSeq = seqAt base k)
    (htiles : Tiles k n' taken) (hn' : n' < 2 ^ 31) (hsorted : rest.Pairwise Before)
    (hrest : ∀ c ∈ rest, n' ≤ c.1 ∧ (c.1 = n' → c.2 = 0))
    (hin : ∀ c ∈ taken ++ rest, Inside stream c) :
    ∃ sack, advance ((taken ++ rest).map (chunk base stream)) b =
      { b with
        nextRxSeq := seqAt base n'
        availBytes := b.availBytes + BitVec.ofNat 32 (n' - k)
        sackList := sack } := by
  induction taken generalizing k b with
  | nil =>
    obtain rfl : k = n' := htiles
    rw [List.nil_append] at hin ⊢
    by_cases hat : ∃ c rest', rest = c :: rest' ∧ c.1 = k
    · obtain ⟨c, rest', rfl, rfl⟩ := hat
      have hempty := (hrest c List.mem_cons_self).2 rfl
      obtain ⟨sack, hstep⟩ := advance_step rest' (hin c List.mem_cons_self) hnext
      rw [hempty, Nat.add_zero] at hstep
      rw [hstep, advance_stop (k := c.1) hn' rfl fun d hd => ⟨?_, ?_⟩]
      · exact ⟨sack, by rw [Nat.sub_self]⟩
      · exact ((List.pairwise_cons.mp hsorted).1 d hd).2
      · have := (hin d (List.mem_cons_of_mem _ hd)).1
        omega
    · rw [advance_stop hn' hnext fun c hc => ⟨?_, ?_⟩]
      · exact ⟨b.sackList, by rw [Nat.sub_self]; simp [← hnext]⟩
      · cases rest with
        | nil => cases hc
        | cons d rest' =>
          have hd : d.1 ≠ k := fun heq => hat ⟨d, rest', rfl, heq⟩
          have := (hrest d List.mem_cons_self).1
          rcases List.mem_cons.mp hc with rfl | hmem
          · omega
          · have := ((List.pairwise_cons.mp hsorted).1 c hmem).2
            omega
      · have := (hin c hc).1
        omega
  | cons c taken ih =>
    obtain ⟨rfl, hpos, htiles⟩ := htiles
    obtain ⟨sack, hstep⟩ := advance_step (taken ++ rest) (hin c List.mem_cons_self) hnext
    obtain ⟨sack', hrun⟩ := ih (b := { b with
      nextRxSeq := seqAt base (c.1 + c.2)
      availBytes := b.availBytes + BitVec.ofNat 32 c.2
      sackList := sack }) rfl htiles fun d hd => hin d (List.mem_cons_of_mem _ hd)
    have hle := htiles.le
    refine ⟨sack', ?_⟩
    rw [List.cons_append, hstep, hrun]
    simp only [BitVec.add_assoc, ← BitVec.ofNat_add]
    congr 3
    omega

/-- Empty packets change nothing but the SACK list. -/
theorem advance_empty {k : ℕ} (hk : k < 2 ^ 31) (hnext : b.nextRxSeq = seqAt base k)
    (hin : ∀ c ∈ cs, Inside stream c ∧ c.2 = 0) :
    ∃ sack, advance (cs.map (chunk base stream)) b = { b with sackList := sack } := by
  induction cs generalizing b with
  | nil => exact ⟨b.sackList, rfl⟩
  | cons c cs ih =>
    obtain ⟨hc, hempty⟩ := hin c List.mem_cons_self
    have hlt : c.1 < 2 ^ 31 := by
      have := hc.1
      omega
    have hin' : ∀ d ∈ cs, Inside stream d ∧ d.2 = 0 := fun d hd =>
      hin d (List.mem_cons_of_mem _ hd)
    by_cases hat : c.1 = k
    · subst hat
      obtain ⟨sack, hstep⟩ := advance_step cs hc hnext
      rw [hempty, Nat.add_zero, BitVec.add_zero, ← hnext] at hstep
      obtain ⟨sack', hrest⟩ := ih (b := { b with sackList := sack }) hnext hin'
      exact ⟨sack', hstep.trans hrest⟩
    · have hbehind : Lt (chunk base stream c).1 b.nextRxSeq ↔ c.1 < k := by
        rw [hnext]
        exact lt_seqAt hlt hk
      have hahead : Gt (chunk base stream c).1 b.nextRxSeq ↔ k < c.1 := by
        rw [hnext]
        exact gt_seqAt hlt hk
      rw [List.map_cons, advance]
      simp only [hbehind, hahead]
      by_cases hbefore : c.1 < k
      · rw [if_pos hbefore]
        exact ih hnext hin'
      · rw [if_neg hbefore, if_pos (by omega)]
        exact ⟨b.sackList, rfl⟩

/-- `UpdateSackList` only changes the SACK list. -/
theorem store_eq (b : TcpRxBuffer) (head tail : SequenceNumber32) (p : Packet) :
    ∃ sack, b.store head tail p =
      (advance (assign head p b.data) { b with
        data := assign head p b.data
        size := b.size + p.getSize
        sackList := sack }).passFin := by
  unfold store
  dsimp only
  split
  · exact ⟨_, rfl⟩
  · exact ⟨b.sackList, rfl⟩

/-- Nothing is stored beyond a FIN that has been passed. -/
theorem Layout.eq_zero (h : Layout base stream b x stream.length cs ds) {c : ℕ × ℕ} (hc : c ∈ ds) :
    c.2 = 0 := by
  have habove := (h.above c hc).1
  have hin := (h.inside c hc).2
  omega

/-- A FIN at the end of the bytes in order is passed. -/
theorem passFin_eq {L : ℕ} (hnext : b.nextRxSeq = seqAt base n) (hn : n ≤ L) (hL : L < 2 ^ 31)
    (hfin : b.gotFin = true → b.finSeq = seqAt base L) :
    b.passFin = { b with nextRxSeq := seqAt base (nextOffset b n L) } := by
  have hat : b.gotFin = true ∧ b.nextRxSeq = b.finSeq ↔ b.gotFin = true ∧ n = L := by
    refine and_congr_right fun hgot => ?_
    rw [hnext, hfin hgot, seqAt_inj (by omega) (by omega)]
  unfold passFin nextOffset
  simp only [hat]
  split
  · rw [hnext, ← seqAt_add]
    rfl
  · rw [← hnext]

theorem Layout.store (h : Layout base stream b x n cs ds) (hL : stream.length < 2 ^ 31)
    {c : ℕ × ℕ} (hc : nextOffset b n stream.length ≤ c.1)
    (hempty : c.2 = 0 → c.1 = nextOffset b n stream.length) (hin : Inside stream c)
    (hoff : ∀ d ∈ ds, d.1 + d.2 ≤ c.1 ∨ c.1 + c.2 ≤ d.1) (tail : SequenceNumber32) :
    ∃ n' cs' ds', n ≤ n' ∧
      Layout base stream (b.store (seqAt base c.1) tail (chunk base stream c).2) x n' cs' ds' := by
  have hn : n ≤ nextOffset b n stream.length := le_nextOffset
  have hcs := h.inside_cs hL
  have hreplaced : ∀ d ∈ ds, d.1 = c.1 → d.2 = 0 := by
    intro d hd heq
    have := hoff d hd
    have := h.not_over hd
    omega
  have hbound : ∀ d ∈ cs ++ ds, d.1 < 2 ^ 31 := by
    intro d hd
    have hd := (List.mem_append.mp hd).elim (fun hd => (hcs d hd).1) (h.inside d)
    have := hd.1
    omega
  have hplace : place c (cs ++ ds) = cs ++ place c ds := place_append fun d hd => by
    have := h.tiles.mem hd
    omega
  have hdata : assign (seqAt base c.1) (chunk base stream c).2 b.data =
      (cs ++ place c ds).map (chunk base stream) := by
    rw [h.data, assign_eq (by have := hin.1; omega) hbound, hplace]
  have hsorted := pairwise_place h.sorted hoff
  have hinside : ∀ d ∈ place c ds, Inside stream d := fun d hd =>
    (mem_place hd).elim (fun heq => heq ▸ hin) (h.inside d)
  have habove : ∀ d ∈ place c ds, n ≤ d.1 := fun d hd =>
    (mem_place hd).elim (fun heq => heq ▸ hn.trans hc) fun hd => (h.above d hd).1
  have hsize : b.size + (chunk base stream c).2.getSize =
      BitVec.ofNat 32 (total (cs ++ place c ds)) := by
    rw [h.size, getSize_chunk base hin, ← BitVec.ofNat_add, total_append, total_append,
      total_place hreplaced]
    congr 1
    omega
  obtain ⟨sack, hstore⟩ := store_eq b (seqAt base c.1) tail (chunk base stream c).2
  rw [hstore, hdata, hsize]
  by_cases hfin : b.gotFin = true ∧ n = stream.length
  · obtain ⟨hgot, rfl⟩ := hfin
    have hnext : nextOffset b stream.length stream.length = stream.length + 1 :=
      if_pos ⟨hgot, rfl⟩
    have hzero : ∀ d ∈ place c ds, d.2 = 0 := by
      intro d hd
      rcases mem_place hd with rfl | hd
      · have := hin.2
        omega
      · exact h.eq_zero hd
    have hfar := (h.fin hgot).2
    obtain ⟨sack', hrun⟩ := advance_empty
      (b := { b with
        data := (cs ++ place c ds).map (chunk base stream)
        size := BitVec.ofNat 32 (total (cs ++ place c ds))
        sackList := sack })
      hfar (hnext ▸ h.next) (show ∀ d ∈ place c ds, Inside stream d ∧ d.2 = 0 from
        fun d hd => ⟨hinside d hd, hzero d hd⟩)
    refine ⟨stream.length, cs, place c ds, le_rfl, ?_⟩
    rw [List.map_append, advance_skip hfar (hnext ▸ h.next) fun d hd => ?_, ← List.map_append, hrun]
    · have hpast : ¬ seqAt base (stream.length + 1) = seqAt base stream.length := by
        rw [seqAt_inj (by omega) (by omega)]
        omega
      unfold passFin
      rw [if_neg]
      · refine ⟨rfl, h.tiles, hsorted, fun d hd => ⟨habove d hd, fun _ => hzero d hd⟩, hinside,
          le_rfl, rfl, h.avail, h.fin, h.next⟩
      · dsimp only
        rw [h.next, (h.fin hgot).1, hnext]
        exact fun hc => hpast hc.2
    · have := h.tiles.mem hd
      omega
  · have hnext : nextOffset b n stream.length = n := if_neg hfin
    obtain ⟨n', taken, rest, heq, htiles, hrest⟩ := exists_run hsorted habove
    rw [heq] at hsorted hinside ⊢
    have hn' : n' ≤ stream.length := htiles.end_le h.bound fun d hd =>
      (hinside d (List.mem_append_left _ hd)).2
    obtain ⟨sack', hrun⟩ := advance_run (k := n)
      (b := { b with
        data := (cs ++ (taken ++ rest)).map (chunk base stream)
        size := BitVec.ofNat 32 (total (cs ++ (taken ++ rest)))
        sackList := sack })
      (hnext ▸ h.next) htiles (by omega) (List.pairwise_append.mp hsorted).2.1 hrest hinside
    have hfar : n < 2 ^ 31 := hnext ▸ h.nextOffset_lt hL
    refine ⟨n', cs ++ taken, rest, htiles.le, ?_⟩
    rw [List.map_append, advance_skip hfar (hnext ▸ h.next) fun d hd => ?_, ← List.map_append, hrun,
      passFin_eq rfl hn' hL ?_]
    · refine ⟨by rw [List.append_assoc], h.tiles.append htiles, (List.pairwise_append.mp hsorted).2.1,
        hrest, fun d hd => hinside d (List.mem_append_right _ hd), hn', by rw [List.append_assoc], ?_,
        h.fin, rfl⟩
      dsimp only
      rw [h.avail, ← BitVec.ofNat_add]
      congr 1
      have := h.tiles.le
      have := htiles.le
      omega
    · exact fun hgot => (h.fin hgot).1
    · have := h.tiles.mem hd
      omega

/-- Packets beyond the next sequence number may be taken out. -/
theorem Layout.sublist (h : Layout base stream b x n cs ds) {ds' : List (ℕ × ℕ)}
    (hsub : ds'.Sublist ds) :
    Layout base stream { b with
      data := (cs ++ ds').map (chunk base stream)
      size := b.size - BitVec.ofNat 32 (total ds - total ds') } x n cs ds' := by
  refine ⟨rfl, h.tiles, h.sorted.sublist hsub, fun c hc => h.above c (hsub.subset hc),
    fun c hc => h.inside c (hsub.subset hc), h.bound, ?_, h.avail, h.fin, h.next⟩
  have hle := total_sublist hsub
  dsimp only
  rw [h.size, total_append, total_append, BitVec.sub_eq_iff_eq_add, ← BitVec.ofNat_add]
  congr 1
  omega

theorem Layout.add (h : Layout base stream b x n cs ds) (hL : stream.length < 2 ^ 31) {s len : ℕ}
    (hs : s + len ≤ stream.length) :
    ∃ n' cs' ds', n ≤ n' ∧
      Layout base stream (b.add (seqAt base s) ((stream.drop s).take len)).2 x n' cs' ds' := by
  have hin : Inside stream (s, len) := ⟨by dsimp only; omega, .inr hs⟩
  have hend : seqAt base s + Packet.getSize ((stream.drop s).take len) = seqAt base (s + len) := by
    rw [← seqAt_add, ← getSize_chunk base hin]
    rfl
  obtain ⟨ds', hsub, hdata, hsize, hnew⟩ := trimmed_cases h hL hs rfl
  have h' := h.sublist hsub
  rw [← hdata, ← hsize] at h'
  unfold TcpRxBuffer.add
  dsimp only
  rw [hend]
  split
  · exact ⟨n, cs, ds', le_rfl, h'⟩
  rename_i hkept
  obtain hge | ⟨c, hc, hempty, hinside, hoff, hhead, hfragment⟩ := hnew
  · exact absurd hge hkept
  · dsimp only
    rw [hfragment, hhead]
    exact h'.store hL hc hempty hinside hoff _

end TcpRxBuffer

end Ns3.Internet
