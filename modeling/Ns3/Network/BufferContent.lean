import Ns3.Network.BufferSpec

/-!
# What the operations on a buffer do to its bytes

One law an operation: with no 32-bit sum that wraps, it returns, the heap stays
sound, the bytes of the other buffers stay, and those of the buffer are what
the operation makes of a list.
-/

namespace Ns3.Network

open Ns3.Lib

variable {h : Heap} {live live' rest : List Buffer} {b o : Buffer} {d : BufferData} {n : ℕ}

namespace Buffer

/-- The bytes of some buffers stay. -/
def Keeps (h h' : Heap) (rest : List Buffer) : Prop := ∀ c ∈ rest, stored h' c = stored h c

theorem Keeps.trans {h h' h'' : Heap} (hk : Keeps h h' rest) (hk' : Keeps h' h'' rest) :
    Keeps h h'' rest := fun c hc => (hk' c hc).trans (hk c hc)

theorem Keeps.content {h h' : Heap} (hk : Keeps h h' rest) (hs : Sound h live)
    (hs' : Sound h' live') (hc : o ∈ rest) (hl : o ∈ live) (hl' : o ∈ live') :
    content h' o = content h o := by
  rw [hs.content_eq hl, hs'.content_eq hl', hk o hc]

theorem length_stored (hs : Sound h live) (hb : b ∈ live) :
    ∃ l, stored h b = some l ∧ l.length = b.head + b.tail := by
  obtain ⟨d, hd, hfits⟩ := hs.fits b hb
  exact ⟨_, stored_eq hd, hfits.length_slice⟩

/-! ## Construction and assignment -/

/-- The three parts of a buffer. -/
def Parts (b : Buffer) (k z t : ℕ) : Prop := b.head = k ∧ b.zeroes = z ∧ b.tail = t

/-- Where a new buffer starts in its block. -/
def initialStart (h : Heap) : ℕ := ((init h 0).map fun out => out.2.start).getD 0

/-- A new buffer holds zeroes. -/
theorem init_spec (hs : Sound h live) (zeroSize : ℕ) (hz : initialStart h + zeroSize < 2 ^ 32) :
    ∃ h' b, init h zeroSize = some (h', b) ∧ Sound h' (b :: live) ∧ Keeps h h' live ∧
      stored h' b = some [] ∧ Parts b 0 zeroSize 0 ∧ b.stop = initialStart h + zeroSize := by
  obtain ⟨n, free, hcreate, hcount, -, hlt, hfree⟩ := h.create_spec (n := 0) (by omega) hs.freeSmall
  have hself : Function.update h.datas h.brk (some n) h.brk = some n := Function.update_self _ _ _
  have hstart : initialStart h = min n.bytes.length h.recommendedStart := by
    unfold initialStart init
    rw [hcreate]
    dsimp only
    rw [hself, Option.bind_eq_bind, Option.bind_some, Option.map_some, Option.getD_some]
  have hsum := hz
  rw [hstart] at hsum
  have hadd : add32 (min n.bytes.length h.recommendedStart) zeroSize =
      min n.bytes.length h.recommendedStart + zeroSize := Nat.mod_eq_of_lt hsum
  let b : Buffer := ⟨h.brk, min n.bytes.length h.recommendedStart,
    min n.bytes.length h.recommendedStart, min n.bytes.length h.recommendedStart + zeroSize,
    min n.bytes.length h.recommendedStart, min n.bytes.length h.recommendedStart + zeroSize⟩
  let d : BufferData := { n with dirtyStart := b.start, dirtyEnd := b.stop }
  have hparts : Parts b 0 zeroSize 0 :=
    ⟨Nat.sub_self _, Nat.add_sub_cancel_left _ _, Nat.sub_self _⟩
  have hb : Fits b d := by
    refine ⟨le_rfl, Nat.le_add_right _ _, le_rfl, hsum, le_rfl, le_rfl, ?_⟩
    unfold realEnd
    rw [hparts.1, hparts.2.2]
    exact Nat.min_le_left _ _
  have hplaced := hs.place (b := b) rfl hb hcount hlt hfree
  refine ⟨_, b, ?_, hplaced, ?_, ?_, hparts, by rw [hstart]⟩
  · unfold init
    rw [hcreate]
    simp only [Option.bind_eq_bind, hself, Option.bind_some, hadd, Heap.setData,
      Function.update_idem]
    rfl
  · intro c hc
    exact stored_congr (Function.update_of_ne (hs.data_ne_brk hc) _ _)
  · rw [stored_eq (Function.update_self _ _ _), hparts.1, hparts.2.2, slice_zero]

theorem copy_spec (hs : Sound h live) (ho : o ∈ live) :
    ∃ h' b, o.copy h = some (h', b) ∧ Sound h' (b :: live) ∧ Keeps h h' live ∧ SameView b o := by
  have hview : SameView { o with maxZeroAreaStart := o.zeroAreaStart } o := ⟨rfl, rfl, rfl, rfl, rfl⟩
  obtain ⟨h', hacq, hs', hkeep⟩ := hs.acquire ho hview
  refine ⟨h', _, ?_, hs', hkeep, hview⟩
  unfold copy
  simp only [hacq, Option.bind_eq_bind, Option.bind_some]

theorem content_sameView (hs : Sound h live) (hb : b ∈ live) (ho : o ∈ live) (hview : SameView b o) :
    content h b = content h o := by
  obtain ⟨hdata, hstart, hzs, hze, hstop⟩ := hview
  rw [hs.content_eq hb, hs.content_eq ho]
  unfold stored head zeroes tail
  rw [hdata, hstart, hzs, hze, hstop]

theorem destroy_spec (hs : Sound h (b :: rest)) :
    ∃ h', b.destroy h = some h' ∧ Sound h' rest ∧ Keeps h h' rest := by
  obtain ⟨h', hrel, hs', hkeep, -⟩ := (hs.recommend (max h.recommendedStart b.maxZeroAreaStart)).release
  exact ⟨h', hrel, hs', hkeep⟩

theorem assign_self :
    b.assign h b = some ({ h with
      recommendedStart := max h.recommendedStart b.maxZeroAreaStart }, b) := by
  unfold assign
  rw [if_pos rfl]
  rfl

theorem assign_spec (hs : Sound h (b :: rest)) (ho : o ∈ rest) :
    ∃ h', b.assign h o = some (h', o) ∧ Sound h' (o :: rest) ∧ Keeps h h' rest := by
  unfold assign
  split_ifs with hdata
  · refine ⟨_, rfl, Sound.recommend ?_ _, fun c _ => rfl⟩
    refine ⟨hs.bounded, ?_, ?_, hs.small, hs.freeSmall, ?_⟩
    · intro c hc
      rcases List.mem_cons.mp hc with rfl | hc
      · exact hs.fits c (List.mem_cons_of_mem b ho)
      · exact hs.fits c (List.mem_cons_of_mem b hc)
    · intro a d hd
      rw [hs.counted a d hd, List.countP_cons, List.countP_cons, hdata]
    · have hmem : ∀ c ∈ o :: rest, c ∈ b :: rest := by
        intro c hc
        rcases List.mem_cons.mp hc with rfl | hc
        · exact List.mem_cons_of_mem b ho
        · exact List.mem_cons_of_mem b hc
      exact fun x hx y hy => hs.ends x (hmem x hx) y (hmem y hy)
  · obtain ⟨h₁, hrel, hs₁, hkeep₁, -⟩ := hs.release
    obtain ⟨h₂, hacq, hs₂, hkeep₂⟩ := hs₁.acquire (b := o) ho ⟨rfl, rfl, rfl, rfl, rfl⟩
    refine ⟨_, ?_, hs₂.recommend (max h₂.recommendedStart b.maxZeroAreaStart), ?_⟩
    · simp only [hrel, hacq, Option.bind_eq_bind, Option.bind_some]
    · intro c hc
      exact (hkeep₂ c hc).trans (hkeep₁ c hc)

/-! ## Space at the two ends -/

/-- Moving an offset by a difference that may have wrapped. -/
theorem add32_sub32 {s n k : ℕ} (hs : s + k < 2 ^ 32) (hn : n + k < 2 ^ 32) :
    add32 (s + k) (sub32 n s) = n + k := by
  unfold add32 sub32
  rcases Nat.lt_or_ge n s with h | h
  · have hsub : (n + 2 ^ 32 - s) % 2 ^ 32 = n + 2 ^ 32 - s := Nat.mod_eq_of_lt (by omega)
    rw [hsub]
    omega
  · obtain ⟨r, rfl⟩ := Nat.exists_eq_add_of_le h
    have hr : s + r + 2 ^ 32 - s = r + 2 ^ 32 := by omega
    have hsum : s + k + r = s + r + k := Nat.add_right_comm s k r
    have hlt : r < 2 ^ 32 := by omega
    rw [hr, Nat.add_mod_right, Nat.mod_eq_of_lt hlt, hsum, Nat.mod_eq_of_lt hn]

/-- The offsets of a buffer whose bytes move to `n`. -/
theorem Fits.add32_move (hb : Fits b d) (hn : n + (b.head + b.zeroes + b.tail) < 2 ^ 32) :
    add32 b.start (sub32 n b.start) = n ∧ add32 b.zeroAreaStart (sub32 n b.start) = n + b.head ∧
      add32 b.zeroAreaEnd (sub32 n b.start) = n + b.head + b.zeroes ∧
      add32 b.stop (sub32 n b.start) = n + b.head + b.zeroes + b.tail := by
  have hlt := hb.stop_lt
  have hhead := hb.start_add_head
  have hzeroes := hb.zeroAreaStart_add_zeroes
  have htail := hb.zeroAreaEnd_add_tail
  rw [← htail, ← hzeroes, ← hhead] at hlt ⊢
  generalize b.head = k at *
  generalize b.zeroes = z at *
  generalize b.tail = t at *
  have hsum : b.start + k + z + t = b.start + (k + z + t) := by omega
  have hmove : n + k + z + t = n + (k + z + t) := by omega
  refine ⟨add32_sub32 (s := b.start) (k := 0) (by omega) (by omega),
    add32_sub32 (by omega) (by omega), ?_, ?_⟩
  · rw [Nat.add_assoc, Nat.add_assoc]
    exact add32_sub32 (by omega) (by omega)
  · rw [hsum, hmove]
    exact add32_sub32 (by omega) (by omega)

theorem sound_raiseMax (hs : Sound h (b :: rest)) : Sound h (b.raiseMax :: rest) := by
  obtain ⟨d, hd, hb⟩ := hs.fits b (by simp)
  have hb' : Fits b.raiseMax d := ⟨hb.start_le, hb.zero_le, hb.le_stop, hb.stop_lt,
    hb.dirtyStart_le, hb.le_dirtyEnd, hb.inside⟩
  exact hs.narrow rfl hd hb' le_rfl fun hstop => ⟨hstop, rfl⟩

/-- After `AddAtStart` the new bytes are the buffer's alone. -/
theorem addAtStart_spec (hs : Sound h (b :: rest)) (hn : b.getSize + n < 2 ^ 32) :
    ∃ h' b' new, b.addAtStart h n = some (h', b') ∧ Sound h' (b' :: rest) ∧ Keeps h h' rest ∧
      new.length = n ∧ stored h' b' = (stored h b).map (new ++ ·) ∧
      Parts b' (n + b.head) b.zeroes b.tail ∧ b'.stop ≤ b.stop + n ∧
      ∀ c ∈ rest, c.data = b'.data → b'.start + n ≤ c.start := by
  obtain ⟨d, hd, hb⟩ := hs.fits b (by simp)
  have hsize := hb.getSize_eq
  have hstop := hb.stop_eq
  have hin := hb.inside
  have hinternal := hb.getInternalSize_eq
  have hfits := hb
  obtain ⟨h₁, h₂, h₃, h₄, hds, hde, -⟩ := hb
  unfold addAtStart
  simp only [hd, Option.bind_eq_bind, Option.bind_some]
  split_ifs with hroom
  · obtain ⟨hle, hclean⟩ := hroom
    let b' : Buffer := { b with start := b.start - n }
    let d' : BufferData := { d with dirtyStart := b.start - n }
    have hparts : Parts b' (n + b.head) b.zeroes b.tail := by
      refine ⟨?_, rfl, rfl⟩
      show b.zeroAreaStart - (b.start - n) = n + (b.zeroAreaStart - b.start)
      omega
    have hreal : b'.realEnd = b.realEnd := by
      unfold realEnd
      rw [hparts.1, hparts.2.2]
      show b.start - n + (n + b.head + b.tail) = _
      omega
    have hb' : Fits b' d' := by
      refine ⟨?_, h₂, h₃, h₄, le_rfl, hde, ?_⟩
      · show b.start - n ≤ b.zeroAreaStart
        omega
      · rw [hreal]
        exact hin
    -- a buffer on the same block starts no earlier than the dirty area
    have hstart : ∀ c ∈ rest, c.data = b.data → b.start ≤ c.start := by
      intro c hc hshare
      have hone := hs.one_lt_count hd hc hshare
      have := (hs.fits_of (List.mem_cons_of_mem b hc) (by rw [hshare, hd])).dirtyStart_le
      omega
    have hs' : Sound (h.setData b.data d') (b' :: rest) := by
      refine hs.setData hd d' rfl rfl rfl hb' ?_
      intro c hc hshare
      have hdc : h.datas c.data = some d := by rw [hshare, hd]
      have hcfits := hs.fits_of (List.mem_cons_of_mem b hc) hdc
      refine ⟨⟨hcfits.start_le, hcfits.zero_le, hcfits.le_stop, hcfits.stop_lt, ?_,
        hcfits.le_dirtyEnd, hcfits.inside⟩, ?_, ?_⟩
      · exact (Nat.sub_le _ _).trans (hstart c hc hshare)
      · rw [hreal]
        exact hs.ends b (by simp) c (List.mem_cons_of_mem b hc) hshare d hd
      · rw [hreal]
        intro hcstop
        exact ⟨hs.ends c (List.mem_cons_of_mem b hc) b (by simp) hshare.symm d hdc hcstop, hcstop⟩
    have hself : (h.setData b.data d').datas b.data = some d' := Function.update_self _ _ _
    refine ⟨_, b'.raiseMax, slice d.bytes (b.start - n) n, rfl, sound_raiseMax hs', ?_, ?_, ?_,
      hparts, Nat.le_add_right _ _, ?_⟩
    · exact fun c _ => stored_setData hd d' rfl c
    · unfold realEnd at hin
      exact length_slice (by omega)
    · have hself' : (h.setData b.data d').datas b'.raiseMax.data = some d' := hself
      have hback : b.start - n + n = b.start := by omega
      rw [stored_eq hself', stored_eq hd, Option.map_some]
      show some (slice d.bytes (b.start - n) (b'.head + b'.tail)) = _
      rw [hparts.1, hparts.2.2, Nat.add_assoc, slice_append, hback]
    · intro c hc hshare
      have := hstart c hc hshare
      show b.start - n + n ≤ c.start
      omega
  · let b' : Buffer := { b with
      data := h.brk
      start := 0
      zeroAreaStart := n + b.head
      zeroAreaEnd := n + b.head + b.zeroes
      stop := n + b.head + b.zeroes + b.tail }
    have hparts : Parts b' (n + b.head) b.zeroes b.tail :=
      ⟨Nat.sub_zero _, Nat.add_sub_cancel_left _ _, Nat.add_sub_cancel_left _ _⟩
    have hreal : b'.realEnd = n + b.head + b.tail := by
      unfold realEnd
      rw [hparts.1, hparts.2.2]
      exact Nat.zero_add _
    obtain ⟨h₁, h₂, d', hmove, hdirty, hs', hkeep, halone, hd', hlen, hbytes⟩ :=
      hs.reallocate hd b' (b.head + b.tail + n) n (by omega) (by omega) rfl (Nat.zero_le _)
        (Nat.le_add_right _ _) (Nat.le_add_right _ _)
        (by show n + b.head + b.zeroes + b.tail < 2 ^ 32; omega) (by omega)
    have hnew : add32 b.getInternalSize n = b.head + b.tail + n := by
      rw [hinternal]
      unfold add32
      omega
    have hb' : (⟨h.brk, b.maxZeroAreaStart, add32 b.zeroAreaStart (sub32 n b.start),
        add32 b.zeroAreaEnd (sub32 n b.start), sub32 (add32 b.start (sub32 n b.start)) n,
        add32 b.stop (sub32 n b.start)⟩ : Buffer) = b' := by
      obtain ⟨hstart', hzas, hzae, hstop'⟩ := hfits.add32_move (n := n) (by omega)
      rw [hstart', hzas, hzae, hstop', sub32_of_le le_rfl (by omega), Nat.sub_self]
    have hle : b'.raiseMax.stop ≤ b.stop + n := by
      show n + b.head + b.zeroes + b.tail ≤ b.stop + n
      unfold realEnd at hstop
      omega
    refine ⟨h₂, b'.raiseMax, slice d'.bytes 0 n, ?_, sound_raiseMax hs', hkeep, ?_, ?_, hparts,
      hle, ?_⟩
    · rw [hnew, hmove]
      simp only [Option.bind_some, hb', hdirty]
    · exact length_slice (by omega)
    · have hd'' : h₂.datas b'.raiseMax.data = some d' := hd'
      rw [stored_eq hd'', stored_eq hd, Option.map_some, ← hbytes]
      show some (slice d'.bytes 0 (b'.head + b'.tail)) = _
      rw [hparts.1, hparts.2.2, Nat.add_assoc, slice_append, Nat.zero_add]
    · intro c hc hshare
      exact absurd hshare (halone c hc)

/-- The sums of `AddAtEnd` that must not wrap. -/
def FitsAtEnd (h : Heap) (b : Buffer) (n : ℕ) : Prop :=
  ∀ d, h.datas b.data = some d →
    if RoomAtEnd d b n then b.stop + n < 2 ^ 32 else b.getSize + n < 2 ^ 32

/-- After `AddAtEnd` the new bytes are the buffer's alone. -/
theorem addAtEnd_spec (hs : Sound h (b :: rest)) (hn : FitsAtEnd h b n) :
    ∃ h' b' new, b.addAtEnd h n = some (h', b') ∧ Sound h' (b' :: rest) ∧ Keeps h h' rest ∧
      new.length = n ∧ stored h' b' = (stored h b).map (· ++ new) ∧
      Parts b' b.head b.zeroes (b.tail + n) ∧ b'.stop ≤ b.stop + n ∧
      ∀ c ∈ rest, c.data = b'.data → c.realEnd + n ≤ b'.realEnd := by
  obtain ⟨d, hd, hb⟩ := hs.fits b (by simp)
  have hn := hn d hd
  have hsize := hb.getSize_eq
  have hstop := hb.stop_eq
  have hin := hb.inside
  have hinternal := hb.getInternalSize_eq
  have hend := hb.getInternalEnd_eq
  have hfits := hb
  obtain ⟨h₁, h₂, h₃, h₄, hds, hde, -⟩ := hb
  rw [addAtEnd, hd, Option.bind_eq_bind, Option.bind_some]
  split_ifs at hn ⊢ with hroom
  · obtain ⟨hle, hclean⟩ := hroom
    have hsum : add32 b.getInternalEnd n = b.realEnd + n := by
      rw [hend]
      unfold add32
      omega
    have hadd : add32 b.stop n = b.stop + n := by
      unfold add32
      omega
    rw [hsum] at hle
    rw [hadd]
    let b' : Buffer := { b with stop := b.stop + n }
    let d' : BufferData := { d with dirtyEnd := b.stop + n }
    have hparts : Parts b' b.head b.zeroes (b.tail + n) := by
      refine ⟨rfl, rfl, ?_⟩
      show b.stop + n - b.zeroAreaEnd = b.stop - b.zeroAreaEnd + n
      omega
    have hreal : b'.realEnd = b.realEnd + n := by
      unfold realEnd
      rw [hparts.1, hparts.2.2]
      show b.start + (b.head + (b.tail + n)) = _
      omega
    have hb' : Fits b' d' := by
      refine ⟨h₁, h₂, ?_, hn, hds, le_rfl, ?_⟩
      · show b.zeroAreaEnd ≤ b.stop + n
        omega
      · rw [hreal]
        exact hle
    -- a buffer on the same block ends no later in it
    have hlast : ∀ c ∈ rest, c.data = b.data → b.stop = d.dirtyEnd ∧ c.realEnd ≤ b.realEnd := by
      intro c hc hshare
      have hone := hs.one_lt_count hd hc hshare
      have hdirty : b.stop = d.dirtyEnd := by omega
      exact ⟨hdirty, hs.ends b (by simp) c (List.mem_cons_of_mem b hc) hshare d hd hdirty⟩
    have hs' : Sound (h.setData b.data d') (b' :: rest) := by
      refine hs.setData hd d' rfl rfl rfl hb' ?_
      intro c hc hshare
      have hdc : h.datas c.data = some d := by rw [hshare, hd]
      have hcfits := hs.fits_of (List.mem_cons_of_mem b hc) hdc
      obtain ⟨hdirty, hreach⟩ := hlast c hc hshare
      have hcend := hcfits.le_dirtyEnd
      refine ⟨⟨hcfits.start_le, hcfits.zero_le, hcfits.le_stop, hcfits.stop_lt,
        hcfits.dirtyStart_le, ?_, hcfits.inside⟩, ?_, ?_⟩
      · show c.stop ≤ b.stop + n
        omega
      · rw [hreal]
        omega
      · intro hcstop
        have hcstop : c.stop = b.stop + n := hcstop
        have hsame : c.stop = d.dirtyEnd := by omega
        refine ⟨?_, hsame⟩
        have := hs.ends c (List.mem_cons_of_mem b hc) b (by simp) hshare.symm d hdc hsame
        rw [hreal]
        omega
    have hself : (h.setData b.data d').datas b.data = some d' := Function.update_self _ _ _
    refine ⟨_, b'.raiseMax, slice d.bytes (b.start + (b.head + b.tail)) n, rfl, sound_raiseMax hs',
      ?_, ?_, ?_, hparts, le_rfl, ?_⟩
    · exact fun c _ => stored_setData hd d' rfl c
    · exact length_slice hle
    · have hself' : (h.setData b.data d').datas b'.raiseMax.data = some d' := hself
      rw [stored_eq hself', stored_eq hd, Option.map_some]
      show some (slice d.bytes b.start (b'.head + b'.tail)) = _
      rw [hparts.1, hparts.2.2, ← Nat.add_assoc, slice_append]
    · intro c hc hshare
      have hreach := (hlast c hc hshare).2
      show c.realEnd + n ≤ b'.realEnd
      omega
  · let b' : Buffer := { b with
      data := h.brk
      start := 0
      zeroAreaStart := b.head
      zeroAreaEnd := b.head + b.zeroes
      stop := b.head + b.zeroes + (b.tail + n) }
    have hparts : Parts b' b.head b.zeroes (b.tail + n) :=
      ⟨Nat.sub_zero _, Nat.add_sub_cancel_left _ _, Nat.add_sub_cancel_left _ _⟩
    have hreal : b'.realEnd = b.head + (b.tail + n) := by
      unfold realEnd
      rw [hparts.1, hparts.2.2]
      exact Nat.zero_add _
    obtain ⟨h₁, h₂, d', hmove, hdirty, hs', hkeep, halone, hd', hlen, hbytes⟩ :=
      hs.reallocate hd b' (b.head + b.tail + n) 0 (by omega) (by omega) rfl (Nat.zero_le _)
        (Nat.le_add_right _ _) (Nat.le_add_right _ _)
        (by show b.head + b.zeroes + (b.tail + n) < 2 ^ 32; omega) (by omega)
    have hnew : add32 b.getInternalSize n = b.head + b.tail + n := by
      rw [hinternal]
      unfold add32
      omega
    have hb' : (⟨h.brk, b.maxZeroAreaStart, add32 b.zeroAreaStart (sub32 0 b.start),
        add32 b.zeroAreaEnd (sub32 0 b.start), add32 b.start (sub32 0 b.start),
        add32 (add32 b.stop (sub32 0 b.start)) n⟩ : Buffer) = b' := by
      obtain ⟨hstart', hzas, hzae, hstop'⟩ := hfits.add32_move (n := 0) (by omega)
      have hlast : add32 (0 + b.head + b.zeroes + b.tail) n = 0 + b.head + b.zeroes + b.tail + n :=
        Nat.mod_eq_of_lt (by omega)
      rw [hstart', hzas, hzae, hstop', hlast, Nat.zero_add, Nat.add_assoc _ b.tail]
    have hle : b'.raiseMax.stop ≤ b.stop + n := by
      show b.head + b.zeroes + (b.tail + n) ≤ b.stop + n
      unfold realEnd at hstop
      omega
    refine ⟨h₂, b'.raiseMax, slice d'.bytes (b.head + b.tail) n, ?_, sound_raiseMax hs', hkeep, ?_,
      ?_, hparts, hle, ?_⟩
    · rw [hnew]
      dsimp only
      rw [hmove]
      simp only [Option.bind_eq_bind, Option.bind_some, hb', hdirty]
    · exact length_slice (by omega)
    · have hd'' : h₂.datas b'.raiseMax.data = some d' := hd'
      rw [stored_eq hd'', stored_eq hd, Option.map_some, ← hbytes]
      show some (slice d'.bytes 0 (b'.head + b'.tail)) = _
      rw [hparts.1, hparts.2.2, ← Nat.add_assoc, slice_append, Nat.zero_add]
    · intro c hc hshare
      exact absurd hshare (halone c hc)

/-! ## Writing the new bytes -/

theorem write_front (hs : Sound h (b :: rest)) (bytes : List UInt8) (hlen : bytes.length ≤ b.head)
    (hfree : ∀ c ∈ rest, c.data = b.data → b.start + bytes.length ≤ c.start) :
    ∃ h', b.beginIter.write h bytes = some h' ∧ Sound h' (b :: rest) ∧ Keeps h h' rest ∧
      stored h' b = (stored h b).map (bytes ++ ·.drop bytes.length) := by
  obtain ⟨d, hd, hb⟩ := hs.fits b (by simp)
  have hin := hb.inside
  unfold realEnd at hin
  obtain ⟨h', hstore, hs', hkeep, hd'⟩ := hs.store hd b.start bytes (by omega)
    fun c hc hshare => .inl (hfree c hc hshare)
  refine ⟨h', ?_, hs', hkeep, ?_⟩
  · have hbefore : b.beginIter.current ≤ b.beginIter.zeroStart := hb.start_le
    unfold Iterator.write
    rw [if_pos hbefore]
    exact hstore
  · have hsplit : b.head + b.tail = bytes.length + (b.head + b.tail - bytes.length) := by omega
    rw [stored_eq hd', stored_eq hd, Option.map_some, drop_slice]
    dsimp only
    conv_lhs => rw [hsplit]
    rw [slice_append, slice_overwrite_self (by omega), slice_overwrite_above le_rfl (by omega)]

theorem write_back (hs : Sound h (b :: rest)) (bytes : List UInt8) (hlen : bytes.length ≤ b.tail)
    (hfree : ∀ c ∈ rest, c.data = b.data → c.realEnd + bytes.length ≤ b.realEnd) :
    ∃ h', (b.endIter.prev bytes.length).write h bytes = some h' ∧ Sound h' (b :: rest) ∧
      Keeps h h' rest ∧
      stored h' b = (stored h b).map (fun l => l.take (l.length - bytes.length) ++ bytes) := by
  obtain ⟨d, hd, hb⟩ := hs.fits b (by simp)
  have hin := hb.inside
  have hstop := hb.stop_eq
  have hlt := hb.stop_lt
  have hslice := hb.length_slice
  have hreal : b.realEnd = b.start + (b.head + b.tail) := rfl
  have hzs : b.zeroAreaStart = b.start + b.head := by
    have := hb.start_le
    unfold head
    omega
  obtain ⟨h', hstore, hs', hkeep, hd'⟩ := hs.store hd (b.realEnd - bytes.length)
    bytes (by omega) (by
      intro c hc hshare
      have := hfree c hc hshare
      omega)
  refine ⟨h', ?_, hs', hkeep, ?_⟩
  · have hcurrent : sub32 b.stop bytes.length = b.stop - bytes.length :=
      sub32_of_le (by omega) hlt
    have hz : sub32 b.zeroAreaEnd b.zeroAreaStart = b.zeroes :=
      sub32_of_le hb.zero_le (by have := hb.le_stop; omega)
    unfold Iterator.write Iterator.prev endIter
    dsimp only
    rw [hcurrent, hz]
    split_ifs with hbefore
    · have : b.stop - bytes.length = b.realEnd - bytes.length := by omega
      rw [this, hstore]
    · have : sub32 (b.stop - bytes.length) b.zeroes = b.realEnd - bytes.length := by
        rw [sub32_of_le (by omega) (by omega)]
        omega
      rw [this, hstore]
  · have hsplit : b.head + b.tail = b.head + b.tail - bytes.length + bytes.length := by omega
    have hoff : b.start + (b.head + b.tail - bytes.length) = b.realEnd - bytes.length := by omega
    rw [stored_eq hd', stored_eq hd, Option.map_some]
    dsimp only
    rw [hslice, take_slice (by omega)]
    conv_lhs => rw [hsplit]
    rw [slice_append, slice_overwrite_below (by omega) (by omega), hoff,
      slice_overwrite_self (by omega)]

/-- `AddAtStart`, and the new bytes written. -/
theorem prepend_spec (hs : Sound h (b :: rest)) (bytes : List UInt8)
    (hn : b.getSize + bytes.length < 2 ^ 32) :
    ∃ h₁ h' b', b.addAtStart h bytes.length = some (h₁, b') ∧ Sound h₁ (b' :: rest) ∧
      Keeps h h₁ rest ∧ b'.beginIter.write h₁ bytes = some h' ∧ Sound h' (b' :: rest) ∧
      Keeps h h' rest ∧ stored h' b' = (stored h b).map (bytes ++ ·) ∧
      Parts b' (bytes.length + b.head) b.zeroes b.tail ∧ b'.stop ≤ b.stop + bytes.length ∧
      content h' b' = (content h b).map (bytes ++ ·) := by
  obtain ⟨h₁, b', new, hadd, hs₁, hkeep₁, hlen, hstored, hparts, hstop, hfree⟩ :=
    addAtStart_spec hs hn
  have hhead := hparts.1
  obtain ⟨h₂, hwrite, hs₂, hkeep₂, hstored₂⟩ :=
    write_front hs₁ bytes (by omega) hfree
  have hout : stored h₂ b' = (stored h b).map (bytes ++ ·) := by
    rw [hstored₂, hstored, Option.map_map]
    congr 1
    funext l
    show bytes ++ (new ++ l).drop bytes.length = bytes ++ l
    rw [← hlen, List.drop_left]
  refine ⟨h₁, h₂, b', hadd, hs₁, hkeep₁, hwrite, hs₂, hkeep₁.trans hkeep₂, hout, hparts, hstop, ?_⟩
  rw [hs₂.content_eq (by simp), hs.content_eq (by simp), hout, hparts.1, hparts.2.1,
    Option.map_map, Option.map_map]
  congr 1
  funext l
  exact spread_append_left bytes b.head b.zeroes 0 l

/-- `AddAtEnd`, and the new bytes written. -/
theorem append_spec (hs : Sound h (b :: rest)) (bytes : List UInt8)
    (hn : FitsAtEnd h b bytes.length) :
    ∃ h₁ h' b', b.addAtEnd h bytes.length = some (h₁, b') ∧ Sound h₁ (b' :: rest) ∧
      Keeps h h₁ rest ∧ (b'.endIter.prev bytes.length).write h₁ bytes = some h' ∧
      Sound h' (b' :: rest) ∧ Keeps h h' rest ∧ stored h' b' = (stored h b).map (· ++ bytes) ∧
      Parts b' b.head b.zeroes (b.tail + bytes.length) ∧ b'.stop ≤ b.stop + bytes.length ∧
      content h' b' = (content h b).map (· ++ bytes) := by
  obtain ⟨h₁, b', new, hadd, hs₁, hkeep₁, hlen, hstored, hparts, hstop, hfree⟩ :=
    addAtEnd_spec hs hn
  have htail := hparts.2.2
  obtain ⟨h₂, hwrite, hs₂, hkeep₂, hstored₂⟩ := write_back hs₁ bytes (by omega) hfree
  have hout : stored h₂ b' = (stored h b).map (· ++ bytes) := by
    rw [hstored₂, hstored, Option.map_map]
    congr 1
    funext l
    show (l ++ new).take ((l ++ new).length - bytes.length) ++ bytes = l ++ bytes
    rw [List.length_append, hlen, Nat.add_sub_cancel, List.take_left]
  refine ⟨h₁, h₂, b', hadd, hs₁, hkeep₁, hwrite, hs₂, hkeep₁.trans hkeep₂, hout, hparts, hstop, ?_⟩
  obtain ⟨l, hl, hllen⟩ := length_stored hs (b := b) (by simp)
  rw [hs₂.content_eq (by simp), hs.content_eq (by simp), hout, hparts.1, hparts.2.1, hl]
  simp only [Option.map_some]
  rw [spread_append_right (by omega)]

/-! ## Removals -/

/-- A buffer that is left with a part of its bytes. -/
theorem narrow_spec (hs : Sound h (b :: rest)) {b' : Buffer} (hdata : b'.data = b.data)
    (h₁ : b'.start ≤ b'.zeroAreaStart) (h₂ : b'.zeroAreaStart ≤ b'.zeroAreaEnd)
    (h₃ : b'.zeroAreaEnd ≤ b'.stop) (hstart : b.start ≤ b'.start) (hstop : b'.stop ≤ b.stop)
    (hreal : b'.realEnd ≤ b.realEnd) (htop : b'.stop = b.stop → b'.realEnd = b.realEnd)
    (f : List UInt8 → List UInt8)
    (hf : ∀ l : List UInt8, l.length = b.head + b.tail →
      spread b'.head b'.zeroes 0 (slice l (b'.start - b.start) (b'.head + b'.tail)) =
        f (spread b.head b.zeroes 0 l)) :
    Sound h (b' :: rest) ∧ content h b' = (content h b).map f := by
  obtain ⟨d, hd, hb⟩ := hs.fits b (by simp)
  have hin := hb.inside
  have hlt := hb.stop_lt
  have hds := hb.dirtyStart_le
  have hde := hb.le_dirtyEnd
  have hb' : Fits b' d :=
    ⟨h₁, h₂, h₃, by omega, hds.trans hstart, hstop.trans hde, hreal.trans hin⟩
  have hd' : h.datas b'.data = some d := (congrArg _ hdata).trans hd
  refine ⟨hs.narrow hdata hd hb' hreal ?_, ?_⟩
  · intro hb'stop
    exact ⟨by omega, htop (by omega)⟩
  · have hoff : b.start + (b'.start - b.start) = b'.start := by omega
    unfold realEnd at hreal
    have hslice := hf _ hb.length_slice
    rw [slice_slice (by omega), hoff] at hslice
    rw [hb'.content_eq hd', hb.content_eq hd, stored_eq hd', stored_eq hd, Option.map_some,
      Option.map_some, Option.map_some, hslice]

/-- The offsets of a buffer add up the sizes of its parts. -/
theorem exists_offsets (hs : Sound h (b :: rest)) :
    ∃ a m s k z t, b = ⟨a, m, s + k, s + k + z, s, s + k + z + t⟩ := by
  obtain ⟨d, -, hb⟩ := hs.fits b (by simp)
  refine ⟨b.data, b.maxZeroAreaStart, b.start, b.head, b.zeroes, b.tail, ?_⟩
  rw [hb.start_add_head, hb.zeroAreaStart_add_zeroes, hb.zeroAreaEnd_add_tail]

/-- Where `RemoveAtStart` leaves the three parts, the end in the block being the same. -/
theorem removeAtStart_parts (hs : Sound h (b :: rest)) (hn : b.start + n < 2 ^ 32) {b' : Buffer}
    (hb' : b.removeAtStart n = b') :
    b'.data = b.data ∧ b'.start ≤ b'.zeroAreaStart ∧ b'.zeroAreaStart ≤ b'.zeroAreaEnd ∧
      b'.zeroAreaEnd ≤ b'.stop ∧ b.start ≤ b'.start ∧ b'.stop ≤ b.stop ∧ b'.realEnd = b.realEnd ∧
      (n ≤ b.head ∧ Parts b' (b.head - n) b.zeroes b.tail ∨
        b.head < n ∧ n ≤ b.head + b.zeroes ∧ Parts b' 0 (b.zeroes - (n - b.head)) b.tail ∨
        b.head + b.zeroes < n ∧ n ≤ b.head + b.zeroes + b.tail ∧
          Parts b' 0 0 (b.head + b.zeroes + b.tail - n) ∨
        b.head + b.zeroes + b.tail < n ∧ Parts b' 0 0 0) := by
  obtain ⟨a, m, s, k, z, t, rfl⟩ := exists_offsets hs
  have hsum : add32 s n = s + n := Nat.mod_eq_of_lt hn
  clear hs hn
  subst hb'
  unfold removeAtStart raiseMax Parts realEnd head zeroes tail
  rw [hsum]
  simp only [Nat.add_sub_cancel_left, Nat.add_sub_add_left]
  split_ifs with h₁ h₂ h₃
  · -- the new start is in the first part
    have hn : n ≤ k := Nat.le_of_add_le_add_left h₁
    simp only [Nat.add_sub_cancel_left, Nat.add_sub_add_left, true_and, and_true]
    exact ⟨h₁, Nat.le_add_right _ _, Nat.le_add_right _ _, Nat.le_add_right _ _, le_rfl,
      by omega, .inl hn⟩
  · -- the zero area loses its first bytes
    have hk : k < n := Nat.lt_of_add_lt_add_left (Nat.lt_of_not_le h₁)
    have hn : n - k ≤ z := by omega
    have htail : s + k + t + (z - (n - k)) - (s + k + (z - (n - k))) = t := by
      rw [Nat.add_right_comm, Nat.add_sub_cancel_left]
    rw [Nat.add_right_comm _ z t, Nat.add_sub_assoc hn, Nat.add_sub_assoc hn]
    simp only [Nat.add_sub_cancel_left, Nat.sub_self, htail, Nat.zero_add, true_and, and_true]
    exact ⟨le_rfl, Nat.le_add_right _ _, by omega, Nat.le_add_right _ _, by omega,
      Nat.add_assoc _ _ _, .inr (.inl ⟨hk, by omega⟩)⟩
  · -- the new start is in the last part
    have hk : k + z < n := by omega
    have hz : z ≤ n := by omega
    have hstop : s + k + z + t - z = s + k + t := by omega
    have htail : s + k + t - (s + (n - z)) = k + z + t - n := by omega
    rw [hstop, Nat.add_sub_assoc hz]
    simp only [Nat.sub_self, htail, Nat.zero_add, true_and, and_true]
    exact ⟨le_rfl, le_rfl, by omega, Nat.le_add_right _ _, by omega, by omega,
      .inr (.inr (.inl ⟨hk, by omega⟩))⟩
  · -- nothing is left
    have hstop : s + k + z + t - z = s + k + t := by omega
    rw [hstop]
    simp only [Nat.sub_self, true_and, and_true]
    exact ⟨le_rfl, le_rfl, le_rfl, by omega, by omega, by omega, .inr (.inr (.inr (by omega)))⟩

theorem removeAtStart_spec (hs : Sound h (b :: rest)) (hn : b.start + n < 2 ^ 32) :
    Sound h (b.removeAtStart n :: rest) ∧
      content h (b.removeAtStart n) = (content h b).map (·.drop n) := by
  generalize hb' : b.removeAtStart n = b'
  obtain ⟨hdata, h₁, h₂, h₃, hstart, hstop, hreal, hparts⟩ := removeAtStart_parts hs hn hb'
  refine narrow_spec hs hdata h₁ h₂ h₃ hstart hstop hreal.le (fun _ => hreal) _ ?_
  intro l hl
  unfold realEnd at hreal
  rcases hparts with ⟨hn, hk, hz, ht⟩ | ⟨hn, hn', hk, hz, ht⟩ | ⟨hn, hn', hk, hz, ht⟩ |
    ⟨hn, hk, hz, ht⟩
  · have hoff : b'.start - b.start = n := by omega
    have hlen : b.head - n + b.tail = l.length - n := by omega
    rw [hk, hz, ht, hoff, hlen, drop_spread_before hn (by omega), slice, List.take_of_length_le]
    rw [List.length_drop]
  · have hoff : b'.start - b.start = b.head := by omega
    have hlen : 0 + b.tail = l.length - b.head := by omega
    rw [hk, hz, ht, hoff, hlen, drop_spread_inside hn.le hn' (by omega), slice,
      List.take_of_length_le]
    rw [List.length_drop]
  · have hoff : b'.start - b.start = n - b.zeroes := by omega
    have hlen : 0 + (b.head + b.zeroes + b.tail - n) = l.length - (n - b.zeroes) := by omega
    rw [hk, hz, ht, hoff, hlen, drop_spread_after hn.le (by omega), slice, List.take_of_length_le,
      spread_zero]
    rw [List.length_drop]
  · rw [hk, hz, ht, Nat.add_zero, slice_zero, spread_zero, List.drop_eq_nil_of_le]
    rw [length_spread, hl]
    omega

theorem removeAtEnd_parts (hs : Sound h (b :: rest)) {b' : Buffer} (hb' : b.removeAtEnd n = b') :
    b'.data = b.data ∧ b'.start ≤ b'.zeroAreaStart ∧ b'.zeroAreaStart ≤ b'.zeroAreaEnd ∧
      b'.zeroAreaEnd ≤ b'.stop ∧ b.start = b'.start ∧ b'.stop ≤ b.stop ∧
      b'.realEnd ≤ b.realEnd ∧ (b'.stop = b.stop → b'.realEnd = b.realEnd) ∧
      (n ≤ b.tail ∧ Parts b' b.head b.zeroes (b.tail - n) ∨
        b.tail ≤ n ∧ n ≤ b.tail + b.zeroes ∧ Parts b' b.head (b.zeroes + b.tail - n) 0 ∨
        b.tail + b.zeroes ≤ n ∧ n ≤ b.head + b.zeroes + b.tail ∧
          Parts b' (b.head + b.zeroes + b.tail - n) 0 0 ∨
        b.head + b.zeroes + b.tail ≤ n ∧ Parts b' 0 0 0) := by
  obtain ⟨a, m, s, k, z, t, rfl⟩ := exists_offsets hs
  clear hs
  subst hb'
  have hsize : s + k + z + t - s = k + z + t := by omega
  unfold removeAtEnd raiseMax Parts realEnd head zeroes tail
  simp only [hsize, Nat.add_sub_cancel_left]
  rcases Nat.le_total (k + z + t) n with hn | hn
  · -- nothing is left
    have hend : s + k + z + t - (k + z + t) = s := by omega
    rw [Nat.min_eq_right hn, hend, if_neg (by omega), if_neg (by omega), if_neg (lt_irrefl s)]
    simp only [Nat.sub_self, true_and, and_true]
    exact ⟨le_rfl, le_rfl, le_rfl, by omega, by omega, by omega, .inr (.inr (.inr hn))⟩
  obtain ⟨e, he⟩ : ∃ e, s + k + z + t = e + n := ⟨s + k + z + t - n, by omega⟩
  rw [Nat.min_eq_left hn, he, Nat.add_sub_cancel]
  split_ifs with h₁ h₂ h₃
  · -- the last part loses its last bytes
    have htail : e - (s + k + z) = t - n := by omega
    have hn : n ≤ t := by omega
    simp only [Nat.add_sub_cancel_left, htail, true_and, and_true]
    exact ⟨Nat.le_add_right _ _, Nat.le_add_right _ _, h₁.le, Nat.le_add_right _ _, by omega,
      by omega, .inl hn⟩
  · -- the zero area loses its last bytes
    have hzeroes : e - (s + k) = z + t - n := by omega
    have ht : t ≤ n := by omega
    simp only [Nat.add_sub_cancel_left, Nat.sub_self, hzeroes, true_and, and_true]
    exact ⟨Nat.le_add_right _ _, h₂.le, le_rfl, Nat.le_add_right _ _, by omega, by omega,
      .inr (.inl ⟨ht, by omega⟩)⟩
  · -- only bytes of the first part are left
    have hhead : e - s = k + z + t - n := by omega
    have ht : t + z ≤ n := by omega
    simp only [Nat.sub_self, hhead, true_and, and_true]
    exact ⟨h₃.le, le_rfl, le_rfl, Nat.le_add_right _ _, by omega, by omega,
      .inr (.inr (.inl ⟨ht, hn⟩))⟩
  · have hn' : k + z + t ≤ n := by omega
    simp only [Nat.sub_self, true_and, and_true]
    exact ⟨le_rfl, le_rfl, le_rfl, by omega, by omega, by omega, .inr (.inr (.inr hn'))⟩

theorem removeAtEnd_spec (hs : Sound h (b :: rest)) :
    Sound h (b.removeAtEnd n :: rest) ∧
      content h (b.removeAtEnd n) = (content h b).map fun l => l.take (l.length - n) := by
  generalize hb' : b.removeAtEnd n = b'
  obtain ⟨hdata, h₁, h₂, h₃, hstart, hstop, hreal, htop, hparts⟩ := removeAtEnd_parts hs hb'
  refine narrow_spec hs hdata h₁ h₂ h₃ hstart.le hstop hreal htop _ ?_
  intro l hl
  have hoff : b'.start - b.start = 0 := by omega
  rw [hoff, slice, List.drop_zero, length_spread]
  rcases hparts with ⟨hn, hk, hz, ht⟩ | ⟨hn, hn', hk, hz, ht⟩ | ⟨hn, hn', hk, hz, ht⟩ |
    ⟨hn, hk, hz, ht⟩
  · have hlen : b.head + (b.tail - n) = l.length + b.zeroes - n - b.zeroes := by omega
    rw [hk, hz, ht, hlen, take_spread_after (by omega) (by omega)]
  · have hlen : b.zeroes + b.tail - n = l.length + b.zeroes - n - b.head := by omega
    rw [hk, hz, ht, hlen, Nat.add_zero, take_spread_inside (by omega) (by omega) (by omega)]
  · have hlen : b.head + b.zeroes + b.tail - n = l.length + b.zeroes - n := by omega
    rw [hk, hz, ht, hlen, Nat.add_zero, spread_zero, take_spread_before (by omega) (by omega)]
  · have hlen : l.length + b.zeroes - n = 0 := by omega
    rw [hk, hz, ht, hlen, Nat.add_zero, spread_zero, List.take_zero, List.take_zero]

end Buffer

end Ns3.Network
