import Ns3.Network.BufferContent

/-!
# Appending one buffer to another

`CreateFullCopy` writes out the zero area, `Write (Iterator, Iterator)` copies
the three parts of a buffer, and `AddAtEnd (const Buffer &)` puts them together.
`Write` takes the offset of its destination as one in the block. So it must not
be used behind a zero area, and `AddAtEnd` does that where it joins two zero
areas and the appended buffer has bytes after its own.
-/

namespace Ns3.Network

open Ns3.Lib

variable {h : Heap} {live rest : List Buffer} {b o : Buffer} {d : BufferData} {n : ℕ}

namespace Buffer

/-! ## Reading the parts -/

theorem load_front (hs : Sound h live) (ho : o ∈ live) {l : List UInt8} (hl : stored h o = some l) :
    h.load o.data o.start o.head = some (l.take o.head) := by
  obtain ⟨d, hd, hfits⟩ := hs.fits o ho
  have hin := hfits.inside
  unfold realEnd at hin
  rw [stored_eq hd] at hl
  cases hl
  rw [Heap.load, hd, Option.bind_eq_bind, Option.bind_some, peek_eq (by omega),
    take_slice (by omega)]

theorem load_back (hs : Sound h live) (ho : o ∈ live) {l : List UInt8} (hl : stored h o = some l) :
    h.load o.data o.zeroAreaStart o.tail = some (l.drop o.head) := by
  obtain ⟨d, hd, hfits⟩ := hs.fits o ho
  have hin := hfits.inside
  have hzs : o.zeroAreaStart = o.start + o.head := by
    have := hfits.start_le
    unfold head
    omega
  unfold realEnd at hin
  rw [stored_eq hd] at hl
  cases hl
  rw [Heap.load, hd, Option.bind_eq_bind, Option.bind_some, hzs, peek_eq (by omega), drop_slice,
    Nat.add_sub_cancel_left]

/-! ## The full copy -/

/-- A buffer that ends far from the end of the 32 bits can be appended to. -/
theorem Fits.fitsAtEnd (hb : Fits b d) (hstop : b.stop + n < 2 ^ 32) : FitsAtEnd h b n := by
  intro d' _
  have hsize := hb.getSize_eq
  have hreal := hb.stop_eq
  unfold realEnd at hreal
  split_ifs
  · exact hstop
  · omega

/-- The bytes of the copied buffer, zeroes and all, lie in the new block. -/
theorem createFullCopy_spec (hs : Sound h (b :: rest)) (hz : b.zeroes ≠ 0)
    (hn : initialStart h + b.getSize < 2 ^ 32) :
    ∃ h' t, b.createFullCopy h = some (h', t) ∧ Sound h' (t :: b :: rest) ∧
      Keeps h h' (b :: rest) ∧ t.zeroes = 0 ∧ t.stop ≤ initialStart h + b.getSize ∧
      content h' t = content h b := by
  obtain ⟨d, hd, hb⟩ := hs.fits b (by simp)
  have hsize := hb.getSize_eq
  obtain ⟨l, hl, hllen⟩ := length_stored hs (b := b) (by simp)
  have hsizeOf : ∀ {h' t k m}, Sound h' (t :: b :: rest) → Parts t k 0 m → t.getSize = k + m := by
    intro h' t k m hs' hparts
    obtain ⟨d', -, hfits⟩ := hs'.fits t (by simp)
    rw [hfits.getSize_eq, hparts.1, hparts.2.1, hparts.2.2, Nat.add_zero]
  have hzlen : (List.replicate b.zeroes (0 : UInt8)).length = b.zeroes := List.length_replicate
  have hklen : (l.take b.head).length = b.head := by
    rw [List.length_take]
    omega
  have htlen : (l.drop b.head).length = b.tail := by
    rw [List.length_drop]
    omega
  -- the zero area, the bytes before it and the bytes after it
  obtain ⟨h₁, t₁, hinit, hs₁, hkeep₁, hst₁, hparts₁, hstop₁⟩ := init_spec hs 0 (by omega)
  have hsize₁ := hsizeOf hs₁ hparts₁
  obtain ⟨h₂', h₂, t₂, hadd₂, -, -, hwrite₂, hs₂, hkeep₂, hst₂, hparts₂, hstop₂, -⟩ :=
    prepend_spec hs₁ (List.replicate b.zeroes 0) (by omega)
  rw [hzlen] at hadd₂ hparts₂ hstop₂
  rw [hparts₁.1, hparts₁.2.1, hparts₁.2.2] at hparts₂
  have hsize₂ := hsizeOf hs₂ hparts₂
  obtain ⟨h₃', h₃, t₃, hadd₃, hs₃', hkeep₃', hwrite₃, hs₃, hkeep₃, hst₃, hparts₃, hstop₃, -⟩ :=
    prepend_spec hs₂ (l.take b.head) (by omega)
  rw [hklen] at hadd₃ hparts₃ hstop₃
  rw [hparts₂.1, hparts₂.2.1, hparts₂.2.2] at hparts₃
  have hload₃ : h₃'.load b.data b.start b.head = some (l.take b.head) := by
    refine load_front hs₃' (by simp) ?_
    rw [hkeep₃' b (by simp), hkeep₂ b (by simp), hkeep₁ b (by simp), hl]
  obtain ⟨d₃, hd₃, hfits₃⟩ := hs₃.fits t₃ (by simp)
  obtain ⟨h₄', h₄, t₄, hadd₄, hs₄', hkeep₄', hwrite₄, hs₄, hkeep₄, hst₄, hparts₄, hstop₄, -⟩ :=
    append_spec hs₃ (l.drop b.head) (hfits₃.fitsAtEnd (by omega))
  rw [htlen] at hadd₄ hparts₄ hstop₄ hwrite₄
  rw [hparts₃.1, hparts₃.2.1, hparts₃.2.2] at hparts₄
  have hload₄ : h₄'.load b.data b.zeroAreaStart b.tail = some (l.drop b.head) := by
    refine load_back hs₄' (by simp) ?_
    rw [hkeep₄' b (by simp), hkeep₃ b (by simp), hkeep₂ b (by simp), hkeep₁ b (by simp), hl]
  refine ⟨h₄, t₄, ?_, hs₄, ((hkeep₁.trans hkeep₂).trans hkeep₃).trans hkeep₄, hparts₄.2.1, by omega,
    ?_⟩
  · have hzdef : b.zeroAreaEnd - b.zeroAreaStart = b.zeroes := rfl
    have hkdef : b.zeroAreaStart - b.start = b.head := rfl
    have htdef : b.stop - b.zeroAreaEnd = b.tail := rfl
    rw [createFullCopy, hzdef, if_pos hz, hinit, Option.bind_eq_bind, Option.bind_some]
    dsimp only
    rw [hadd₂, Option.bind_eq_bind, Option.bind_some]
    dsimp only [Iterator.writeU8]
    rw [hwrite₂, Option.bind_eq_bind, Option.bind_some, hkdef, hadd₃, Option.bind_some]
    dsimp only
    rw [hload₃, Option.bind_some, hwrite₃, Option.bind_some, htdef, hadd₄, Option.bind_some]
    dsimp only
    rw [hload₄, Option.bind_some, hwrite₄, Option.bind_some]
  · rw [hs₄.content_eq (by simp), hs.content_eq (by simp), hparts₄.2.1, hst₄, hst₃, hst₂, hst₁, hl]
    simp only [Option.map_some, spread_zero, List.append_nil]
    rw [spread, List.append_assoc]

/-! ## Copying through iterators -/

/-- A copy from `o` into a block where only `b` lies behind the destination, with room for all
that is left. -/
structure Copies (c : Iterator.Copying) (b o : Buffer) (rest : List Buffer) (bytes : List UInt8) :
    Prop where
  sound : Sound c.heap (b :: rest)
  dst : c.dst.data = b.data
  block : ∃ d, c.heap.datas b.data = some d ∧ d.bytes = bytes
  room : c.dst.current + c.size ≤ bytes.length
  bound : c.dst.current + c.size < 2 ^ 32
  free : ∀ x ∈ rest, x.data = b.data → x.realEnd ≤ c.dst.current
  src : c.start.data = o.data
  zeroStart : c.start.zeroStart = o.zeroAreaStart
  zeroEnd : c.start.zeroEnd = o.zeroAreaEnd
  dataEnd : c.start.dataEnd = o.stop

/-- One round puts its bytes at the destination and goes on behind them. -/
theorem Copies.put {c : Iterator.Copying} {bytes x : List UInt8} (hc : Copies c b o rest bytes)
    (hx : x.length ≤ c.size) :
    ∃ c', c.put x = some c' ∧ Copies c' b o rest (overwrite bytes c.dst.current x) ∧
      Keeps c.heap c'.heap rest ∧ c'.dst.current = c.dst.current + x.length ∧
      c'.start.current = add32 c.start.current x.length ∧ c'.size + x.length = c.size := by
  obtain ⟨d, hd, rfl⟩ := hc.block
  have hroom := hc.room
  have hbound := hc.bound
  obtain ⟨h', hstore, hs', hkeep, hd'⟩ := hc.sound.store hd c.dst.current x
    (by omega) fun y hy hshare => .inr (hc.free y hy hshare)
  have hcur : (c.dst.next x.length).current = c.dst.current + x.length :=
    Nat.mod_eq_of_lt (by omega)
  refine ⟨⟨h', c.dst.next x.length, c.start.next x.length, c.size - x.length⟩, ?_, ?_, hkeep, hcur,
    rfl, Nat.sub_add_cancel hx⟩
  · rw [Iterator.Copying.put, hc.dst, hstore, Option.bind_eq_bind, Option.bind_some]
  · refine ⟨hs', hc.dst, ⟨_, hd', rfl⟩, ?_, ?_, ?_, hc.src, hc.zeroStart, hc.zeroEnd, hc.dataEnd⟩
    · rw [length_overwrite (by omega), hcur]
      dsimp only
      omega
    · rw [hcur]
      dsimp only
      omega
    · intro y hy hshare
      rw [hcur]
      exact (hc.free y hy hshare).trans (Nat.le_add_right _ _)

/-- The first round copies the bytes before the zero area. -/
theorem Copies.front_eq {c : Iterator.Copying} {bytes l : List UInt8}
    (hc : Copies c b o rest bytes) (ho : o ∈ rest) (hl : stored c.heap o = some l)
    (hcur : c.start.current = o.start) (hsize : o.head ≤ c.size) :
    c.front = c.put (l.take o.head) := by
  obtain ⟨d, -, hfits⟩ := hc.sound.fits o (List.mem_cons_of_mem b ho)
  have hle := hfits.start_le
  have hmin : min c.size (o.zeroAreaStart - o.start) = o.head := by
    unfold head at *
    omega
  rw [Iterator.Copying.front, hcur, hc.zeroStart, if_pos hle, hmin, hc.src]
  dsimp only
  rw [load_front hc.sound (List.mem_cons_of_mem b ho) hl, Option.bind_eq_bind, Option.bind_some]

/-- The second one writes the zeroes. -/
theorem Copies.zeroes_eq {c : Iterator.Copying} {bytes : List UInt8}
    (hc : Copies c b o rest bytes) (ho : o ∈ rest) (hcur : c.start.current = o.zeroAreaStart)
    (hsize : o.zeroes ≤ c.size) : c.zeroes = c.put (List.replicate o.zeroes 0) := by
  obtain ⟨d, -, hfits⟩ := hc.sound.fits o (List.mem_cons_of_mem b ho)
  have hmin : min c.size (o.zeroAreaEnd - o.zeroAreaStart) = o.zeroes := by
    unfold Buffer.zeroes at *
    omega
  rw [Iterator.Copying.zeroes, hcur, hc.zeroEnd, if_pos hfits.zero_le, hmin]

/-- The last one copies the bytes after the zero area. -/
theorem Copies.back_eq {c : Iterator.Copying} {bytes l : List UInt8}
    (hc : Copies c b o rest bytes) (ho : o ∈ rest) (hl : stored c.heap o = some l)
    (hcur : c.start.current = o.zeroAreaEnd) (hsize : c.size = o.tail) :
    c.back = c.put (l.drop o.head) := by
  obtain ⟨d, -, hfits⟩ := hc.sound.fits o (List.mem_cons_of_mem b ho)
  have hzero := hfits.zero_le
  have hle := hfits.le_stop
  have hlt := hfits.stop_lt
  have hsub : sub32 o.stop o.zeroAreaEnd = o.tail := sub32_of_le hle hlt
  have hback : sub32 o.zeroAreaEnd (sub32 o.zeroAreaEnd o.zeroAreaStart) = o.zeroAreaStart := by
    rw [sub32_of_le hzero (by omega), sub32_of_le (by omega) (by omega)]
    omega
  rw [Iterator.Copying.back, hcur, hc.dataEnd, hc.zeroEnd, hc.zeroStart, hc.src, hsub, hsize,
    hback, Nat.min_self]
  rw [load_back hc.sound (List.mem_cons_of_mem b ho) hl, Option.bind_eq_bind, Option.bind_some]

/-- `Write` from the begin to the end of a buffer, into the last bytes of one without a zero area:
these become the bytes of the other one. -/
theorem writeRange_spec (hs : Sound h (b :: rest)) (ho : o ∈ rest) (hz : b.zeroes = 0)
    (htail : o.getSize ≤ b.tail)
    (hfree : ∀ c ∈ rest, c.data = b.data → c.realEnd + o.getSize ≤ b.realEnd)
    {x : List UInt8} (hx : content h o = some x) :
    ∃ h', (b.endIter.prev o.getSize).writeRange h o.beginIter o.endIter = some h' ∧
      Sound h' (b :: rest) ∧ Keeps h h' rest ∧
      stored h' b = (stored h b).map (fun l => l.take (l.length - o.getSize) ++ x) := by
  obtain ⟨d, hd, hb⟩ := hs.fits b (by simp)
  obtain ⟨e, he, hfits⟩ := hs.fits o (List.mem_cons_of_mem b ho)
  obtain ⟨l, hl, hllen⟩ := length_stored hs (List.mem_cons_of_mem b ho)
  have hxl : x = l.take o.head ++ (List.replicate o.zeroes 0 ++ l.drop o.head) := by
    rw [hfits.content_eq he, hl, Option.map_some] at hx
    cases hx
    exact List.append_assoc _ _ _
  have hklen : (l.take o.head).length = o.head := by
    rw [List.length_take, hllen]
    exact Nat.min_eq_left (Nat.le_add_right _ _)
  have hzlen : (List.replicate o.zeroes (0 : UInt8)).length = o.zeroes := List.length_replicate
  have htlen : (l.drop o.head).length = o.tail := by
    rw [List.length_drop, hllen, Nat.add_sub_cancel_left]
  have hsize := hfits.getSize_eq
  have hxlen : x.length = o.getSize := by
    rw [hxl, List.length_append, List.length_append, hklen, hzlen, htlen, hsize, Nat.add_assoc]
  have hstop := hb.stop_eq
  have hreal : b.realEnd = b.start + (b.head + b.tail) := rfl
  -- the offset `p` in the bytes, `k` without the bytes before the buffer
  obtain ⟨k, hk⟩ : ∃ k, b.head + b.tail = k + o.getSize :=
    ⟨_, (Nat.sub_add_cancel (htail.trans (Nat.le_add_left _ _))).symm⟩
  obtain ⟨p, hp⟩ : ∃ p, p = b.start + k := ⟨_, rfl⟩
  have hpreal : p + o.getSize = b.realEnd := by omega
  have hcur : (b.endIter.prev o.getSize).current = p := by
    show sub32 b.stop o.getSize = p
    rw [sub32_of_le (by omega) hb.stop_lt, hstop, hz, Nat.add_zero, ← hpreal, Nat.add_sub_cancel]
  have hin : p + o.getSize ≤ d.bytes.length := hpreal ▸ hb.inside
  have hlt : p + o.getSize < 2 ^ 32 := by
    have := hb.stop_lt
    omega
  -- the three rounds
  have hc : Copies ⟨h, b.endIter.prev o.getSize, o.beginIter, o.getSize⟩ b o rest d.bytes := by
    refine ⟨hs, rfl, ⟨d, hd, rfl⟩, hcur ▸ hin, hcur ▸ hlt, fun y hy hshare => ?_, rfl, rfl, rfl, rfl⟩
    have := hfree y hy hshare
    rw [hcur]
    omega
  obtain ⟨c₁, hput₁, hc₁, hkeep₁, hdst₁, hsrc₁, hsize₁⟩ :=
    hc.put (x := l.take o.head) (by rw [hklen, hsize, Nat.add_assoc]; exact Nat.le_add_right _ _)
  have hfront := hc.front_eq ho hl rfl (by rw [hsize, Nat.add_assoc]; exact Nat.le_add_right _ _)
  rw [hput₁] at hfront
  have hl₁ : stored c₁.heap o = some l := (hkeep₁ o ho).trans hl
  have hsrc₁' : c₁.start.current = o.zeroAreaStart := by
    rw [hsrc₁, hklen]
    exact hfits.add32_head
  rw [hklen] at hdst₁ hsize₁
  dsimp only at hdst₁ hsize₁
  have hleft₁ : c₁.size = o.zeroes + o.tail := by
    rw [hsize, Nat.add_assoc, Nat.add_comm c₁.size] at hsize₁
    exact Nat.add_left_cancel hsize₁
  obtain ⟨c₂, hput₂, hc₂, hkeep₂, hdst₂, hsrc₂, hsize₂⟩ :=
    hc₁.put (x := List.replicate o.zeroes 0) (by rw [hzlen, hleft₁]; exact Nat.le_add_right _ _)
  have hzero' := hc₁.zeroes_eq ho hsrc₁' (by rw [hleft₁]; exact Nat.le_add_right _ _)
  rw [hput₂] at hzero'
  have hl₂ : stored c₂.heap o = some l := (hkeep₂ o ho).trans hl₁
  have hsrc₂' : c₂.start.current = o.zeroAreaEnd := by
    rw [hsrc₂, hsrc₁', hzlen]
    exact hfits.add32_zeroes
  rw [hzlen] at hdst₂ hsize₂
  have hleft₂ : c₂.size = o.tail := by
    rw [hleft₁, Nat.add_comm c₂.size] at hsize₂
    exact Nat.add_left_cancel hsize₂
  obtain ⟨c₃, hput₃, hc₃, hkeep₃, -⟩ := hc₂.put (x := l.drop o.head) (by rw [htlen, hleft₂])
  have hback := hc₂.back_eq ho hl₂ hsrc₂' hleft₂
  rw [hput₃] at hback
  refine ⟨c₃.heap, ?_, hc₃.sound, (hkeep₁.trans hkeep₂).trans hkeep₃, ?_⟩
  · have hwhole : sub32 o.endIter.current o.beginIter.current = o.getSize := rfl
    rw [Iterator.writeRange, hwhole, hfront, Option.bind_eq_bind, Option.bind_some, hzero',
      Option.bind_some, hback, Option.bind_some]
  · obtain ⟨d', hd', hbytes⟩ := hc₃.block
    -- together they put down the bytes of the other buffer
    have hjoin : d'.bytes = overwrite d.bytes p x := by
      have hthree : overwrite (overwrite (overwrite d.bytes p (l.take o.head))
          (p + (l.take o.head).length) (List.replicate o.zeroes 0))
          (p + (l.take o.head).length + (List.replicate o.zeroes (0 : UInt8)).length)
          (l.drop o.head) = _ :=
        overwrite_append₃ (by rw [hklen, hzlen, htlen, ← hsize]; exact hin)
      rw [hklen, hzlen, ← hxl] at hthree
      rw [hbytes, hdst₂, hdst₁, hcur, hthree]
    rw [stored_eq hd', stored_eq hd, Option.map_some, hjoin, hb.length_slice, hk,
      Nat.add_sub_cancel, take_slice (Nat.le_add_right _ _), ← hxlen, slice_append,
      slice_overwrite_below (by omega) (by omega), ← hp, slice_overwrite_self (by omega)]

/-- Writing nothing changes nothing. -/
theorem put_nil {c : Iterator.Copying} (hs : Sound c.heap (b :: rest)) (hdst : c.dst.data = b.data)
    (hsize : c.size = 0) :
    ∃ c', c.put [] = some c' ∧ c'.heap = c.heap ∧ c'.dst.data = b.data ∧ c'.size = 0 ∧
      c'.start.data = c.start.data := by
  obtain ⟨d, hd, -⟩ := hs.fits b (by simp)
  have hpoke : poke d.bytes c.dst.current [] = some d.bytes := by
    rw [poke, if_pos (.inl rfl), overwrite_nil]
  have hstore : c.heap.store b.data c.dst.current [] = some c.heap := by
    rw [Heap.store, hd, Option.bind_eq_bind, Option.bind_some, hpoke, Option.bind_eq_bind,
      Option.bind_some]
    exact congrArg some (Heap.setData_self hd)
  refine ⟨⟨c.heap, c.dst.next 0, c.start.next 0, c.size - 0⟩, ?_, rfl, hdst, hsize, rfl⟩
  rw [Iterator.Copying.put, hdst, hstore, Option.bind_eq_bind, Option.bind_some]
  rfl

/-- `Write` over an empty range, wherever its destination is. -/
theorem writeRange_nil (hs : Sound h (b :: rest)) (ho : o ∈ rest) {it start stop : Iterator}
    (hit : it.data = b.data) (hstart : start.data = o.data)
    (hempty : sub32 stop.current start.current = 0) : it.writeRange h start stop = some h := by
  have hload : ∀ a, h.load o.data a 0 = some [] := by
    intro a
    obtain ⟨e, he, -⟩ := hs.fits o (List.mem_cons_of_mem b ho)
    rw [Heap.load, he, Option.bind_eq_bind, Option.bind_some, peek, if_pos (.inl rfl), slice_zero]
  -- every round keeps the heap and has nothing to copy
  have hround : ∀ c : Iterator.Copying, c.heap = h → c.dst.data = b.data → c.size = 0 →
      c.start.data = o.data → ∃ c', c.put [] = some c' ∧ c'.heap = h ∧ c'.dst.data = b.data ∧
        c'.size = 0 ∧ c'.start.data = o.data := by
    intro c hh hdst hsize hdata
    obtain ⟨c', hput, hheap, hdst', hsize', hdata'⟩ := put_nil (c := c) (hh ▸ hs) hdst hsize
    exact ⟨c', hput, hheap.trans hh, hdst', hsize', hdata'.trans hdata⟩
  have hfront : ∀ c : Iterator.Copying, c.heap = h → c.dst.data = b.data → c.size = 0 →
      c.start.data = o.data → ∃ c', c.front = some c' ∧ c'.heap = h ∧ c'.dst.data = b.data ∧
        c'.size = 0 ∧ c'.start.data = o.data := by
    intro c hh hdst hsize hdata
    unfold Iterator.Copying.front
    split_ifs
    · rw [hsize, Nat.zero_min, hh, hdata]
      dsimp only
      rw [hload, Option.bind_eq_bind, Option.bind_some]
      exact hround c hh hdst hsize hdata
    · exact ⟨c, rfl, hh, hdst, hsize, hdata⟩
  have hzeroes : ∀ c : Iterator.Copying, c.heap = h → c.dst.data = b.data → c.size = 0 →
      c.start.data = o.data → ∃ c', c.zeroes = some c' ∧ c'.heap = h ∧ c'.dst.data = b.data ∧
        c'.size = 0 ∧ c'.start.data = o.data := by
    intro c hh hdst hsize hdata
    unfold Iterator.Copying.zeroes
    split_ifs
    · rw [hsize, Nat.zero_min, List.replicate_zero]
      exact hround c hh hdst hsize hdata
    · exact ⟨c, rfl, hh, hdst, hsize, hdata⟩
  obtain ⟨c₁, hc₁, hh₁, hdst₁, hsize₁, hdata₁⟩ := hfront ⟨h, it, start, 0⟩ rfl hit rfl hstart
  obtain ⟨c₂, hc₂, hh₂, hdst₂, hsize₂, hdata₂⟩ := hzeroes c₁ hh₁ hdst₁ hsize₁ hdata₁
  obtain ⟨c₃, hc₃, hh₃, -⟩ := hround c₂ hh₂ hdst₂ hsize₂ hdata₂
  have hback : c₂.back = some c₃ := by
    rw [Iterator.Copying.back, hsize₂, Nat.zero_min, hh₂, hdata₂, hload, Option.bind_eq_bind,
      Option.bind_some, hc₃]
  rw [Iterator.writeRange, hempty, hc₁, Option.bind_eq_bind, Option.bind_some, hc₂,
    Option.bind_some, hback, Option.bind_some, hh₃]

/-! ## `AddAtEnd` of a buffer -/

/-- The zero area of the buffer in front grows by that of the appended one. -/
theorem joinZeroes_spec (hs : Sound h (b :: rest)) (ho : o ∈ rest) (hd : h.datas b.data = some d)
    (hjoin : JoinsZeroes d b o) (htail : o.tail = 0) (hn : b.stop + o.getSize < 2 ^ 32) :
    ∃ h' b', b.addBufferAtEnd h o = some (h', b') ∧ Sound h' (b' :: rest) ∧ Keeps h h' rest ∧
      content h' b' = (content h b).bind fun l => (content h o).map (l ++ ·) := by
  obtain ⟨d₀, hd₀, hb⟩ := hs.fits b (by simp)
  rw [hd] at hd₀
  cases hd₀
  obtain ⟨e, he, hfits⟩ := hs.fits o (List.mem_cons_of_mem b ho)
  obtain ⟨hcount, hclose, hclean, hohead, hopos⟩ := id hjoin
  have hosize := hfits.getSize_eq
  have hohead' : o.head = 0 := by
    unfold head
    omega
  have hstop := hb.stop_eq
  have hin := hb.inside
  obtain ⟨h₁, h₂, h₃, h₄, hds, hde, -⟩ := id hb
  have hadd : add32 b.stop (o.zeroAreaEnd - o.zeroAreaStart) = b.stop + o.zeroes :=
    Nat.mod_eq_of_lt (by show b.stop + o.zeroes < _; omega)
  -- no other buffer lies on the block
  have halone : ∀ c ∈ rest, c.data ≠ b.data := by
    intro c hc hshare
    have := hs.one_lt_count hd hc hshare
    omega
  generalize hzs : (if b.zeroAreaStart = b.zeroAreaEnd then b.stop else b.zeroAreaStart) = zs
  have hzs' : b.start ≤ zs ∧ zs ≤ b.stop ∧ zs - b.start = b.head + b.tail ∧
      b.stop - zs = b.zeroes := by
    have hhead := hb.start_add_head
    have hzeroes := hb.zeroAreaStart_add_zeroes
    have htail := hb.zeroAreaEnd_add_tail
    clear hcount hin hadd h₄ hds hde
    split_ifs at hzs
    · omega
    · omega
  let b' : Buffer := { b with
    zeroAreaStart := zs
    zeroAreaEnd := b.stop + o.zeroes
    stop := b.stop + o.zeroes }
  let d' : BufferData := { d with dirtyEnd := b.stop + o.zeroes }
  have hparts : Parts b' (b.head + b.tail) (b.zeroes + o.zeroes) 0 := by
    refine ⟨hzs'.2.2.1, ?_, Nat.sub_self _⟩
    show b.stop + o.zeroes - zs = b.zeroes + o.zeroes
    omega
  have hreal : b'.realEnd = b.realEnd := by
    unfold realEnd
    rw [hparts.1, hparts.2.2]
    rfl
  have hb' : Fits b' d' := by
    refine ⟨hzs'.1, ?_, le_rfl, ?_, hds, le_rfl, ?_⟩
    · show zs ≤ b.stop + o.zeroes
      omega
    · show b.stop + o.zeroes < 2 ^ 32
      omega
    · rw [hreal]
      exact hin
  have hs' : Sound (h.setData b.data d') (b' :: rest) :=
    hs.setData hd d' rfl rfl rfl hb' fun c hc hshare => absurd hshare (halone c hc)
  have hself : (h.setData b.data d').datas b'.data = some d' := Function.update_self _ _ _
  have hkeep' : Keeps h (h.setData b.data d') rest := fun c _ => stored_setData hd d' rfl c
  have hroom : FitsAtEnd (h.setData b.data d') b' 0 :=
    hb'.fitsAtEnd (by show b.stop + o.zeroes + 0 < 2 ^ 32; omega)
  obtain ⟨h'', b'', new, hend, hs'', hkeep'', hnew, hstored, hparts'', -, -⟩ :=
    addAtEnd_spec hs' hroom
  have hwrite : (b''.endIter.prev 0).writeRange h'' (o.endIter.prev 0) o.endIter = some h'' := by
    refine writeRange_nil hs'' ho rfl rfl ?_
    have hlt := hfits.stop_lt
    show sub32 o.stop (sub32 o.stop 0) = 0
    rw [sub32_of_le (Nat.zero_le _) hlt, Nat.sub_zero, sub32_of_le le_rfl hlt, Nat.sub_self]
  refine ⟨h'', b'', ?_, hs'', hkeep'.trans hkeep'', ?_⟩
  · have htdef : o.stop - o.zeroAreaEnd = 0 := htail
    rw [addBufferAtEnd, hd, Option.bind_eq_bind, Option.bind_some, if_pos hjoin]
    dsimp only
    rw [hadd, hzs, htdef]
    show (b'.addAtEnd (h.setData b.data d') 0 >>= _) = _
    rw [hend, Option.bind_eq_bind, Option.bind_some]
    dsimp only
    rw [hwrite, Option.bind_eq_bind, Option.bind_some]
  · obtain ⟨l, hl, hllen⟩ := length_stored hs (b := b) (by simp)
    obtain ⟨lo, hlo, hlolen⟩ := length_stored hs (List.mem_cons_of_mem b ho)
    have hlo' : lo = [] := List.eq_nil_of_length_eq_zero (by omega)
    have hst' : stored (h.setData b.data d') b' = some l := by
      rw [stored_eq hd] at hl
      rw [stored_eq hself, hparts.1, hparts.2.2, ← hl]
      rfl
    have hnew' : new = [] := List.eq_nil_of_length_eq_zero hnew
    rw [hs''.content_eq (by simp), hs.content_eq (by simp),
      hs.content_eq (List.mem_cons_of_mem b ho), hstored, hst', hl, hlo, hlo', hnew',
      hparts''.1, hparts''.2.1, hparts.1, hparts.2.1, hohead']
    simp only [Option.map_some, Option.bind_some, List.append_nil]
    refine congrArg some ?_
    have hzero : spread 0 o.zeroes (0 : UInt8) [] = List.replicate o.zeroes 0 := by
      rw [spread, List.take_nil, List.drop_nil, List.append_nil, List.nil_append]
    rw [hzero, ← hllen, spread_at_end]
    -- the gap was at the end, or there was none
    by_cases hgap : b.zeroes = 0
    · rw [hgap, spread_zero, spread_zero]
    · have hbtail : b.tail = 0 := by
        unfold tail
        unfold zeroes at hgap
        omega
      rw [hllen, hbtail, Nat.add_zero]

/-- The bytes of a buffer without a zero area make room for those of the appended one. -/
theorem appendBytes_spec (hs : Sound h (b :: rest)) (ho : o ∈ rest) (hz : b.zeroes = 0)
    (hn : FitsAtEnd h b o.getSize) :
    ∃ h₁ h' b', b.addAtEnd h o.getSize = some (h₁, b') ∧
      (b'.endIter.prev o.getSize).writeRange h₁ o.beginIter o.endIter = some h' ∧
      Sound h' (b' :: rest) ∧ Keeps h h' rest ∧
      content h' b' = (content h b).bind fun l => (content h o).map (l ++ ·) := by
  obtain ⟨h₁, b', new, hadd, hs₁, hkeep₁, hnew, hstored, hparts, -, hfree⟩ := addAtEnd_spec hs hn
  obtain ⟨lo, hlo, -⟩ := length_stored hs₁ (List.mem_cons_of_mem b' ho)
  have hx := hs₁.content_eq (List.mem_cons_of_mem b' ho)
  rw [hlo, Option.map_some] at hx
  have hz' : b'.zeroes = 0 := hparts.2.1.trans hz
  obtain ⟨h', hwrite, hs', hkeep', hout⟩ :=
    writeRange_spec hs₁ ho hz' (by rw [hparts.2.2]; omega) hfree hx
  refine ⟨h₁, h', b', hadd, hwrite, hs', hkeep₁.trans hkeep', ?_⟩
  obtain ⟨l, hl, hllen⟩ := length_stored hs (b := b) (by simp)
  have hox : content h o = some (spread o.head o.zeroes 0 lo) := by
    rw [hs.content_eq (List.mem_cons_of_mem b ho), ← hkeep₁ o ho, hlo, Option.map_some]
  rw [hs'.content_eq (by simp), hs.content_eq (by simp), hox, hout, hstored, hl, hz, hz']
  simp only [Option.map_some, Option.bind_some, spread_zero]
  rw [List.length_append, hnew, Nat.add_sub_cancel, List.take_left]

/-- Without a zero area the full copy is a copy: assigned and destroyed, it leaves the blocks. -/
theorem createFullCopy_plain (hd : h.datas b.data = some d) (hz : b.zeroes = 0)
    (hcount : 0 < d.count) :
    ∃ h₁ h₂ t r, b.createFullCopy h = some (h₁, t) ∧ b.assign h₁ t = some (h₂, t) ∧
      t.destroy h₂ = some { h with recommendedStart := r } ∧ SameView t b := by
  let t : Buffer := { b with maxZeroAreaStart := b.zeroAreaStart }
  let up : BufferData := { d with count := d.count + 1 }
  have hself : ∀ x, Function.update h.datas b.data (some x) b.data = some x :=
    fun x => Function.update_self _ _ _
  have hcopy : b.createFullCopy h = some (h.setData b.data up, t) := by
    have hz' : ¬ b.zeroAreaEnd - b.zeroAreaStart ≠ 0 := not_not.mpr hz
    rw [createFullCopy, if_neg hz', copy, Heap.acquire, hd, Option.bind_eq_bind,
      Option.bind_eq_bind, Option.bind_some, Option.bind_some]
  have hassign : b.assign (h.setData b.data up) t = some ({ h.setData b.data up with
      recommendedStart := max h.recommendedStart b.maxZeroAreaStart }, t) := by
    rw [assign, if_pos rfl, Option.bind_eq_bind, Option.bind_some]
    rfl
  refine ⟨_, _, t, max (max h.recommendedStart b.maxZeroAreaStart) b.zeroAreaStart, hcopy, hassign,
    ?_, ⟨rfl, rfl, rfl, rfl, rfl⟩⟩
  have hdown : { up with count := up.count - 1 } = d := rfl
  have hne : ¬ up.count - 1 = 0 := by
    show ¬ d.count + 1 - 1 = 0
    omega
  rw [destroy, Heap.release]
  dsimp only [Heap.setData]
  rw [hself, Option.bind_eq_bind, Option.bind_some, if_neg hne, hdown]
  have hback : Function.update (Function.update h.datas b.data (some up)) b.data (some d) =
      h.datas := by
    rw [Function.update_idem, ← hd, Function.update_eq_self]
  exact congrArg (fun datas => some ({ h with
    datas := datas
    recommendedStart := max (max h.recommendedStart b.maxZeroAreaStart) b.zeroAreaStart } : Heap))
    hback

/-- When `AddAtEnd` of a buffer is right: no sum wraps, and where zero areas are joined nothing
comes after the appended one. -/
def AppendFits (h : Heap) (b o : Buffer) : Prop :=
  ∀ d, h.datas b.data = some d →
    if JoinsZeroes d b o then o.tail = 0 ∧ b.stop + o.getSize < 2 ^ 32
    else if b.zeroes = 0 then FitsAtEnd h b o.getSize
    else initialStart h + b.getSize + o.getSize < 2 ^ 32

theorem addBufferAtEnd_spec (hs : Sound h (b :: rest)) (ho : o ∈ rest) (hn : AppendFits h b o) :
    ∃ h' b', b.addBufferAtEnd h o = some (h', b') ∧ Sound h' (b' :: rest) ∧ Keeps h h' rest ∧
      content h' b' = (content h b).bind fun l => (content h o).map (l ++ ·) := by
  obtain ⟨d, hd, hb⟩ := hs.fits b (by simp)
  have hn := hn d hd
  split_ifs at hn with hjoin hz
  · exact joinZeroes_spec hs ho hd hjoin hn.1 hn.2
  · -- the copy refers to the same bytes
    have hcount : 0 < d.count := by
      rw [hs.counted _ d hd, List.countP_cons_of_pos (by simp)]
      omega
    obtain ⟨h₁, h₂, t, r, hcopy, hassign, hdestroy, hview⟩ := createFullCopy_plain hd hz hcount
    obtain ⟨hdata, hstart, hzs, hze, hstop⟩ := id hview
    have htz : t.zeroes = 0 := by
      unfold zeroes
      rw [hzs, hze]
      exact hz
    have hparts : t.head = b.head ∧ t.tail = b.tail ∧ t.realEnd = b.realEnd := by
      unfold realEnd head tail
      rw [hstart, hzs, hze, hstop]
      exact ⟨rfl, rfl, rfl⟩
    have ht : Fits t d := by
      refine ⟨?_, ?_, ?_, ?_, ?_, ?_, ?_⟩
      · rw [hstart, hzs]
        exact hb.start_le
      · rw [hzs, hze]
        exact hb.zero_le
      · rw [hze, hstop]
        exact hb.le_stop
      · rw [hstop]
        exact hb.stop_lt
      · rw [hstart]
        exact hb.dirtyStart_le
      · rw [hstop]
        exact hb.le_dirtyEnd
      · rw [hparts.2.2]
        exact hb.inside
    have hs₃ : Sound { h with recommendedStart := r } (t :: rest) := by
      refine (hs.narrow hdata hd ht hparts.2.2.le ?_).recommend r
      rw [hstop]
      exact fun h => ⟨h, hparts.2.2⟩
    have hfits : FitsAtEnd { h with recommendedStart := r } t o.getSize := by
      intro d' hd'
      have hd'' : h.datas b.data = some d' := (congrArg h.datas hdata).symm.trans hd'
      have hroom := hn d' hd''
      have hiff : RoomAtEnd d' t o.getSize ↔ RoomAtEnd d' b o.getSize := by
        unfold RoomAtEnd getInternalEnd
        rw [hzs, hze, hstop]
      have hsizes : t.getSize = b.getSize := by
        unfold getSize
        rw [hstart, hstop]
      simp only [hiff, hstop, hsizes]
      exact hroom
    obtain ⟨h₄, h', b', hend, hwrite, hs', hkeep, hout⟩ := appendBytes_spec hs₃ ho htz hfits
    refine ⟨h', b', ?_, hs', hkeep, ?_⟩
    · rw [addBufferAtEnd, hd, Option.bind_eq_bind, Option.bind_some, if_neg hjoin, hcopy,
        Option.bind_eq_bind, Option.bind_some]
      dsimp only
      rw [hassign, Option.bind_eq_bind, Option.bind_some]
      dsimp only
      rw [hdestroy, Option.bind_some, hend, Option.bind_some]
      dsimp only
      rw [hwrite, Option.bind_some]
    · have hsame : content { h with recommendedStart := r } t = content h b := by
        have htd : ({ h with recommendedStart := r } : Heap).datas t.data = some d :=
          (congrArg h.datas hdata).trans hd
        rw [ht.content_eq htd, hb.content_eq hd, stored_eq htd, stored_eq hd, hparts.1,
          hparts.2.1, htz, hz, hstart]
      rw [hout, hsame]
      rfl
  · -- the copy has the zero area written out
    obtain ⟨h₁, t, hcopy, hs₁, hkeep₁, htz, htstop, hcontent⟩ :=
      createFullCopy_spec hs hz (by omega)
    obtain ⟨h₂, hassign, hs₂, hkeep₂⟩ :=
      assign_spec (hs₁.perm (List.Perm.swap b t rest)) (o := t) (by simp)
    obtain ⟨h₃, hdestroy, hs₃, hkeep₃⟩ := destroy_spec hs₂
    obtain ⟨dt, hdt, hfits⟩ := hs₃.fits t (by simp)
    obtain ⟨h₄, h', b', hend, hwrite, hs', hkeep, hout⟩ :=
      appendBytes_spec hs₃ ho htz (hfits.fitsAtEnd (by omega))
    have hkeep' : Keeps h h₃ rest := by
      intro c hc
      rw [hkeep₃ c (List.mem_cons_of_mem t hc), hkeep₂ c (List.mem_cons_of_mem t hc),
        hkeep₁ c (List.mem_cons_of_mem b hc)]
    refine ⟨h', b', ?_, hs', hkeep'.trans hkeep, ?_⟩
    · rw [addBufferAtEnd, hd, Option.bind_eq_bind, Option.bind_some, if_neg hjoin, hcopy,
        Option.bind_eq_bind, Option.bind_some]
      dsimp only
      rw [hassign, Option.bind_eq_bind, Option.bind_some]
      dsimp only
      rw [hdestroy, Option.bind_some, hend, Option.bind_some]
      dsimp only
      rw [hwrite, Option.bind_some]
    · have ht : content h₃ t = content h b := by
        rw [← hcontent, hs₃.content_eq (by simp), hs₁.content_eq (by simp), hkeep₃ t (by simp),
          hkeep₂ t (by simp)]
      have ho' : content h₃ o = content h o := by
        rw [hs₃.content_eq (List.mem_cons_of_mem t ho), hs.content_eq (List.mem_cons_of_mem b ho),
          hkeep' o ho]
      rw [hout, ht, ho']

end Buffer

end Ns3.Network
