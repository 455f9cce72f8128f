import Ns3.Network.Buffer
import Ns3.Lib.Run
import Mathlib.Data.List.Count
import Mathlib.Order.Nat

/-!
# Buffers as lists of bytes

`Sound` is the invariant of a heap and the buffers that are alive. A block
counts the buffers that refer to it, every buffer lies in the dirty area of its
block, and of the buffers that reach the end of the dirty area none stores its
bytes further on than another one. The last part is what makes writing behind
such a buffer safe, since the end of the dirty area counts the zero area and
the bytes in the block do not. Each operation has the operated buffer in front
of the others, whose bytes stay.
-/

namespace Ns3.Network

open Ns3.Lib

namespace Buffer

/-- The bytes before the zero area, in it and after it. -/
def head (b : Buffer) : ℕ := b.zeroAreaStart - b.start

def zeroes (b : Buffer) : ℕ := b.zeroAreaEnd - b.zeroAreaStart

def tail (b : Buffer) : ℕ := b.stop - b.zeroAreaEnd

def realEnd (b : Buffer) : ℕ := b.start + (b.head + b.tail)

/-- The bytes the block holds of the buffer. -/
def stored (h : Heap) (b : Buffer) : Option (List UInt8) :=
  (h.datas b.data).map fun d => slice d.bytes b.start (b.head + b.tail)

/-- The bytes of the buffer. -/
def content (h : Heap) (b : Buffer) : Option (List UInt8) := b.copyData h b.getSize

/-- What `CheckInternalState` asks for. -/
structure Fits (b : Buffer) (d : BufferData) : Prop where
  start_le : b.start ≤ b.zeroAreaStart
  zero_le : b.zeroAreaStart ≤ b.zeroAreaEnd
  le_stop : b.zeroAreaEnd ≤ b.stop
  stop_lt : b.stop < 2 ^ 32
  dirtyStart_le : d.dirtyStart ≤ b.start
  le_dirtyEnd : b.stop ≤ d.dirtyEnd
  inside : b.realEnd ≤ d.bytes.length

end Buffer

open Buffer

structure Sound (h : Heap) (live : List Buffer) : Prop where
  bounded : ∀ a, h.brk ≤ a → h.datas a = none
  fits : ∀ b ∈ live, ∃ d, h.datas b.data = some d ∧ Fits b d
  counted : ∀ a d, h.datas a = some d → d.count = live.countP fun b => b.data = a
  small : ∀ a d, h.datas a = some d → d.bytes.length < 2 ^ 32
  freeSmall : ∀ d ∈ h.freeList, d.bytes.length < 2 ^ 32
  ends : ∀ b ∈ live, ∀ c ∈ live, c.data = b.data → ∀ d, h.datas b.data = some d →
    b.stop = d.dirtyEnd → c.realEnd ≤ b.realEnd

variable {h h' : Heap} {live rest : List Buffer} {b b' c o : Buffer} {d d' : BufferData}

/-! ## Sizes and bytes -/

namespace Buffer

theorem Fits.start_add_head (hb : Fits b d) : b.start + b.head = b.zeroAreaStart :=
  Nat.add_sub_of_le hb.start_le

theorem Fits.zeroAreaStart_add_zeroes (hb : Fits b d) :
    b.zeroAreaStart + b.zeroes = b.zeroAreaEnd :=
  Nat.add_sub_of_le hb.zero_le

theorem Fits.zeroAreaEnd_add_tail (hb : Fits b d) : b.zeroAreaEnd + b.tail = b.stop :=
  Nat.add_sub_of_le hb.le_stop

theorem Fits.add32_head (hb : Fits b d) : add32 b.start b.head = b.zeroAreaStart := by
  rw [add32, hb.start_add_head]
  exact Nat.mod_eq_of_lt ((hb.zero_le.trans hb.le_stop).trans_lt hb.stop_lt)

theorem Fits.add32_zeroes (hb : Fits b d) : add32 b.zeroAreaStart b.zeroes = b.zeroAreaEnd := by
  rw [add32, hb.zeroAreaStart_add_zeroes]
  exact Nat.mod_eq_of_lt (hb.le_stop.trans_lt hb.stop_lt)

theorem Fits.getSize_eq (hb : Fits b d) : b.getSize = b.head + b.zeroes + b.tail := by
  obtain ⟨h₁, h₂, h₃, h₄, -, -, -⟩ := hb
  rw [getSize, sub32_of_le (by omega) h₄]
  unfold head zeroes tail
  omega

theorem Fits.getInternalSize_eq (hb : Fits b d) : b.getInternalSize = b.head + b.tail := by
  obtain ⟨h₁, h₂, h₃, h₄, -, -, -⟩ := hb
  unfold getInternalSize head tail sub32 add32
  omega

theorem Fits.getInternalEnd_eq (hb : Fits b d) : b.getInternalEnd = b.realEnd := by
  obtain ⟨h₁, h₂, h₃, h₄, -, -, -⟩ := hb
  unfold getInternalEnd realEnd head tail sub32
  omega

theorem Fits.stop_eq (hb : Fits b d) : b.stop = b.realEnd + b.zeroes := by
  obtain ⟨h₁, h₂, h₃, -, -, -, -⟩ := hb
  unfold realEnd head tail zeroes
  omega

theorem Fits.length_slice (hb : Fits b d) :
    (slice d.bytes b.start (b.head + b.tail)).length = b.head + b.tail :=
  Lib.length_slice hb.inside

theorem stored_eq (hd : h.datas b.data = some d) :
    stored h b = some (slice d.bytes b.start (b.head + b.tail)) := by
  rw [stored, hd, Option.map_some]

theorem stored_congr {h' : Heap} (hdatas : h'.datas b.data = h.datas b.data) :
    stored h' b = stored h b := by
  rw [stored, stored, hdatas]

/-- Only the bytes of a block are stored. -/
theorem stored_setData (hd : h.datas a = some d) (d' : BufferData) (hbytes : d'.bytes = d.bytes)
    (b : Buffer) : stored (h.setData a d') b = stored h b := by
  by_cases hb : b.data = a
  · subst hb
    rw [stored_eq (Function.update_self _ _ _), stored_eq hd, hbytes]
  · exact stored_congr (Function.update_of_ne hb _ _)

/-- What is read of a buffer is what the block holds of it, with the zero area in between. -/
theorem Fits.content_eq (hb : Fits b d) (hd : h.datas b.data = some d) :
    content h b = (stored h b).map (spread b.head b.zeroes 0) := by
  have hsize := hb.getSize_eq
  have hin := hb.inside
  unfold realEnd at hin
  have hzs : b.zeroAreaStart = b.start + b.head := by
    have := hb.start_le
    unfold head
    omega
  have hfront : h.load b.data b.start b.head = some (slice d.bytes b.start b.head) := by
    unfold Heap.load
    simp only [hd, Option.bind_eq_bind, Option.bind_some]
    exact peek_eq (by omega)
  have hback : h.load b.data b.zeroAreaStart b.tail =
      some (slice d.bytes (b.start + b.head) b.tail) := by
    unfold Heap.load
    simp only [hd, Option.bind_eq_bind, Option.bind_some, hzs]
    exact peek_eq (by omega)
  have hn : min (b.zeroAreaStart - b.start) b.getSize = b.head := by
    have : b.zeroAreaStart - b.start = b.head := rfl
    omega
  have hz : min (b.zeroAreaEnd - b.zeroAreaStart) (b.getSize - b.head) = b.zeroes := by
    have : b.zeroAreaEnd - b.zeroAreaStart = b.zeroes := rfl
    omega
  have ht : min (b.stop - b.zeroAreaEnd) (b.getSize - b.head - b.zeroes) = b.tail := by
    have : b.stop - b.zeroAreaEnd = b.tail := rfl
    omega
  unfold content copyData
  simp only [hn, hz, ht, hfront, hback, Option.bind_eq_bind, Option.bind_some, stored_eq hd,
    Option.map_some, spread]
  rw [take_slice (by omega), drop_slice, Nat.add_sub_cancel_left]

end Buffer

/-! ## The heap -/

namespace Heap

theorem takeFit_spec (n : ℕ) (fs : List BufferData) :
    (∀ d ∈ (takeFit n fs).1, d ∈ fs ∧ n ≤ d.bytes.length) ∧ ∀ d ∈ (takeFit n fs).2, d ∈ fs := by
  induction fs with
  | nil => simp [takeFit]
  | cons data rest ih =>
    rw [takeFit]
    split_ifs with hfit
    · refine ⟨?_, fun d hd => List.mem_cons_of_mem data hd⟩
      intro d hd
      cases hd
      exact ⟨by simp, hfit⟩
    · refine ⟨fun d hd => ?_, fun d hd => List.mem_cons_of_mem data (ih.2 d hd)⟩
      exact ⟨List.mem_cons_of_mem data (ih.1 d hd).1, (ih.1 d hd).2⟩

/-- `Create` gives a block that is large enough, at an address that was not in use. -/
theorem create_spec (h : Heap) {n : ℕ} (hn : n < 2 ^ 32)
    (hfree : ∀ d ∈ h.freeList, d.bytes.length < 2 ^ 32) :
    ∃ d free, h.create n = (h.brk, { h with
        datas := Function.update h.datas h.brk (some d)
        brk := h.brk + 1
        freeList := free }) ∧
      d.count = 1 ∧ n ≤ d.bytes.length ∧ d.bytes.length < 2 ^ 32 ∧
      ∀ d ∈ free, d.bytes.length < 2 ^ 32 := by
  obtain ⟨hfit, hrest⟩ := takeFit_spec n h.freeList
  unfold create
  cases hout : takeFit n h.freeList with
  | mk found free =>
    rw [hout] at hfit hrest
    have hfree' : ∀ d ∈ free, d.bytes.length < 2 ^ 32 := fun d hd => hfree d (hrest d hd)
    cases found with
    | some data =>
      obtain ⟨hmem, hle⟩ := hfit data rfl
      exact ⟨{ data with count := 1 }, free, rfl, rfl, hle, hfree data hmem, hfree'⟩
    | none =>
      refine ⟨_, free, rfl, rfl, ?_, ?_, hfree'⟩
      · simp only [List.length_map, List.length_range]
        split_ifs <;> omega
      · simp only [List.length_map, List.length_range]
        split_ifs <;> omega

theorem setData_setData (h : Heap) (a : ℕ) (d d' : BufferData) :
    (h.setData a d).setData a d' = h.setData a d' := by
  unfold setData
  simp only [Function.update_idem]

theorem setData_self (hd : h.datas a = some d) : h.setData a d = h := by
  unfold setData
  rw [← hd, Function.update_eq_self]

/-- The release of one block leaves what is written into another. -/
theorem release_setData {a a' : ℕ} (hne : a ≠ a') (h : Heap) (d : BufferData) :
    (h.setData a d).release a' = (h.release a').map (·.setData a d) := by
  unfold release setData
  simp only [Function.update_of_ne hne.symm]
  cases hd : h.datas a' with
  | none => rfl
  | some d' =>
    simp only [Option.bind_eq_bind, Option.bind_some]
    split_ifs
    · simp only [recycle, Option.map_some, Function.update_comm hne.symm]
    · simp only [Option.map_some, Function.update_comm hne.symm]

end Heap

/-! ## Handles on the blocks -/

/-- Two buffers that refer to the same bytes in the same way. -/
def SameView (b o : Buffer) : Prop :=
  b.data = o.data ∧ b.start = o.start ∧ b.zeroAreaStart = o.zeroAreaStart ∧
    b.zeroAreaEnd = o.zeroAreaEnd ∧ b.stop = o.stop

namespace Sound

theorem perm (hs : Sound h live) {live' : List Buffer} (hp : live.Perm live') : Sound h live' where
  bounded := hs.bounded
  fits b hb := hs.fits b (hp.mem_iff.mpr hb)
  counted a d hd := by rw [hs.counted a d hd, hp.countP_eq]
  small := hs.small
  freeSmall := hs.freeSmall
  ends b hb c hc := hs.ends b (hp.mem_iff.mpr hb) c (hp.mem_iff.mpr hc)

theorem recommend (hs : Sound h live) (n : ℕ) : Sound { h with recommendedStart := n } live :=
  ⟨hs.bounded, hs.fits, hs.counted, hs.small, hs.freeSmall, hs.ends⟩

theorem fits_of (hs : Sound h live) (hc : c ∈ live) (hd : h.datas c.data = some d) : Fits c d := by
  obtain ⟨dc, hdc, hfits⟩ := hs.fits c hc
  rw [hd] at hdc
  cases hdc
  exact hfits

/-- No buffer is on the block that is handed out next. -/
theorem data_ne_brk (hs : Sound h live) (hc : c ∈ live) : c.data ≠ h.brk := by
  intro heq
  obtain ⟨dc, hdc, -⟩ := hs.fits c hc
  rw [heq, hs.bounded _ le_rfl] at hdc
  cases hdc

theorem content_eq (hs : Sound h live) (hb : b ∈ live) :
    content h b = (stored h b).map (spread b.head b.zeroes 0) := by
  obtain ⟨d, hd, hfits⟩ := hs.fits b hb
  exact hfits.content_eq hd

/-- Another buffer on a block counts. -/
theorem one_lt_count (hs : Sound h (b :: rest)) (hd : h.datas b.data = some d) (hc : c ∈ rest)
    (hdata : c.data = b.data) : 1 < d.count := by
  rw [hs.counted _ d hd, List.countP_cons_of_pos (by simp)]
  have : 0 < rest.countP fun c => c.data = b.data :=
    List.countP_pos_iff.mpr ⟨c, hc, by simpa using hdata⟩
  omega

/-- The block of the buffer in front is written, and the buffer itself changes. -/
theorem setData (hs : Sound h (b :: rest)) (hd : h.datas b.data = some d) (d' : BufferData)
    (hcount : d'.count = d.count) (hlen : d'.bytes.length = d.bytes.length)
    (hdata : b'.data = b.data) (hb' : Fits b' d')
    (hrest : ∀ c ∈ rest, c.data = b.data → Fits c d' ∧
      (b'.stop = d'.dirtyEnd → c.realEnd ≤ b'.realEnd) ∧
      (c.stop = d'.dirtyEnd → b'.realEnd ≤ c.realEnd ∧ c.stop = d.dirtyEnd)) :
    Sound (h.setData b.data d') (b' :: rest) := by
  have hother : ∀ {a : ℕ}, a ≠ b.data → (h.setData b.data d').datas a = h.datas a :=
    fun hne => Function.update_of_ne hne _ _
  have hself : (h.setData b.data d').datas b.data = some d' := Function.update_self _ _ _
  refine ⟨?_, ?_, ?_, ?_, hs.freeSmall, ?_⟩
  · intro a ha
    have hne : a ≠ b.data := by
      rintro rfl
      rw [hs.bounded _ ha] at hd
      cases hd
    rw [hother hne]
    exact hs.bounded a ha
  · intro c hc
    rcases List.mem_cons.mp hc with rfl | hc
    · exact ⟨d', by rw [hdata, hself], hb'⟩
    · by_cases hshare : c.data = b.data
      · exact ⟨d', by rw [hshare, hself], (hrest c hc hshare).1⟩
      · obtain ⟨dc, hdc, hfits⟩ := hs.fits c (List.mem_cons_of_mem b hc)
        exact ⟨dc, by rw [hother hshare, hdc], hfits⟩
  · intro a x hx
    have hcongr : (b' :: rest).countP (fun c => c.data = a) =
        (b :: rest).countP fun c => c.data = a := by
      rw [List.countP_cons, List.countP_cons, hdata]
    rw [hcongr]
    by_cases ha : a = b.data
    · subst ha
      rw [hself] at hx
      cases hx
      rw [hcount]
      exact hs.counted _ d hd
    · rw [hother ha] at hx
      exact hs.counted a x hx
  · intro a x hx
    by_cases ha : a = b.data
    · subst ha
      rw [hself] at hx
      cases hx
      rw [hlen]
      exact hs.small _ d hd
    · rw [hother ha] at hx
      exact hs.small a x hx
  · intro x hx y hy hxy dx hdx hstop
    rcases List.mem_cons.mp hx with rfl | hx' <;> rcases List.mem_cons.mp hy with rfl | hy'
    · exact le_rfl
    · rw [hdata, hself] at hdx
      cases hdx
      exact (hrest y hy' (hxy.trans hdata)).2.1 hstop
    · rw [← hxy, hdata, hself] at hdx
      cases hdx
      exact ((hrest x hx' (hxy.symm.trans hdata)).2.2 hstop).1
    · by_cases hshare : x.data = b.data
      · rw [hshare, hself] at hdx
        cases hdx
        have hold := ((hrest x hx' hshare).2.2 hstop).2
        exact hs.ends x (List.mem_cons_of_mem b hx') y (List.mem_cons_of_mem b hy') hxy d
          (by rw [hshare, hd]) hold
      · rw [hother hshare] at hdx
        exact hs.ends x (List.mem_cons_of_mem b hx') y (List.mem_cons_of_mem b hy') hxy dx hdx hstop

/-- The buffer changes and its block does not. -/
theorem narrow (hs : Sound h (b :: rest)) (hdata : b'.data = b.data)
    (hd : h.datas b.data = some d) (hb' : Fits b' d) (hreal : b'.realEnd ≤ b.realEnd)
    (hstop : b'.stop = d.dirtyEnd → b.stop = d.dirtyEnd ∧ b'.realEnd = b.realEnd) :
    Sound h (b' :: rest) := by
  have hset := hs.setData hd d rfl rfl hdata hb' ?_
  · rw [Heap.setData_self hd] at hset
    exact hset
  · intro c hc hshare
    have hdc : h.datas c.data = some d := by rw [hshare, hd]
    refine ⟨hs.fits_of (List.mem_cons_of_mem b hc) hdc, ?_, ?_⟩
    · intro hb'stop
      obtain ⟨hbstop, heq⟩ := hstop hb'stop
      rw [heq]
      exact hs.ends b (by simp) c (List.mem_cons_of_mem b hc) hshare d hd hbstop
    · intro hcstop
      refine ⟨hreal.trans ?_, hcstop⟩
      exact hs.ends c (List.mem_cons_of_mem b hc) b (by simp) hshare.symm d hdc hcstop

/-- A block that no buffer uses yet, with its first buffer. -/
theorem place (hs : Sound h live) (hdata : b.data = h.brk) (hb : Fits b d) (hcount : d.count = 1)
    (hsmall : d.bytes.length < 2 ^ 32) {free : List BufferData}
    (hfree : ∀ d ∈ free, d.bytes.length < 2 ^ 32) :
    Sound { h with
      datas := Function.update h.datas h.brk (some d)
      brk := h.brk + 1
      freeList := free } (b :: live) := by
  have hfresh : ∀ c ∈ live, c.data ≠ h.brk := fun c => hs.data_ne_brk
  refine ⟨?_, ?_, ?_, ?_, hfree, ?_⟩
  · intro a ha
    dsimp only at ha ⊢
    rw [Function.update_of_ne (by omega)]
    exact hs.bounded a (by omega)
  · intro c hc
    dsimp only
    rcases List.mem_cons.mp hc with rfl | hc
    · exact ⟨d, by rw [hdata, Function.update_self], hb⟩
    · obtain ⟨dc, hdc, hfits⟩ := hs.fits c hc
      exact ⟨dc, by rw [Function.update_of_ne (hfresh c hc), hdc], hfits⟩
  · intro a x hx
    dsimp only at hx
    by_cases ha : a = h.brk
    · subst ha
      rw [Function.update_self] at hx
      cases hx
      have hzero : live.countP (fun c => c.data = h.brk) = 0 := by
        rw [List.countP_eq_zero]
        intro c hc
        simpa using hfresh c hc
      rw [hcount, List.countP_cons_of_pos (by simpa using hdata), hzero]
    · rw [Function.update_of_ne ha] at hx
      rw [List.countP_cons_of_neg (by rw [hdata]; simpa using fun h => ha h.symm)]
      exact hs.counted a x hx
  · intro a x hx
    dsimp only at hx
    by_cases ha : a = h.brk
    · subst ha
      rw [Function.update_self] at hx
      cases hx
      exact hsmall
    · rw [Function.update_of_ne ha] at hx
      exact hs.small a x hx
  · intro x hx y hy hxy dx hdx hstop
    dsimp only at hdx
    rcases List.mem_cons.mp hx with rfl | hx' <;> rcases List.mem_cons.mp hy with rfl | hy'
    · exact le_rfl
    · exact absurd (hxy.trans hdata) (hfresh y hy')
    · exact absurd (hxy.symm.trans hdata) (hfresh x hx')
    · rw [Function.update_of_ne (hfresh x hx')] at hdx
      exact hs.ends x hx' y hy' hxy dx hdx hstop

/-- The buffer in front lets go of its block. -/
theorem release (hs : Sound h (b :: rest)) :
    ∃ h', h.release b.data = some h' ∧ Sound h' rest ∧ (∀ c ∈ rest, stored h' c = stored h c) ∧
      h'.brk = h.brk := by
  obtain ⟨d, hd, -⟩ := hs.fits b (by simp)
  have hcount := hs.counted _ d hd
  rw [List.countP_cons_of_pos (by simp)] at hcount
  have hshared : ∀ c ∈ rest, c.data = b.data → d.count - 1 ≠ 0 := by
    intro c hc hdata
    have := hs.one_lt_count hd hc hdata
    omega
  -- what is left of the block
  have hout : ∃ h', h.release b.data = some h' ∧
      (∀ a, h'.datas a = if a = b.data then
        (if d.count - 1 = 0 then none else some { d with count := d.count - 1 })
        else h.datas a) ∧ h'.brk = h.brk ∧ ∀ x ∈ h'.freeList, x.bytes.length < 2 ^ 32 := by
    unfold Heap.release
    simp only [hd, Option.bind_eq_bind, Option.bind_some]
    split_ifs with hzero
    · refine ⟨_, rfl, ?_, rfl, ?_⟩
      · intro a
        exact Function.update_apply _ _ _ _
      · intro x hx
        unfold Heap.recycle at hx
        dsimp only at hx
        split_ifs at hx
        · exact hs.freeSmall x hx
        · rcases List.mem_cons.mp hx with rfl | hx
          · exact hs.small _ d hd
          · exact hs.freeSmall x hx
    · refine ⟨_, rfl, ?_, rfl, hs.freeSmall⟩
      intro a
      exact Function.update_apply _ _ _ _
  obtain ⟨h', hrel, hdatas, hbrk, hfree⟩ := hout
  have hblock : ∀ c ∈ rest, ∀ x, h.datas c.data = some x →
      ∃ n, h'.datas c.data = some { x with count := n } := by
    intro c hc x hx
    rw [hdatas]
    by_cases hdata : c.data = b.data
    · rw [hdata, hd] at hx
      cases hx
      rw [if_pos hdata, if_neg (hshared c hc hdata)]
      exact ⟨_, rfl⟩
    · rw [if_neg hdata]
      exact ⟨x.count, hx⟩
  refine ⟨h', hrel, ⟨?_, ?_, ?_, ?_, hfree, ?_⟩, ?_, hbrk⟩
  · intro a ha
    rw [hbrk] at ha
    have hne : a ≠ b.data := by
      rintro rfl
      rw [hs.bounded _ ha] at hd
      cases hd
    rw [hdatas, if_neg hne]
    exact hs.bounded a ha
  · intro c hc
    obtain ⟨x, hx, hfits⟩ := hs.fits c (List.mem_cons_of_mem b hc)
    obtain ⟨n, hn⟩ := hblock c hc x hx
    exact ⟨_, hn, hfits.start_le, hfits.zero_le, hfits.le_stop, hfits.stop_lt,
      hfits.dirtyStart_le, hfits.le_dirtyEnd, hfits.inside⟩
  · intro a x hx
    rw [hdatas] at hx
    by_cases ha : a = b.data
    · subst ha
      rw [if_pos rfl] at hx
      split_ifs at hx
      cases hx
      dsimp only
      omega
    · rw [if_neg ha] at hx
      have hold := hs.counted a x hx
      rwa [List.countP_cons_of_neg (by simpa using fun h => ha h.symm)] at hold
  · intro a x hx
    rw [hdatas] at hx
    split_ifs at hx
    · cases hx
      exact hs.small _ d hd
    · exact hs.small a x hx
  · intro x hx y hy hxy dx hdx hstop
    obtain ⟨x₀, hx₀, -⟩ := hs.fits x (List.mem_cons_of_mem b hx)
    obtain ⟨n, hn⟩ := hblock x hx x₀ hx₀
    rw [hn] at hdx
    cases hdx
    exact hs.ends x (List.mem_cons_of_mem b hx) y (List.mem_cons_of_mem b hy) hxy x₀ hx₀ hstop
  · intro c hc
    obtain ⟨x, hx, -⟩ := hs.fits c (List.mem_cons_of_mem b hc)
    obtain ⟨n, hn⟩ := hblock c hc x hx
    rw [stored_eq hn, stored_eq hx]

/-- Another buffer takes hold of the bytes of one that is alive. -/
theorem acquire (hs : Sound h rest) (ho : o ∈ rest) (hview : SameView b o) :
    ∃ h', h.acquire o.data = some h' ∧ Sound h' (b :: rest) ∧
      ∀ c ∈ rest, stored h' c = stored h c := by
  obtain ⟨d, hd, hfits⟩ := hs.fits o ho
  obtain ⟨hdata, hstart, hzs, hze, hstop⟩ := hview
  have hreal : b.realEnd = o.realEnd := by
    unfold realEnd head tail
    rw [hstart, hzs, hze, hstop]
  have hout : h.acquire o.data = some (h.setData o.data { d with count := d.count + 1 }) := by
    unfold Heap.acquire
    simp only [hd, Option.bind_eq_bind, Option.bind_some]
  have hblock : ∀ a x, (h.setData o.data { d with count := d.count + 1 }).datas a = some x →
      ∃ x₀, h.datas a = some x₀ ∧
        x = { x₀ with count := if a = o.data then x₀.count + 1 else x₀.count } := by
    intro a x hx
    by_cases ha : a = o.data
    · subst ha
      have hself := Function.update_self o.data (some { d with count := d.count + 1 }) h.datas
      unfold Heap.setData at hx
      dsimp only at hx
      rw [hself] at hx
      cases hx
      exact ⟨d, hd, by rw [if_pos rfl]⟩
    · unfold Heap.setData at hx
      dsimp only at hx
      rw [Function.update_of_ne ha] at hx
      exact ⟨x, hx, by rw [if_neg ha]⟩
  have hblock' : ∀ a x₀, h.datas a = some x₀ →
      ∃ n, (h.setData o.data { d with count := d.count + 1 }).datas a = some { x₀ with count := n } := by
    intro a x₀ hx₀
    by_cases ha : a = o.data
    · subst ha
      rw [hd] at hx₀
      cases hx₀
      exact ⟨_, Function.update_self _ _ _⟩
    · exact ⟨x₀.count, by unfold Heap.setData; dsimp only; rw [Function.update_of_ne ha, hx₀]⟩
  have hsame : ∀ {x y : Buffer} {dx : BufferData}, x ∈ rest → y ∈ rest → y.data = x.data →
      (h.setData o.data { d with count := d.count + 1 }).datas x.data = some dx →
      x.stop = dx.dirtyEnd → y.realEnd ≤ x.realEnd := by
    intro x y dx hx hy hxy hdx hxstop
    obtain ⟨x₀, hx₀, rfl⟩ := hblock _ _ hdx
    exact hs.ends x hx y hy hxy x₀ hx₀ hxstop
  refine ⟨_, hout, ⟨?_, ?_, ?_, ?_, hs.freeSmall, ?_⟩, ?_⟩
  · intro a ha
    have hnone := hs.bounded a ha
    cases hx : (h.setData o.data { d with count := d.count + 1 }).datas a with
    | none => rfl
    | some x =>
      obtain ⟨x₀, hx₀, -⟩ := hblock a x hx
      rw [hnone] at hx₀
      cases hx₀
  · intro c hc
    have hthere : ∀ c ∈ rest, ∃ x, (h.setData o.data { d with count := d.count + 1 }).datas c.data =
        some x ∧ Fits c x := by
      intro c hc
      obtain ⟨x₀, hx₀, hf⟩ := hs.fits c hc
      obtain ⟨n, hn⟩ := hblock' _ x₀ hx₀
      exact ⟨_, hn, hf.start_le, hf.zero_le, hf.le_stop, hf.stop_lt, hf.dirtyStart_le,
        hf.le_dirtyEnd, hf.inside⟩
    rcases List.mem_cons.mp hc with rfl | hc
    · obtain ⟨x, hx, hf⟩ := hthere o ho
      refine ⟨x, by rw [hdata, hx], ?_, ?_, ?_, ?_, ?_, ?_, ?_⟩
      · rw [hstart, hzs]
        exact hf.start_le
      · rw [hzs, hze]
        exact hf.zero_le
      · rw [hze, hstop]
        exact hf.le_stop
      · rw [hstop]
        exact hf.stop_lt
      · rw [hstart]
        exact hf.dirtyStart_le
      · rw [hstop]
        exact hf.le_dirtyEnd
      · rw [hreal]
        exact hf.inside
    · exact hthere c hc
  · intro a x hx
    obtain ⟨x₀, hx₀, rfl⟩ := hblock a x hx
    have hold := hs.counted a x₀ hx₀
    dsimp only
    by_cases ha : a = o.data
    · rw [if_pos ha, List.countP_cons_of_pos (by simpa using hdata.trans ha.symm), hold]
    · rw [if_neg ha, List.countP_cons_of_neg (by rw [hdata]; simpa using fun h => ha h.symm), hold]
  · intro a x hx
    obtain ⟨x₀, hx₀, rfl⟩ := hblock a x hx
    exact hs.small a x₀ hx₀
  · intro x hx y hy hxy dx hdx hxstop
    rcases List.mem_cons.mp hx with rfl | hx' <;> rcases List.mem_cons.mp hy with rfl | hy'
    · exact le_rfl
    · rw [hreal]
      rw [hdata] at hdx hxy
      rw [hstop] at hxstop
      exact hsame ho hy' hxy hdx hxstop
    · rw [hreal]
      rw [hdata] at hxy
      exact hsame hx' ho hxy hdx hxstop
    · exact hsame hx' hy' hxy hdx hxstop
  · intro c hc
    obtain ⟨x₀, hx₀, -⟩ := hs.fits c hc
    obtain ⟨n, hn⟩ := hblock' _ x₀ hx₀
    rw [stored_eq hn, stored_eq hx₀]

/-- Bytes of the block that no other buffer uses are written. -/
theorem store (hs : Sound h (b :: rest)) (hd : h.datas b.data = some d) (o : ℕ)
    (bytes : List UInt8) (hin : o + bytes.length ≤ d.bytes.length)
    (hfree : ∀ c ∈ rest, c.data = b.data → o + bytes.length ≤ c.start ∨ c.realEnd ≤ o) :
    ∃ h', h.store b.data o bytes = some h' ∧ Sound h' (b :: rest) ∧
      (∀ c ∈ rest, stored h' c = stored h c) ∧
      h'.datas b.data = some { d with bytes := overwrite d.bytes o bytes } := by
  have hfits := hs.fits_of (by simp) hd
  have hlen : (overwrite d.bytes o bytes).length = d.bytes.length := length_overwrite hin
  have hkeep : ∀ c, Fits c d → Fits c { d with bytes := overwrite d.bytes o bytes } := by
    intro c hc
    refine ⟨hc.start_le, hc.zero_le, hc.le_stop, hc.stop_lt, hc.dirtyStart_le, hc.le_dirtyEnd, ?_⟩
    rw [hlen]
    exact hc.inside
  have hout : h.store b.data o bytes =
      some (h.setData b.data { d with bytes := overwrite d.bytes o bytes }) := by
    unfold Heap.store
    simp only [hd, Option.bind_eq_bind, Option.bind_some, poke_eq hin]
  have hself : (h.setData b.data { d with bytes := overwrite d.bytes o bytes }).datas b.data =
      some { d with bytes := overwrite d.bytes o bytes } := Function.update_self _ _ _
  refine ⟨_, hout, hs.setData hd _ rfl hlen rfl (hkeep b hfits) ?_, ?_, hself⟩
  · intro c hc hshare
    have hdc : h.datas c.data = some d := by rw [hshare, hd]
    refine ⟨hkeep c (hs.fits_of (List.mem_cons_of_mem b hc) hdc), ?_, ?_⟩
    · exact hs.ends b (by simp) c (List.mem_cons_of_mem b hc) hshare d hd
    · intro hstop
      exact ⟨hs.ends c (List.mem_cons_of_mem b hc) b (by simp) hshare.symm d hdc hstop, hstop⟩
  · intro c hc
    by_cases hshare : c.data = b.data
    · have hself' := (congrArg _ hshare).trans hself
      rw [stored_eq hself', stored_eq ((congrArg _ hshare).trans hd)]
      congr 1
      apply slice_overwrite_of_disjoint _ hin
      have := hfree c hc hshare
      unfold realEnd at this
      omega
    · exact stored_congr (Function.update_of_ne hshare _ _)

/-- The buffer in front moves to a new block, with its bytes from `offset` on. -/
theorem reallocate (hs : Sound h (b :: rest)) (hd : h.datas b.data = some d) (b' : Buffer)
    (newSize offset : ℕ) (hsize : offset + (b.head + b.tail) ≤ newSize) (hnew : newSize < 2 ^ 32)
    (hdata : b'.data = h.brk) (h₁ : b'.start ≤ b'.zeroAreaStart)
    (h₂ : b'.zeroAreaStart ≤ b'.zeroAreaEnd) (h₃ : b'.zeroAreaEnd ≤ b'.stop)
    (h₄ : b'.stop < 2 ^ 32) (hreal : b'.realEnd ≤ newSize) :
    ∃ h₁ h₂ d', b.reallocate h newSize offset = some (h.brk, h₁) ∧ b'.setDirty h₁ = some h₂ ∧
      Sound h₂ (b' :: rest) ∧ (∀ c ∈ rest, stored h₂ c = stored h c) ∧
      (∀ c ∈ rest, c.data ≠ b'.data) ∧ h₂.datas b'.data = some d' ∧ newSize ≤ d'.bytes.length ∧
      slice d'.bytes offset (b.head + b.tail) = slice d.bytes b.start (b.head + b.tail) := by
  have hfits := hs.fits_of (by simp) hd
  obtain ⟨n, free, hcreate, hcount, hle, hlt, hfree⟩ := h.create_spec hnew hs.freeSmall
  have hlen : (slice d.bytes b.start (b.head + b.tail)).length = b.head + b.tail :=
    hfits.length_slice
  have hin : offset + (slice d.bytes b.start (b.head + b.tail)).length ≤ n.bytes.length := by
    omega
  have hused : ∀ c ∈ b :: rest, c.data ≠ h.brk := fun c => hs.data_ne_brk
  have hne : h.brk ≠ b.data := (hused b (by simp)).symm
  -- the new block with the bytes, before and after its dirty area is set
  let filled : BufferData :=
    { n with bytes := overwrite n.bytes offset (slice d.bytes b.start (b.head + b.tail)) }
  let clean : BufferData := { filled with dirtyStart := b'.start, dirtyEnd := b'.stop }
  let created : Heap := { h with
    datas := Function.update h.datas h.brk (some n)
    brk := h.brk + 1
    freeList := free }
  have hflen : filled.bytes.length = n.bytes.length := length_overwrite hin
  have hb' : Fits b' clean := by
    refine ⟨h₁, h₂, h₃, h₄, le_rfl, le_rfl, ?_⟩
    show b'.realEnd ≤ filled.bytes.length
    omega
  have hplaced : Sound (created.setData h.brk clean) (b' :: b :: rest) := by
    have hp := hs.place hdata hb' hcount (by show filled.bytes.length < 2 ^ 32; omega) hfree
    unfold Heap.setData
    simp only [created, Function.update_idem]
    exact hp
  obtain ⟨final, hrel, hfinal, hstored, -⟩ := (hplaced.perm (List.Perm.swap b b' rest)).release
  -- the release sees only the old block
  have hsame : (created.setData h.brk filled).setData h.brk clean = created.setData h.brk clean :=
    Heap.setData_setData _ _ _ _
  rw [← hsame, Heap.release_setData hne, Option.map_eq_some_iff] at hrel
  obtain ⟨freed, hfreed, rfl⟩ := hrel
  have hdata' : freed.datas b'.data = some filled := by
    have hcomm := hfreed
    rw [Heap.release_setData hne, Option.map_eq_some_iff] at hcomm
    obtain ⟨x, -, rfl⟩ := hcomm
    rw [hdata]
    exact Function.update_self _ _ _
  have hblock : (freed.setData h.brk clean).datas b'.data = some clean := by
    rw [hdata]
    exact Function.update_self _ _ _
  refine ⟨freed, freed.setData h.brk clean, clean, ?_, ?_, hfinal, ?_, ?_, hblock, ?_, ?_⟩
  · have hload : created.load b.data b.start b.getInternalSize =
        some (slice d.bytes b.start (b.head + b.tail)) := by
      have hold : created.datas b.data = some d := (Function.update_of_ne hne.symm _ _).trans hd
      rw [hfits.getInternalSize_eq]
      unfold Heap.load
      simp only [hold, Option.bind_eq_bind, Option.bind_some]
      exact peek_eq hfits.inside
    have hput : created.store h.brk offset (slice d.bytes b.start (b.head + b.tail)) =
        some (created.setData h.brk filled) := by
      have hself : created.datas h.brk = some n := Function.update_self _ _ _
      unfold Heap.store
      simp only [hself, Option.bind_eq_bind, Option.bind_some, poke_eq hin]
      rfl
    unfold Buffer.reallocate
    rw [hcreate]
    simp only [Option.bind_eq_bind]
    rw [hload, Option.bind_some, hput, Option.bind_some, hfreed, Option.bind_some]
  · unfold Buffer.setDirty
    simp only [hdata', Option.bind_eq_bind, Option.bind_some]
    rw [hdata]
  · intro c hc
    have hne := hused c (List.mem_cons_of_mem b hc)
    rw [hstored c (List.mem_cons_of_mem b' hc)]
    refine stored_congr ?_
    unfold Heap.setData
    dsimp only [created]
    rw [Function.update_of_ne hne, Function.update_of_ne hne]
  · intro c hc
    rw [hdata]
    exact hused c (List.mem_cons_of_mem b hc)
  · show newSize ≤ filled.bytes.length
    omega
  · show slice filled.bytes offset (b.head + b.tail) = slice d.bytes b.start (b.head + b.tail)
    have := slice_overwrite_self hin
    rwa [hlen] at this

end Sound

end Ns3.Network
