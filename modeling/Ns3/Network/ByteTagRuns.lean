import Ns3.Lib.Run
import Ns3.Network.ByteTagSpec

/-!
# Byte tags follow their bytes

Any number of packets, and beside each its bytes, each with the tags that are on
it. In every run whose sizes and offsets stay below 2^29 the iterator over the
byte tags of a packet returns the tags of its bytes.
-/

namespace Ns3.Network

open Ns3.Lib

variable {T : Type}

/-- The bytes of a packet, with the tags on each, the first one added first. -/
abbrev Bytes (T : Type) := List (UInt8 × List T)

def untagged (bytes : Packet) : Bytes T := bytes.map fun b => (b, [])

/-- The operations on one packet. -/
inductive PacketOp (T : Type)
  | addHeader (header : Packet)
  | removeHeader (deserialized : ℕ)
  | addTrailer (trailer : Packet)
  | removeTrailer (deserialized : ℕ)
  | addPaddingAtEnd (padding : Packet)
  | removeAtEnd (size : ℕ)
  | removeAtStart (size : ℕ)
  | addByteTag (tag : T)
  | addByteTagOn (tag : T) (start stop : ℕ)
  | removeAllByteTags
  deriving DecidableEq

namespace PacketOp

def apply (p : TaggedPacket T) : PacketOp T → Option (TaggedPacket T)
  | addHeader header => some (p.addHeader header)
  | removeHeader deserialized => some (p.removeHeader deserialized)
  | addTrailer trailer => some (p.addTrailer trailer)
  | removeTrailer deserialized => some (p.removeTrailer deserialized)
  | addPaddingAtEnd padding => some (p.addPaddingAtEnd padding)
  | removeAtEnd size => some (p.removeAtEnd size)
  | removeAtStart size => some (p.removeAtStart size)
  | addByteTag tag => some (p.addByteTag tag)
  | addByteTagOn tag start stop => p.addByteTagOn tag start stop
  | removeAllByteTags => some p.removeAllByteTags

/-- What an operation means for the bytes and their tags. -/
def applyBytes (b : Bytes T) : PacketOp T → Bytes T
  | addHeader header => untagged header ++ b
  | removeHeader deserialized => b.drop deserialized
  | addTrailer trailer => b ++ untagged trailer
  | removeTrailer deserialized => b.take (b.length - deserialized)
  | addPaddingAtEnd padding => b ++ untagged padding
  | removeAtEnd size => b.take (b.length - size)
  | removeAtStart size => b.drop size
  | addByteTag tag => b.map fun x => (x.1, x.2 ++ [tag])
  | addByteTagOn tag start stop =>
    b.mapIdx fun i x => if start ≤ i ∧ i < stop then (x.1, x.2 ++ [tag]) else x
  | removeAllByteTags => untagged (b.map Prod.fst)

/-- The sizes that an operation is called with. -/
def Small : PacketOp T → Prop
  | addHeader bytes | addTrailer bytes | addPaddingAtEnd bytes => bytes.length < 2 ^ 29
  | removeHeader n | removeTrailer n | removeAtEnd n | removeAtStart n => n < 2 ^ 29
  | addByteTag _ | removeAllByteTags => True
  | addByteTagOn _ _ stop => stop < 2 ^ 29

instance : (o : PacketOp T) → Decidable o.Small
  | addHeader bytes | addTrailer bytes | addPaddingAtEnd bytes =>
    inferInstanceAs (Decidable (bytes.length < 2 ^ 29))
  | removeHeader n | removeTrailer n | removeAtEnd n | removeAtStart n =>
    inferInstanceAs (Decidable (n < 2 ^ 29))
  | addByteTag _ | removeAllByteTags => inferInstanceAs (Decidable True)
  | addByteTagOn _ _ stop => inferInstanceAs (Decidable (stop < 2 ^ 29))

/-- A tag is added to some byte. -/
def Proper (p : TaggedPacket T) : PacketOp T → Prop
  | addByteTag _ => p.buffer ≠ []
  | addByteTagOn _ start stop => start < stop
  | _ => True

instance (p : TaggedPacket T) : (o : PacketOp T) → Decidable (o.Proper p)
  | addByteTag _ => inferInstanceAs (Decidable (p.buffer ≠ []))
  | addByteTagOn _ start stop => inferInstanceAs (Decidable (start < stop))
  | addHeader _ | addTrailer _ | addPaddingAtEnd _ | removeHeader _ | removeTrailer _
  | removeAtEnd _ | removeAtStart _ | removeAllByteTags => inferInstanceAs (Decidable True)

end PacketOp

namespace TaggedPacket

/-- Size and offsets are small. -/
def Small (p : TaggedPacket T) : Prop :=
  p.buffer.length < 2 ^ 29 ∧
    (-2 ^ 29 < p.byteTagList.adjustment ∧ p.byteTagList.adjustment < 2 ^ 29) ∧
    ∀ m ∈ p.byteTagList.data, (-2 ^ 29 < m.start ∧ m.start < 2 ^ 29) ∧
      -2 ^ 29 < m.stop ∧ m.stop < 2 ^ 29

instance (p : TaggedPacket T) : Decidable p.Small := inferInstanceAs (Decidable (_ ∧ _ ∧ _))

/-- The packet has these bytes, and these tags on them. `P` is that every tag was added to some
byte; then no mark is empty. -/
structure Faithful (P : Prop) (p : TaggedPacket T) (b : Bytes T) : Prop where
  buffer : p.buffer = b.map Prod.fst
  tags : ∀ (i : ℕ) x, b[i]? = some x → tagsAt p.byteTagList.marks i = x.2
  bounded : p.byteTagList.Bounded
  proper : P → p.byteTagList.Proper

variable {P : Prop} {p q : TaggedPacket T} {b c : Bytes T}

theorem Small.size_eq (h : p.Small) : p.size = p.buffer.length := by
  have := h.1
  exact int32_eq ⟨by omega, by omega⟩

theorem Small.spans (h : p.Small) : p.byteTagList.Spans (2 ^ 30) := by
  intro m hm
  obtain ⟨m, hm', rfl⟩ := List.mem_map.mp hm
  have := h.2.1
  have := h.2.2 m hm'
  unfold Mark.shift
  dsimp only
  omega

theorem Faithful.length_eq (h : p.Faithful P b) : p.buffer.length = b.length := by
  rw [h.buffer, List.length_map]

theorem faithful_new (bytes : Packet) :
    (new bytes : TaggedPacket T).Faithful P (untagged bytes) where
  buffer := by
    unfold untagged
    rw [List.map_map]
    exact (List.map_id bytes).symm
  tags i x hx := by
    obtain ⟨y, -, rfl⟩ := List.mem_map.mp (List.mem_of_getElem? hx)
    rfl
  bounded := ByteTagList.bounded_new
  proper _ := ByteTagList.proper_new

theorem map_fst_untagged (bytes : Packet) : (untagged bytes : Bytes T).map Prod.fst = bytes := by
  unfold untagged
  rw [List.map_map]
  exact List.map_id bytes

theorem snd_of_untagged {bytes : Packet} {i : ℕ} {x : UInt8 × List T}
    (h : (untagged bytes)[i]? = some x) : x.2 = [] := by
  obtain ⟨y, -, rfl⟩ := List.mem_map.mp (List.mem_of_getElem? h)
  rfl

/-! ## Bytes are removed -/

/-- The offsets are those of what is left. -/
theorem Faithful.drop (h : p.Faithful P b) (hp : p.Small) {n : ℕ} (hn : n < 2 ^ 29) :
    (TaggedPacket.mk (p.buffer.drop n) (p.byteTagList.adjust (int32 (-n)))).Faithful P
      (b.drop n) := by
  obtain ⟨-, hadjustment, -⟩ := hp
  have hn' : int32 (-n) = -n := int32_eq ⟨by omega, by omega⟩
  have hrange : InRange (p.byteTagList.adjustment + -n) := ⟨by omega, by omega⟩
  refine ⟨by rw [h.buffer, List.map_drop], fun i x hx => ?_, h.bounded, h.proper⟩
  dsimp only
  rw [hn', ByteTagList.marks_adjust hrange, tagsAt_map_shift]
  rw [List.getElem?_drop] at hx
  have htags := h.tags (n + i) x hx
  rwa [show ((i : ℤ) - -n) = ((n + i : ℕ) : ℤ) by push_cast; omega]

theorem Faithful.take (h : p.Faithful P b) (n : ℕ) :
    TaggedPacket.Faithful P { p with buffer := p.buffer.take n } (b.take n) := by
  refine ⟨by rw [h.buffer, List.map_take], fun i x hx => h.tags i x ?_, h.bounded, h.proper⟩
  rw [List.getElem?_take] at hx
  split at hx
  · exact hx
  · cases hx

/-! ## Bytes are added -/

theorem Faithful.append (h : p.Faithful P b) (hp : p.Small) (bytes : Packet) :
    (TaggedPacket.mk (p.buffer ++ bytes) (p.byteTagList.addAtEnd p.size)).Faithful P
      (b ++ untagged bytes) := by
  have hspans := hp.spans
  rw [hp.size_eq]
  obtain ⟨hlength, hadjustment, -⟩ := hp
  obtain ⟨htags, hbounded, -, -, hproper⟩ := ByteTagList.addAtEnd_spec h.bounded hspans (by omega)
    (Int.natCast_nonneg p.buffer.length) (by omega) ⟨by omega, by omega⟩
  refine ⟨by rw [List.map_append, map_fst_untagged, h.buffer], fun i x hx => ?_, hbounded,
    fun hP => hproper (h.proper hP)⟩
  dsimp only
  rw [htags i (Int.natCast_nonneg i)]
  by_cases hi : i < b.length
  · rw [if_pos (by rw [h.length_eq]; exact_mod_cast hi)]
    rw [List.getElem?_append_left hi] at hx
    exact h.tags i x hx
  · rw [if_neg (by rw [h.length_eq]; exact_mod_cast hi)]
    rw [List.getElem?_append_right (Nat.le_of_not_lt hi)] at hx
    exact (snd_of_untagged hx).symm

theorem Faithful.addHeader (h : p.Faithful P b) (hp : p.Small) {header : Packet}
    (hheader : header.length < 2 ^ 29) :
    (p.addHeader header).Faithful P (untagged header ++ b) := by
  have hspans := hp.spans
  obtain ⟨hsize, hadjustment, -⟩ := hp
  rw [h.length_eq] at hsize
  have hn : int32 header.length = header.length := int32_eq ⟨by omega, by omega⟩
  have hrange : InRange (p.byteTagList.adjustment + header.length) := ⟨by omega, by omega⟩
  let l := p.byteTagList.adjust header.length
  have hmarks : l.marks = p.byteTagList.marks.map (Mark.shift header.length) :=
    ByteTagList.marks_adjust hrange
  have hadjust : l.adjustment = p.byteTagList.adjustment + header.length := int32_eq hrange
  have hspans' : l.Spans (2 ^ 30 + 2 ^ 29) := by
    unfold ByteTagList.Spans
    rw [hmarks]
    intro m hm
    obtain ⟨m, hm', rfl⟩ := List.mem_map.mp hm
    have := hspans m hm'
    unfold Mark.shift
    dsimp only
    omega
  have hrange' : InRange (header.length - l.adjustment) := ⟨by omega, by omega⟩
  obtain ⟨htags, hbounded', -, -, hproper⟩ :=
    ByteTagList.addAtStart_spec (l := l) h.bounded hspans' (by omega)
    (Int.natCast_nonneg header.length) (by omega) hrange'
  unfold TaggedPacket.addHeader
  rw [hn]
  refine ⟨by rw [List.map_append, map_fst_untagged, h.buffer], fun i x hx => ?_, hbounded',
    fun hP => hproper (h.proper hP)⟩
  have hlength : (untagged header : Bytes T).length = header.length := List.length_map _
  have hi : i < header.length + b.length := by
    have := (List.getElem?_eq_some_iff.mp hx).1
    rwa [List.length_append, hlength] at this
  dsimp only
  rw [htags i (by unfold offsetMax; omega)]
  by_cases hnew : i < header.length
  · rw [if_neg (by omega)]
    rw [List.getElem?_append_left (by rwa [hlength])] at hx
    exact (snd_of_untagged hx).symm
  · rw [if_pos (by omega), hmarks, tagsAt_map_shift]
    rw [List.getElem?_append_right (by rw [hlength]; omega), hlength] at hx
    rw [show (i : ℤ) - header.length = ((i - header.length : ℕ) : ℤ) by omega]
    exact h.tags _ x hx

theorem Faithful.addAtEnd (h : p.Faithful P b) (hp : p.Small) (hq : q.Faithful P c)
    (hq' : q.Small) :
    (p.addAtEnd q).Faithful P (b ++ c) := by
  have hspans := hp.spans
  have hqspans := hq'.spans
  have hsize := hp.size_eq
  obtain ⟨hlength, hadjustment, -⟩ := hp
  obtain ⟨hqlength, hqadjustment, -⟩ := hq'
  obtain ⟨htags, hbounded, -, hadjustment', hproper⟩ := ByteTagList.addAtEnd_spec h.bounded hspans
    (by omega) (Int.natCast_nonneg p.buffer.length) (by omega) ⟨by omega, by omega⟩
  obtain ⟨hqtags, -, hqspans', hqadjustment', hqproper⟩ := ByteTagList.addAtStart_spec hq.bounded
    hqspans (by omega) (Int.le_refl 0) (by omega) ⟨by omega, by omega⟩
  -- the other packet's tags, where its bytes go
  let copy := (q.byteTagList.addAtStart 0).adjust p.buffer.length
  have hcopy : copy.marks = (q.byteTagList.addAtStart 0).marks.map (Mark.shift p.buffer.length) :=
    ByteTagList.marks_adjust ⟨by omega, by omega⟩
  have hcopyspans : copy.Spans (2 ^ 30 + 2 ^ 29) := by
    unfold ByteTagList.Spans
    rw [hcopy]
    intro m hm
    obtain ⟨m, hm', rfl⟩ := List.mem_map.mp hm
    have := hqspans' m hm'
    unfold Mark.shift
    dsimp only
    omega
  obtain ⟨hmarks, hbounded', hproper'⟩ := ByteTagList.addAll_spec (y := 2 ^ 29 - 1) hcopyspans
    (by omega) (l := p.byteTagList.addAtEnd p.buffer.length) (by omega) (by omega)
  unfold TaggedPacket.addAtEnd
  rw [hsize]
  refine ⟨by rw [List.map_append, h.buffer, hq.buffer], fun i x hx => ?_, hbounded' hbounded,
    fun hP => hproper' (hproper (h.proper hP)) (hqproper (hq.proper hP))⟩
  have hi : i < b.length + c.length := by
    have := (List.getElem?_eq_some_iff.mp hx).1
    rwa [List.length_append] at this
  rw [h.length_eq] at hlength
  rw [hq.length_eq] at hqlength
  have hitems : tagsAt copy.itemsAll i =
      if b.length ≤ i then tagsAt q.byteTagList.marks ((i - b.length : ℕ) : ℤ) else [] := by
    unfold ByteTagList.itemsAll
    rw [ByteTagList.items_eq hcopyspans (by omega), tagsAt_filterMap_clip,
      if_pos ⟨Int.natCast_nonneg i, by unfold offsetMax; omega⟩, hcopy, tagsAt_map_shift,
      hqtags _ (by unfold offsetMax; omega), h.length_eq]
    refine if_ctx_congr (by omega) (fun hle => ?_) fun _ => rfl
    rw [show (i : ℤ) - b.length = ((i - b.length : ℕ) : ℤ) by omega]
  dsimp only
  rw [hmarks, tagsAt_append, hitems, htags i (Int.natCast_nonneg i), h.length_eq]
  by_cases hold : i < b.length
  · rw [if_pos (by omega), if_neg (by omega), List.append_nil]
    rw [List.getElem?_append_left hold] at hx
    exact h.tags i x hx
  · rw [if_neg (by omega), if_pos (by omega), List.nil_append]
    rw [List.getElem?_append_right (by omega)] at hx
    exact hq.tags _ x hx

/-! ## Tags are added and removed -/

theorem Faithful.addByteTag (h : p.Faithful P b) (hp : p.Small) (tag : T)
    (hproper : P → p.buffer ≠ []) :
    (p.addByteTag tag).Faithful P (b.map fun x => (x.1, x.2 ++ [tag])) := by
  have hsize := hp.size_eq
  obtain ⟨hlength, hadjustment, -⟩ := hp
  have hstart : InRange (0 - p.byteTagList.adjustment) := ⟨by omega, by omega⟩
  have hstop : InRange (p.buffer.length - p.byteTagList.adjustment) := ⟨by omega, by omega⟩
  unfold TaggedPacket.addByteTag
  rw [hsize]
  refine ⟨?_, fun i x hx => ?_, h.bounded.add _ _ _, fun hP => (h.proper hP).add ?_ hstart hstop⟩
  · rw [List.map_map, h.buffer]
    rfl
  · rw [List.getElem?_map, Option.map_eq_some_iff] at hx
    obtain ⟨x, hx, rfl⟩ := hx
    have hi := (List.getElem?_eq_some_iff.mp hx).1
    dsimp only
    rw [ByteTagList.marks_add hstart hstop, tagsAt_append, h.tags i x hx, tagsAt_cons,
      if_pos ⟨Int.natCast_nonneg i, by dsimp only; rw [h.length_eq]; omega⟩, tagsAt_nil]
  · have := List.length_pos_of_ne_nil (hproper hP)
    omega

theorem Faithful.addByteTagOn (h : p.Faithful P b) (hp : p.Small) {tag : T} {start stop : ℕ}
    (hstop : stop < 2 ^ 29) (hproper : P → start < stop)
    (h' : p.addByteTagOn tag start stop = some q) :
    q.Faithful P
      (b.mapIdx fun i x => if start ≤ i ∧ i < stop then (x.1, x.2 ++ [tag]) else x) := by
  obtain ⟨-, hadjustment, -⟩ := hp
  unfold TaggedPacket.addByteTagOn at h'
  split at h'
  · cases h'
  · cases h'
    have hstart' : int32 start = start := int32_eq ⟨by omega, by omega⟩
    have hstop' : int32 stop = stop := int32_eq ⟨by omega, by omega⟩
    have hstart : InRange (start - p.byteTagList.adjustment) := ⟨by omega, by omega⟩
    have hstop : InRange (stop - p.byteTagList.adjustment) := ⟨by omega, by omega⟩
    rw [hstart', hstop']
    refine ⟨?_, fun i x hx => ?_, h.bounded.add _ _ _, fun hP =>
      (h.proper hP).add (by exact_mod_cast hproper hP) hstart hstop⟩
    · rw [h.buffer]
      refine List.ext_getElem? fun i => ?_
      rw [List.getElem?_map, List.getElem?_map, List.getElem?_mapIdx, Option.map_map]
      refine congrArg (Option.map · b[i]?) (funext fun x => ?_)
      dsimp only [Function.comp_apply]
      split <;> rfl
    · rw [List.getElem?_mapIdx, Option.map_eq_some_iff] at hx
      obtain ⟨x, hx, rfl⟩ := hx
      dsimp only
      rw [ByteTagList.marks_add hstart hstop, tagsAt_append, h.tags i x hx, tagsAt_cons, tagsAt_nil]
      have hcovers : (⟨tag, start, stop⟩ : Mark T).Covers i ↔ start ≤ i ∧ i < stop := by
        unfold Mark.Covers
        dsimp only
        omega
      rw [if_congr hcovers rfl rfl]
      split
      · rfl
      · rw [List.append_nil]

theorem Faithful.removeAllByteTags (h : p.Faithful P b) :
    p.removeAllByteTags.Faithful P (untagged (b.map Prod.fst)) where
  buffer := by
    rw [map_fst_untagged]
    exact h.buffer
  tags i x hx := by
    rw [snd_of_untagged hx]
    rfl
  bounded := ByteTagList.bounded_new
  proper _ := ByteTagList.proper_new

/-- **Each operation** does to the bytes and their tags what it is meant to. -/
theorem Faithful.apply (h : p.Faithful P b) (hp : p.Small) {o : PacketOp T} (ho : o.Small)
    (hproper : P → o.Proper p) (h' : o.apply p = some q) : q.Faithful P (o.applyBytes b) := by
  cases o with
  | addHeader header =>
    cases h'
    exact h.addHeader hp ho
  | removeHeader deserialized =>
    cases h'
    exact h.drop hp ho
  | addTrailer trailer =>
    cases h'
    exact h.append hp trailer
  | removeTrailer deserialized =>
    cases h'
    show (TaggedPacket.mk (p.buffer.take (p.buffer.length - deserialized)) _).Faithful P _
    rw [h.length_eq]
    exact h.take _
  | addPaddingAtEnd padding =>
    cases h'
    exact h.append hp padding
  | removeAtEnd size =>
    cases h'
    show (TaggedPacket.mk (p.buffer.take (p.buffer.length - size)) _).Faithful P _
    rw [h.length_eq]
    exact h.take _
  | removeAtStart size =>
    cases h'
    exact h.drop hp ho
  | addByteTag tag =>
    cases h'
    exact h.addByteTag hp tag hproper
  | addByteTagOn tag start stop => exact h.addByteTagOn hp ho hproper h'
  | removeAllByteTags =>
    cases h'
    exact h.removeAllByteTags

theorem Faithful.createFragment (h : p.Faithful P b) (hp : p.Small) {start length : ℕ}
    (h' : p.createFragment start length = some q) : q.Faithful P ((b.drop start).take length) := by
  unfold TaggedPacket.createFragment at h'
  split at h'
  · rename_i hle
    cases h'
    have := hp.1
    exact (h.drop hp (by omega)).take length
  · cases h'

/-- What the iterator returns. -/
theorem Faithful.byteTags (h : p.Faithful P b) (hp : p.Small) :
    (∀ (i : ℕ) x, b[i]? = some x → tagsAt p.byteTags i = x.2) ∧
      (∀ m ∈ p.byteTags, 0 ≤ m.start ∧ m.stop ≤ b.length) ∧
      (P → b ≠ [] → ∀ m ∈ p.byteTags, m.start < m.stop) := by
  have hitems : p.byteTags = p.byteTagList.marks.filterMap (Mark.clip 0 b.length) := by
    unfold TaggedPacket.byteTags
    rw [ByteTagList.items_eq hp.spans (by omega), hp.size_eq, h.length_eq]
  rw [hitems]
  refine ⟨fun i x hx => ?_, fun m hm => ?_, fun hP hne m hm => ?_⟩
  · have hi := (List.getElem?_eq_some_iff.mp hx).1
    rw [tagsAt_filterMap_clip, if_pos ⟨Int.natCast_nonneg i, by omega⟩]
    exact h.tags i x hx
  · obtain ⟨m₀, -, hclip⟩ := List.mem_filterMap.mp hm
    obtain ⟨hlow, hhigh, -⟩ := Mark.clip_bounds hclip
    exact ⟨hlow, hhigh⟩
  · obtain ⟨m₀, hm₀, hclip⟩ := List.mem_filterMap.mp hm
    obtain ⟨m₁, hm₁, rfl⟩ := List.mem_map.mp hm₀
    have := List.length_pos_of_ne_nil hne
    exact (Mark.clip_bounds hclip).2.2.2.2 (by omega) (Int.add_lt_add_right (h.proper hP m₁ hm₁) _)

end TaggedPacket

/-! ## Runs -/

abbrev Packets (T : Type) := List (TaggedPacket T × Bytes T)

inductive PacketEvent (T : Type)
  | new (buffer : Packet)
  | copy (i : ℕ)
  | op (i : ℕ) (o : PacketOp T)
  | createFragment (i start length : ℕ)
  /-- The packet `j` is added to the packet `i`, which is another one. -/
  | addAtEnd (i j : ℕ)
  deriving DecidableEq

def PacketEvent.Small : PacketEvent T → Prop
  | .op _ o => o.Small
  | _ => True

instance : (e : PacketEvent T) → Decidable e.Small
  | .op _ o => inferInstanceAs (Decidable o.Small)
  | .new _ | .copy _ | .createFragment _ _ _ | .addAtEnd _ _ => inferInstanceAs (Decidable True)

namespace Packets

def step (w : Packets T) : PacketEvent T → Option (Packets T)
  | .new buffer => some (w ++ [(.new buffer, untagged buffer)])
  | .copy i => do
    let x ← w[i]?
    return w ++ [x]
  | .op i o => do
    let (p, b) ← w[i]?
    let p ← o.apply p
    return w.set i (p, o.applyBytes b)
  | .createFragment i start length => do
    let (p, b) ← w[i]?
    let p ← p.createFragment start length
    return w ++ [(p, (b.drop start).take length)]
  | .addAtEnd i j =>
    if i = j then none
    else do
      let (p, b) ← w[i]?
      let (q, c) ← w[j]?
      return w.set i (p.addAtEnd q, b ++ c)

variable (T) in
def system : System (Packets T) (PacketEvent T) where
  init w := w = []
  step w e w' := w.step e = some w'

/-- Sizes and offsets are below 2^29 before the event. -/
def Small (w : Packets T) (e : PacketEvent T) : Prop := (∀ x ∈ w, x.1.Small) ∧ e.Small

instance (w : Packets T) (e : PacketEvent T) : Decidable (w.Small e) :=
  inferInstanceAs (Decidable (_ ∧ _))

/-- A tag is added to some byte. -/
def Proper (w : Packets T) : PacketEvent T → Prop
  | .op i o => ∀ x ∈ w[i]?, o.Proper x.1
  | _ => True

instance (w : Packets T) : (e : PacketEvent T) → Decidable (w.Proper e)
  | .op i o => inferInstanceAs (Decidable (∀ x ∈ w[i]?, o.Proper x.1))
  | .new _ | .copy _ | .createFragment _ _ _ | .addAtEnd _ _ => inferInstanceAs (Decidable True)

variable {w w' : Packets T} {P : Prop}

def Faithful (P : Prop) (w : Packets T) : Prop := ∀ x ∈ w, x.1.Faithful P x.2

theorem Faithful.append (h : w.Faithful P) {x : TaggedPacket T × Bytes T}
    (hx : x.1.Faithful P x.2) :
    Faithful P (w ++ [x]) := fun y hy => by
  rcases List.mem_append.mp hy with hy | hy
  · exact h y hy
  · rwa [List.mem_singleton.mp hy]

theorem Faithful.set (h : w.Faithful P) {i : ℕ} {x : TaggedPacket T × Bytes T}
    (hx : x.1.Faithful P x.2) : Faithful P (w.set i x) := fun y hy => by
  rcases List.mem_or_eq_of_mem_set hy with hy | rfl
  · exact h y hy
  · exact hx

theorem faithful_step {e : PacketEvent T} (h : w.Faithful P) (hsmall : w.Small e)
    (hproper : P → w.Proper e) (hstep : w.step e = some w') : w'.Faithful P := by
  obtain ⟨hw, he⟩ := hsmall
  cases e with
  | new buffer =>
    cases hstep
    exact h.append (TaggedPacket.faithful_new buffer)
  | copy i =>
    obtain ⟨x, hx, hstep⟩ := Option.bind_eq_some_iff.mp hstep
    cases hstep
    exact h.append (h x (List.mem_of_getElem? hx))
  | op i o =>
    obtain ⟨x, hx, hstep⟩ := Option.bind_eq_some_iff.mp hstep
    obtain ⟨q, hq, hstep⟩ := Option.bind_eq_some_iff.mp hstep
    cases hstep
    have hmem := List.mem_of_getElem? hx
    exact h.set ((h x hmem).apply (hw x hmem) he (fun hP => hproper hP x hx) hq)
  | createFragment i start length =>
    obtain ⟨x, hx, hstep⟩ := Option.bind_eq_some_iff.mp hstep
    obtain ⟨q, hq, hstep⟩ := Option.bind_eq_some_iff.mp hstep
    cases hstep
    have hmem := List.mem_of_getElem? hx
    exact h.append ((h x hmem).createFragment (hw x hmem) hq)
  | addAtEnd i j =>
    by_cases hij : i = j
    · have hnone : w.step (.addAtEnd i j) = none := if_pos hij
      rw [hnone] at hstep
      cases hstep
    · replace hstep := (if_neg hij).symm.trans hstep
      obtain ⟨x, hx, hstep⟩ := Option.bind_eq_some_iff.mp hstep
      obtain ⟨y, hy, hstep⟩ := Option.bind_eq_some_iff.mp hstep
      cases hstep
      have hmem := List.mem_of_getElem? hx
      have hmem' := List.mem_of_getElem? hy
      exact h.set ((h x hmem).addAtEnd (hw x hmem) (h y hmem') (hw y hmem'))

theorem faithful_of_reachable
    (h : ((system T).restrict fun w e => w.Small e ∧ (P → w.Proper e)).Reachable w) :
    w.Faithful P := by
  refine h.invariant (P := Faithful P) ?_ ?_
  · rintro _ rfl x hx
    cases hx
  · rintro w e w' hw ⟨⟨hsmall, hproper⟩, hstep⟩
    exact faithful_step hw hsmall hproper hstep

/-- A tagged byte is cut off, and a header and the rest of the first byte's packet are added. -/
def sampleEvents : List (PacketEvent ℕ) :=
  [.new [1, 2, 3], .op 0 (.addByteTag 7), .createFragment 0 0 2, .op 0 (.removeAtStart 1),
    .op 0 (.addHeader [9]), .addAtEnd 0 1, .op 0 (.addByteTagOn 8 1 4)]

def samplePacket : TaggedPacket ℕ :=
  ⟨[9, 2, 3, 1, 2], ⟨1, 6, 0, [⟨7, 1, 3⟩, ⟨7, 3, 6⟩, ⟨8, 1, 4⟩]⟩⟩

def sampleBytes : Bytes ℕ := [(9, []), (2, [7, 8]), (3, [7, 8]), (1, [7, 8]), (2, [7])]

end Packets

end Ns3.Network
