import Mathlib.Algebra.BigOperators.Group.List.Basic
import Ns3.Olsr.Messages

/-!
# Messages survive the wire

A message whose size fits its size field is read back as it was, field by
field. A packet of such messages is read back when its own length fits.
-/

namespace Ns3.Olsr

open Ns3.Lib Parser

variable {tail : ℕ}

/-! ## Words -/

theorem bigEndian_writeHtonU16 (x : UInt16) : UInt16.ofNat (bigEndian (writeHtonU16 x)) = x := by
  apply UInt16.toNat_inj.mp
  have hx := x.toNat_lt
  simp only [bigEndian, writeHtonU16, Wire.byteAt, List.foldl_cons, List.foldl_nil,
    UInt16.toNat_ofNat', UInt8.toNat_ofNat']
  omega

theorem bigEndian_writeHtonU32 (x : UInt32) :
    UInt32.ofNat (bigEndian (Wire.writeHtonU32 x)) = x := by
  apply UInt32.toNat_inj.mp
  have hx := x.toNat_lt
  simp only [bigEndian, Wire.writeHtonU32, Wire.byteAt, List.foldl_cons, List.foldl_nil,
    UInt32.toNat_ofNat', UInt8.toNat_ofNat']
  omega

theorem decodes_readNtohU16 (x : UInt16) :
    Decodes (readNtohU16 tail) (writeHtonU16 x) x := by
  apply (decodes_readBytes tail (writeHtonU16 x)).last
  rw [bigEndian_writeHtonU16]
  exact decodes_pure x

theorem decodes_readNtohU32 (x : UInt32) :
    Decodes (readNtohU32 tail) (Wire.writeHtonU32 x) x := by
  apply (decodes_readBytes tail (Wire.writeHtonU32 x)).last
  rw [bigEndian_writeHtonU32]
  exact decodes_pure x

theorem decodes_addresses (addresses : List Ipv4Address) :
    Decodes (many (readNtohU32 tail) addresses.length) (addresses.flatMap Wire.writeHtonU32)
      addresses :=
  decodes_many addresses fun a _ => decodes_readNtohU32 a

/-! ## Sizes -/

theorem length_addresses (addresses : List Ipv4Address) :
    (addresses.flatMap Wire.writeHtonU32).length = addresses.length * 4 := by
  simp [List.length_flatMap, Wire.writeHtonU32]

theorem LinkMessage.length_serialize (lm : LinkMessage) :
    lm.serialize.length = lm.getSerializedSize := by
  simp only [serialize, getSerializedSize, List.length_append, length_addresses, writeHtonU16,
    List.length_cons, List.length_nil]
  omega

theorem length_links (links : List LinkMessage) :
    (links.flatMap LinkMessage.serialize).length =
      (links.map LinkMessage.getSerializedSize).sum := by
  rw [List.length_flatMap, funext LinkMessage.length_serialize]

theorem Message.length_serialize (m : Message) : m.serialize.length = m.getSerializedSize := by
  cases m with
  | mid addresses => exact length_addresses addresses
  | hello hTime willingness links =>
    rw [serialize, getSerializedSize, List.length_append, length_links]
    rfl
  | tc ansn addresses =>
    rw [serialize, getSerializedSize, List.length_append, length_addresses]
    rfl
  | hna associations =>
    have hsize : (fun a : HnaAssociation => (Wire.writeHtonU32 a.address ++
        Wire.writeHtonU32 a.mask).length) = fun _ => 8 := rfl
    rw [serialize, getSerializedSize, List.length_flatMap, hsize, List.map_const',
      List.sum_replicate_nat]
    omega

theorem MessageHeader.length_serialize (m : MessageHeader) :
    m.serialize.length = m.getSerializedSize := by
  simp only [serialize, getSerializedSize, List.length_append, m.message.length_serialize,
    writeHtonU16, Wire.writeHtonU32, List.length_cons, List.length_nil]

theorem length_messages (messages : List MessageHeader) :
    (messages.flatMap MessageHeader.serialize).length =
      (messages.map MessageHeader.getSerializedSize).sum := by
  rw [List.length_flatMap, funext MessageHeader.length_serialize]

/-- There are no more values than bytes. -/
theorem length_le_sizes {α : Type} {f : α → ℕ} (hf : ∀ a, 1 ≤ f a) (as : List α) :
    as.length ≤ (as.map f).sum := by
  have hlen := List.length_le_sum_of_one_le (as.map f) fun i hi => by
    obtain ⟨a, -, rfl⟩ := List.mem_map.mp hi
    exact hf a
  rwa [List.length_map] at hlen

/-! ## A message -/

theorem toNat_size {n : ℕ} (h : n < 2 ^ 16) : (UInt16.ofNat n).toNat = n :=
  UInt16.toNat_ofNat_of_lt' h

theorem decodes_readAddresses (addresses : List Ipv4Address) :
    Decodes (readAddresses tail addresses.length) (addresses.flatMap Wire.writeHtonU32)
      addresses := by
  apply decodes_withLength
  intro n _
  rw [if_pos (Int.natCast_nonneg _), Int.toNat_natCast]
  exact decodes_addresses addresses

theorem decodes_linkLoop (links : List LinkMessage) (fuel : ℕ) (hfuel : links.length < fuel)
    (hsize : (links.map LinkMessage.getSerializedSize).sum < 2 ^ 16) :
    Decodes (linkLoop tail fuel (links.map LinkMessage.getSerializedSize).sum)
      (links.flatMap LinkMessage.serialize) links := by
  induction links generalizing fuel with
  | nil =>
    obtain ⟨fuel, rfl⟩ : ∃ n, fuel = n + 1 := ⟨fuel - 1, by simp at hfuel; omega⟩
    exact decodes_pure []
  | cons lm links ih =>
    obtain ⟨fuel, rfl⟩ : ∃ n, fuel = n + 1 := ⟨fuel - 1, by simp at hfuel; omega⟩
    rw [List.map_cons, List.sum_cons] at hsize ⊢
    have hsize4 : lm.getSerializedSize = 4 + 4 * lm.neighborInterfaceAddresses.length := rfl
    have hlm : (UInt16.ofNat lm.getSerializedSize).toNat = lm.getSerializedSize :=
      toNat_size (by omega)
    have hwords : (lm.getSerializedSize : ℤ) - 4 = 4 * lm.neighborInterfaceAddresses.length := by
      omega
    unfold linkLoop
    rw [if_neg (by omega), List.flatMap_cons, LinkMessage.serialize]
    simp only [List.append_assoc, List.cons_append, List.nil_append]
    apply Decodes.check (by omega)
    apply Decodes.readU8
    apply Decodes.readU8
    apply (decodes_readNtohU16 _).bind
    rw [hlm, hwords]
    apply Decodes.check (Int.mul_tmod_right _ _)
    rw [Int.mul_tdiv_cancel_left _ (by decide)]
    apply (decodes_readAddresses _).bind
    have hleft : (lm.getSerializedSize + (links.map LinkMessage.getSerializedSize).sum + 2 ^ 16 -
        lm.getSerializedSize) % 2 ^ 16 = (links.map LinkMessage.getSerializedSize).sum := by
      omega
    rw [hleft]
    apply (ih fuel (by simpa using hfuel) (by omega)).last
    exact decodes_pure _

theorem decodes_association (a : HnaAssociation) : Decodes (readAssociation tail)
    (Wire.writeHtonU32 a.address ++ Wire.writeHtonU32 a.mask) a := by
  apply (decodes_readNtohU32 _).bind
  apply (decodes_readNtohU32 _).last
  exact decodes_pure a

theorem decodes_message (m : Message) (hsize : m.getSerializedSize < 2 ^ 16) :
    Decodes (deserializeMessage tail m.messageType m.getSerializedSize) m.serialize
      (m, m.getSerializedSize) := by
  cases m with
  | mid addresses =>
    show Decodes (deserializeMid tail (addresses.length * 4)) _ _
    apply Decodes.check (Nat.mul_mod_left _ _)
    rw [Nat.mul_div_cancel _ (by decide)]
    apply (decodes_addresses addresses).last
    exact decodes_pure _
  | hello hTime willingness links =>
    show Decodes (deserializeHello tail (4 + (links.map LinkMessage.getSerializedSize).sum)) _ _
    have hsum : (links.map LinkMessage.getSerializedSize).sum < 2 ^ 16 := by
      have h : 4 + (links.map LinkMessage.getSerializedSize).sum < 2 ^ 16 := hsize
      omega
    rw [Message.serialize, List.append_assoc, List.cons_append, List.cons_append,
      List.nil_append]
    apply Decodes.check (Nat.le_add_right _ _)
    apply (decodes_readNtohU16 _).bind
    apply Decodes.readU8
    apply Decodes.readU8
    have hleft : (4 + (links.map LinkMessage.getSerializedSize).sum + 2 ^ 16 - 4) % 2 ^ 16 =
        (links.map LinkMessage.getSerializedSize).sum := by
      omega
    rw [hleft]
    refine Decodes.last (decodes_withLength fun n hn => ?_) (decodes_pure _)
    rw [length_links] at hn
    have hcount := length_le_sizes (f := LinkMessage.getSerializedSize)
      (fun _ => Nat.le_trans (by decide) (Nat.le_add_right 4 _)) links
    exact decodes_linkLoop links _ (Nat.lt_succ_of_le (hcount.trans hn)) hsum
  | tc ansn addresses =>
    show Decodes (deserializeTc tail (4 + addresses.length * 4)) _ _
    rw [Message.serialize, List.append_assoc]
    apply Decodes.check (Nat.le_add_right _ _)
    apply (decodes_readNtohU16 _).bind
    apply (decodes_readNtohU16 _).bind
    rw [Nat.add_sub_cancel_left]
    apply Decodes.check (Nat.mul_mod_left _ _)
    rw [Nat.mul_div_cancel _ (by decide)]
    apply (decodes_addresses addresses).last
    exact decodes_pure _
  | hna associations =>
    show Decodes (deserializeHna tail (2 * associations.length * 4)) _ _
    apply Decodes.check (by omega)
    have hcount : 2 * associations.length * 4 / 4 / 2 = associations.length := by
      omega
    rw [hcount]
    apply (decodes_many associations fun a _ => decodes_association a).last
    exact decodes_pure _

theorem messageType_bounds (m : Message) :
    1 ≤ m.messageType.toNat ∧ m.messageType.toNat ≤ 4 := by
  cases m <;> simp [Message.messageType]

theorem decodes_deserialize (m : MessageHeader) (hsize : m.getSerializedSize < 2 ^ 16) :
    Decodes (deserialize tail) m.serialize (m, m.getSerializedSize) := by
  have hsum : m.getSerializedSize = 12 + m.message.getSerializedSize := rfl
  rw [MessageHeader.serialize]
  simp only [List.append_assoc, List.cons_append, List.nil_append]
  apply Decodes.readU8
  apply Decodes.check (messageType_bounds _)
  apply Decodes.readU8
  apply (decodes_readNtohU16 _).bind
  apply (decodes_readNtohU32 _).bind
  apply Decodes.readU8
  apply Decodes.readU8
  apply (decodes_readNtohU16 _).bind
  have hbody : ((UInt16.ofNat m.getSerializedSize).toNat + 2 ^ 32 - 12) % 2 ^ 32 =
      m.message.getSerializedSize := by
    rw [toNat_size hsize]
    omega
  rw [hbody]
  apply (decodes_message m.message (by omega)).last
  have hreturn : (12 + m.message.getSerializedSize) % 2 ^ 32 = m.getSerializedSize := by
    omega
  simp only [hreturn]
  exact decodes_pure _

theorem decodes_removeHeader (m : MessageHeader) (hsize : m.getSerializedSize < 2 ^ 16) :
    Decodes (removeHeader tail) m.serialize (m, m.getSerializedSize) := by
  intro rest
  unfold removeHeader
  simp only [decodes_deserialize m hsize rest]
  rw [← m.length_serialize, List.drop_left]

/-! ## A packet -/

theorem decodes_messageLoop (messages : List MessageHeader)
    (hsizes : ∀ m ∈ messages, m.getSerializedSize < 2 ^ 16) (fuel : ℕ)
    (hfuel : messages.length < fuel)
    (hsum : (messages.map MessageHeader.getSerializedSize).sum < 2 ^ 32) :
    Decodes (messageLoop tail fuel (messages.map MessageHeader.getSerializedSize).sum)
      (messages.flatMap MessageHeader.serialize) messages := by
  induction messages generalizing fuel with
  | nil =>
    obtain ⟨fuel, rfl⟩ : ∃ n, fuel = n + 1 := ⟨fuel - 1, by simp at hfuel; omega⟩
    exact decodes_pure []
  | cons m messages ih =>
    obtain ⟨fuel, rfl⟩ : ∃ n, fuel = n + 1 := ⟨fuel - 1, by simp at hfuel; omega⟩
    rw [List.map_cons, List.sum_cons] at hsum ⊢
    have hm := hsizes m List.mem_cons_self
    have hsize12 : m.getSerializedSize = 12 + m.message.getSerializedSize := rfl
    unfold messageLoop
    rw [if_neg (by omega), List.flatMap_cons]
    apply (decodes_removeHeader m hm).bind
    apply Decodes.check (by omega)
    have hleft : (m.getSerializedSize + (messages.map MessageHeader.getSerializedSize).sum +
        2 ^ 32 - m.getSerializedSize % 2 ^ 32) % 2 ^ 32 =
        (messages.map MessageHeader.getSerializedSize).sum := by
      omega
    simp only [hleft]
    apply (ih (fun m' hm' => hsizes m' (List.mem_cons_of_mem _ hm')) fuel
      (by simpa using hfuel) (by omega)).last
    exact decodes_pure _

theorem decodes_recvOlsr (seq : UInt16) (messages : List MessageHeader)
    (hsizes : ∀ m ∈ messages, m.getSerializedSize < 2 ^ 16)
    (hsum : 4 + (messages.map MessageHeader.getSerializedSize).sum < 2 ^ 16) :
    Decodes (recvOlsr tail) (sendPacket seq messages) (seq, messages) := by
  unfold sendPacket
  rw [List.append_assoc, length_messages]
  apply (decodes_readNtohU16 _).bind
  apply (decodes_readNtohU16 _).bind
  rw [toNat_size hsum, Nat.add_sub_cancel_left]
  apply Decodes.check (Nat.le_add_right _ _)
  refine Decodes.last (decodes_withLength fun n hn => ?_) (decodes_pure _)
  have hcount := length_le_sizes (f := MessageHeader.getSerializedSize)
    (fun _ => Nat.le_trans (by decide) (Nat.le_add_right 12 _)) messages
  rw [length_messages] at hn
  exact decodes_messageLoop messages hsizes _ (Nat.lt_succ_of_le (hcount.trans hn)) (by omega)

/-- The loop ends when the sizes of the messages are what was left, modulo its 32 bits. -/
theorem sum_of_messageLoop {fuel sizeLeft : ℕ} {bs rest : List UInt8}
    {messages : List MessageHeader} (hleft : sizeLeft < 2 ^ 32)
    (h : (messageLoop tail fuel sizeLeft).run bs = (.ok messages, rest)) :
    (messages.map MessageHeader.getSerializedSize).sum % 2 ^ 32 = sizeLeft := by
  induction fuel generalizing sizeLeft bs messages with
  | zero => cases h
  | succ fuel ih =>
    unfold messageLoop at h
    split at h
    · cases h
      simp [*]
    · obtain ⟨⟨m, size⟩, bs', -, h⟩ := ok_of_bind h
      obtain ⟨_, bs'', -, h⟩ := ok_of_bind h
      obtain ⟨messages', rest', hloop, h⟩ := ok_of_bind h
      cases h
      have hsum := ih (Nat.mod_lt _ (by decide)) hloop
      rw [List.map_cons, List.sum_cons]
      omega

theorem recvOlsr_sendPacket (tail : ℕ) (seq : UInt16) (messages : List MessageHeader)
    (hsizes : ∀ m ∈ messages, m.getSerializedSize < 2 ^ 16)
    (hsum : 4 + (messages.map MessageHeader.getSerializedSize).sum < 2 ^ 32) :
    (recvOlsr tail).run (sendPacket seq messages) = (.ok (seq, messages), []) ↔
      4 + (messages.map MessageHeader.getSerializedSize).sum < 2 ^ 16 := by
  constructor
  · intro h
    unfold recvOlsr sendPacket at h
    rw [List.append_assoc, length_messages, run_bind_ok (decodes_readNtohU16 _ _),
      run_bind_ok (decodes_readNtohU16 _ _)] at h
    obtain ⟨_, bs, -, h⟩ := ok_of_bind h
    obtain ⟨messages', rest, hloop, h⟩ := ok_of_bind h
    cases h
    have hloop : (messageLoop tail (bs.length + 1) _).run bs = _ := hloop
    have hlen := (UInt16.ofNat (4 + (messages.map MessageHeader.getSerializedSize).sum)).toNat_lt
    have hleft := sum_of_messageLoop (by omega) hloop
    have hmod : (UInt16.ofNat (4 + (messages.map MessageHeader.getSerializedSize).sum)).toNat =
        (4 + (messages.map MessageHeader.getSerializedSize).sum) % 2 ^ 16 := UInt16.toNat_ofNat'
    omega
  · intro h
    have hrun : (recvOlsr tail).run (sendPacket seq messages ++ []) = _ :=
      decodes_recvOlsr seq messages hsizes h []
    rwa [List.append_nil] at hrun

end Ns3.Olsr
