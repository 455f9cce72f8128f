import Ns3.Olsr.MessageBounds

/-!
# Packets of any bytes

The loops of the parser end on all data: each round takes a byte. A packet is
read in bounds exactly when the messages in it are well sized.
-/

namespace Ns3.Olsr

open Ns3.Lib Parser

variable {tail : ℕ} {bs : List UInt8}

/-! ## Enough rounds -/

theorem finishes_readNtohU16 (bs : List UInt8) : Finishes (readNtohU16 tail) bs :=
  (finishes_readBytes tail 2 bs).bind fun _ _ _ => finishes_pure _ _

theorem finishes_readNtohU32 (bs : List UInt8) : Finishes (readNtohU32 tail) bs :=
  (finishes_readBytes tail 4 bs).bind fun _ _ _ => finishes_pure _ _

theorem finishes_linkLoop (fuel left : ℕ) (hfuel : bs.length < fuel) :
    Finishes (linkLoop tail fuel left) bs := by
  induction fuel generalizing left bs with
  | zero => omega
  | succ fuel ih =>
    unfold linkLoop
    split
    · exact finishes_pure _ _
    apply Finishes.check
    intro _
    refine (finishes_readU8 bs).bind fun linkCode bs₁ h₁ => ?_
    refine (finishes_readU8 bs₁).bind fun _ bs₂ h₂ => ?_
    refine (finishes_readNtohU16 bs₂).bind fun lmSize bs₃ h₃ => ?_
    apply Finishes.check
    intro _
    have hread (count : ℤ) : Finishes (readAddresses tail count) bs₃ :=
      finishes_withLength (finishes_many finishes_readNtohU32 _ bs₃)
    refine (hread _).bind fun addresses bs₄ h₄ => ?_
    have hlen₁ := length_of_readU8 h₁
    have hlen₂ := length_of_run h₂
    have hlen₃ := length_of_run h₃
    have hlen₄ := length_of_run h₄
    exact (ih _ (by omega)).bind fun links bs₅ _ => finishes_pure _ _

theorem finishes_deserializeMessage (messageType : UInt8) (size : ℕ) (bs : List UInt8) :
    Finishes (deserializeMessage tail messageType size) bs := by
  unfold deserializeMessage
  split_ifs
  · apply Finishes.check
    intro _
    exact (finishes_many finishes_readNtohU32 _ bs).bind fun _ _ _ => finishes_pure _ _
  · apply Finishes.check
    intro _
    refine (finishes_readNtohU16 bs).bind fun _ bs₁ _ => ?_
    refine (finishes_readU8 bs₁).bind fun _ bs₂ _ => ?_
    refine (finishes_readU8 bs₂).bind fun _ bs₃ _ => ?_
    have hloop (left : ℕ) : Finishes (withLength fun n => linkLoop tail (n + 1) left) bs₃ :=
      finishes_withLength (finishes_linkLoop _ left (Nat.lt_succ_self _))
    exact (hloop _).bind fun _ _ _ => finishes_pure _ _
  · apply Finishes.check
    intro _
    refine (finishes_readNtohU16 bs).bind fun _ bs₁ _ => ?_
    refine (finishes_readNtohU16 bs₁).bind fun _ bs₂ _ => ?_
    apply Finishes.check
    intro _
    exact (finishes_many finishes_readNtohU32 _ bs₂).bind fun _ _ _ => finishes_pure _ _
  · apply Finishes.check
    intro _
    refine (finishes_many (fun bs => ?_) _ bs).bind fun _ _ _ => finishes_pure _ _
    refine (finishes_readNtohU32 bs).bind fun _ bs₁ _ => ?_
    exact (finishes_readNtohU32 bs₁).bind fun _ _ _ => finishes_pure _ _
  · exact fun h => (by cases h)

theorem finishes_deserialize (bs : List UInt8) : Finishes (deserialize tail) bs := by
  refine (finishes_readU8 bs).bind fun _ bs₁ _ => ?_
  apply Finishes.check
  intro _
  refine (finishes_readU8 bs₁).bind fun _ bs₂ _ => ?_
  refine (finishes_readNtohU16 bs₂).bind fun _ bs₃ _ => ?_
  refine (finishes_readNtohU32 bs₃).bind fun _ bs₄ _ => ?_
  refine (finishes_readU8 bs₄).bind fun _ bs₅ _ => ?_
  refine (finishes_readU8 bs₅).bind fun _ bs₆ _ => ?_
  refine (finishes_readNtohU16 bs₆).bind fun _ bs₇ _ => ?_
  exact (finishes_deserializeMessage _ _ bs₇).bind fun _ _ _ => finishes_pure _ _

theorem fst_removeHeader (bs : List UInt8) :
    ((removeHeader tail).run bs).1 = ((deserialize tail).run bs).1 := by
  unfold removeHeader
  dsimp only
  split
  · rename_i h
    rw [h]
  · rename_i h
    rw [h]

theorem run_removeHeader {m : MessageHeader} {size : ℕ} {rest : List UInt8}
    (h : (deserialize tail).run bs = (.ok (m, size), rest)) :
    (removeHeader tail).run bs = (.ok (m, size), bs.drop size) := by
  unfold removeHeader
  simp only [h]

/-- A message that is there takes a byte at least. -/
theorem length_of_removeHeader {m : MessageHeader} {size : ℕ} {rest : List UInt8}
    (h : (removeHeader tail).run bs = (.ok (m, size), rest)) (hsize : size ≠ 0) :
    rest.length < bs.length := by
  have hfst : ((deserialize tail).run bs).1 = .ok (m, size) := by
    rw [← fst_removeHeader, h]
  have hrun : (deserialize tail).run bs = (.ok (m, size), _) := Prod.ext hfst rfl
  rw [run_removeHeader hrun] at h
  cases h
  obtain ⟨b, bs', hread, -⟩ := ok_of_bind hrun
  have hlen := length_of_readU8 hread
  rw [List.length_drop]
  omega

theorem finishes_messageLoop (fuel sizeLeft : ℕ) (hfuel : bs.length < fuel) :
    Finishes (messageLoop tail fuel sizeLeft) bs := by
  induction fuel generalizing sizeLeft bs with
  | zero => omega
  | succ fuel ih =>
    unfold messageLoop
    split
    · exact finishes_pure _ _
    have hremove : Finishes (removeHeader tail) bs := by
      unfold Finishes
      rw [fst_removeHeader]
      exact finishes_deserialize bs
    refine hremove.bind fun x rest hrun => ?_
    obtain ⟨m, size⟩ := x
    apply Finishes.check
    intro hsize
    have hlen := length_of_removeHeader hrun hsize
    exact (ih _ (by omega)).bind fun messages _ _ => finishes_pure _ _

theorem finishes_recvOlsr (tail : ℕ) (bs : List UInt8) : Finishes (recvOlsr tail) bs := by
  refine (finishes_readNtohU16 bs).bind fun packetLength bs₁ _ => ?_
  refine (finishes_readNtohU16 bs₁).bind fun _ bs₂ _ => ?_
  apply Finishes.check
  intro _
  have hloop (left : ℕ) : Finishes (withLength fun n => messageLoop tail (n + 1) left) bs₂ :=
    finishes_withLength (finishes_messageLoop _ left (Nat.lt_succ_self _))
  exact (hloop _).bind fun _ _ _ => finishes_pure _ _

/-! ## The messages of a packet -/

/-- What `sizeLeft -= GetSerializedSize ()` leaves. -/
def sizeLeftAfter (sizeLeft : ℕ) (m : MessageHeader) : ℕ :=
  (sizeLeft + 2 ^ 32 - m.getSerializedSize % 2 ^ 32) % 2 ^ 32

/-- Every message that the loop reads is read in bounds. -/
inductive InBounds (tail : ℕ) : ℕ → List UInt8 → Prop
  | done (bs : List UInt8) : InBounds tail 0 bs
  | message {sizeLeft : ℕ} {bs : List UInt8} (hleft : 0 < sizeLeft)
    (hmessage : MessageInBounds tail sizeLeft bs)
    (hrest : ∀ m size rest, (removeHeader tail).run bs = (.ok (m, size), rest) →
      InBounds tail (sizeLeftAfter sizeLeft m) rest) : InBounds tail sizeLeft bs

/-- The sizes of the messages stay inside, up to a message at which the parser stops. -/
inductive WellSized (tail : ℕ) : ℕ → List UInt8 → Prop
  | done (bs : List UInt8) : WellSized tail 0 bs
  | stops {sizeLeft : ℕ} {bs : List UInt8} (hleft : 0 < sizeLeft)
    (hextent : messageExtent tail sizeLeft bs = .stops) : WellSized tail sizeLeft bs
  | whole {sizeLeft : ℕ} {bs : List UInt8} (hleft : 0 < sizeLeft)
    (hextent : messageExtent tail sizeLeft bs = .whole)
    (hrest : WellSized tail (sizeLeft - sizeAt bs 2) (bs.drop (sizeAt bs 2))) :
    WellSized tail sizeLeft bs

/-- A message that is there whole leaves what its size says. -/
theorem whole_message {sizeLeft : ℕ} (hleft : 0 < sizeLeft) (h32 : sizeLeft < 2 ^ 32)
    (hextent : messageExtent tail sizeLeft bs = .whole) :
    MessageInBounds tail sizeLeft bs ∧ sizeAt bs 2 ≠ 0 ∧ ∃ m,
      (removeHeader tail).run bs = (.ok (m, sizeAt bs 2), bs.drop (sizeAt bs 2)) ∧
      sizeLeftAfter sizeLeft m = sizeLeft - sizeAt bs 2 := by
  have hends := endsMessage tail bs hleft
  rw [hextent] at hends
  obtain ⟨hin, m, rest, hrun, hm, h12, hle⟩ := hends
  refine ⟨hin, by omega, m, run_removeHeader hrun, ?_⟩
  unfold sizeLeftAfter
  rw [hm]
  omega

theorem stops_message {sizeLeft : ℕ} (hleft : 0 < sizeLeft)
    (hextent : messageExtent tail sizeLeft bs = .stops) :
    MessageInBounds tail sizeLeft bs ∧ ((removeHeader tail).run bs).1 = .assertion := by
  have hends := endsMessage tail bs hleft
  rw [hextent] at hends
  rw [fst_removeHeader]
  exact hends

theorem inBounds_iff {sizeLeft : ℕ} (h32 : sizeLeft < 2 ^ 32) :
    InBounds tail sizeLeft bs ↔ WellSized tail sizeLeft bs := by
  constructor
  · intro h
    induction h with
    | done bs => exact .done bs
    | @message sizeLeft bs hleft hmessage _ ih =>
      cases hextent : messageExtent tail sizeLeft bs with
      | beyond =>
        have hends := endsMessage tail bs hleft
        rw [hextent] at hends
        exact absurd hmessage hends
      | stops => exact .stops hleft hextent
      | whole =>
        obtain ⟨-, -, m, hrun, hafter⟩ := whole_message hleft h32 hextent
        refine .whole hleft hextent ?_
        rw [← hafter]
        exact ih m _ _ hrun (Nat.mod_lt _ (by decide))
  · intro h
    induction h with
    | done bs => exact .done bs
    | stops hleft hextent =>
      obtain ⟨hin, hstop⟩ := stops_message hleft hextent
      refine .message hleft hin fun m size rest hrun => ?_
      rw [hrun] at hstop
      cases hstop
    | whole hleft hextent _ ih =>
      obtain ⟨hin, -, m, hrun, hafter⟩ := whole_message hleft h32 hextent
      refine .message hleft hin fun m' size rest hrun' => ?_
      rw [hrun] at hrun'
      cases hrun'
      rw [hafter]
      exact ih (by omega)

/-- On well sized messages the loop comes to a value or to an assertion. -/
theorem messageLoop_of_wellSized {sizeLeft fuel : ℕ} (h : WellSized tail sizeLeft bs)
    (h32 : sizeLeft < 2 ^ 32) (hfuel : bs.length < fuel) :
    ((messageLoop tail fuel sizeLeft).run bs).1 ≠ .overrun := by
  induction h generalizing fuel with
  | done bs =>
    obtain ⟨fuel, rfl⟩ : ∃ n, fuel = n + 1 := ⟨fuel - 1, by omega⟩
    exact fun h => (by cases h)
  | @stops sizeLeft bs hleft hextent =>
    obtain ⟨fuel, rfl⟩ : ∃ n, fuel = n + 1 := ⟨fuel - 1, by omega⟩
    obtain ⟨-, hstop⟩ := stops_message hleft hextent
    have hrun : (removeHeader tail).run bs = (.assertion, _) := Prod.ext hstop rfl
    unfold messageLoop
    rw [if_neg (by omega), run_bind, bindRun, hrun]
    exact fun h => (by cases h)
  | @whole sizeLeft bs hleft hextent _ ih =>
    obtain ⟨fuel, rfl⟩ : ∃ n, fuel = n + 1 := ⟨fuel - 1, by omega⟩
    obtain ⟨-, hsize, m, hrun, hafter⟩ := whole_message hleft h32 hextent
    have hlen := length_of_removeHeader hrun hsize
    have hcheck : check (sizeAt bs 2 ≠ 0) = pure () := if_pos hsize
    unfold messageLoop
    rw [if_neg (by omega), run_bind_ok hrun]
    dsimp only
    rw [hcheck, run_bind_ok (run_pure () _)]
    refine ne_overrun_bind ?_ fun _ _ _ h => (by cases h)
    unfold sizeLeftAfter at hafter
    rw [hafter]
    exact ih (by omega) (by omega)

/-! ## Whole packets -/

/-- The packet is parsed to the end or to an assertion, and every message in bounds. -/
def Robust (tail : ℕ) (bs : List UInt8) : Prop :=
  (((recvOlsr tail).run bs).1 = .assertion ∨ ∃ p, ((recvOlsr tail).run bs).1 = .ok p) ∧
    (4 ≤ bs.length → 4 ≤ sizeAt bs 0 → InBounds tail (sizeAt bs 0 - 4) (bs.drop 4))

def PacketWellSized (tail : ℕ) (bs : List UInt8) : Prop :=
  if 4 ≤ bs.length then 4 ≤ sizeAt bs 0 → WellSized tail (sizeAt bs 0 - 4) (bs.drop 4)
  else fieldsExtent tail bs.length bs.length [2, 2] = .stops

/-- With its header there, the packet is the loop over the rest. -/
theorem run_recvOlsr (tail : ℕ) (hlen : 4 ≤ bs.length) : ∃ seq : UInt16, (recvOlsr tail).run bs =
    (check (4 ≤ sizeAt bs 0) >>= fun _ =>
      withLength (fun length => messageLoop tail (length + 1) (sizeAt bs 0 - 4)) >>= fun ms =>
      pure (seq, ms)).run (bs.drop 4) := by
  obtain ⟨a, b, c, d, rest, rfl⟩ : ∃ a b c d rest, bs = a :: b :: c :: d :: rest := by
    match bs, hlen with
    | a :: b :: c :: d :: rest, _ => exact ⟨a, b, c, d, rest, rfl⟩
  have hword (x y : UInt8) (bs : List UInt8) : (readNtohU16 tail).run (x :: y :: bs) =
      (.ok (UInt16.ofNat (bigEndian [x, y])), bs) :=
    run_bind_ok (decodes_readBytes tail [x, y] bs)
  refine ⟨UInt16.ofNat (bigEndian [c, d]), ?_⟩
  unfold recvOlsr
  rw [run_bind_ok (hword a b _), run_bind_ok (hword c d _)]
  rfl

theorem recvOlsr_of_wellSized (hlen : 4 ≤ bs.length)
    (h : 4 ≤ sizeAt bs 0 → WellSized tail (sizeAt bs 0 - 4) (bs.drop 4)) :
    ((recvOlsr tail).run bs).1 ≠ .overrun := by
  have h16 : sizeAt bs 0 < 2 ^ 16 := UInt16.toNat_lt _
  obtain ⟨seq, hrun⟩ := run_recvOlsr tail hlen
  rw [hrun]
  by_cases hsize : 4 ≤ sizeAt bs 0
  · have hcheck : check (4 ≤ sizeAt bs 0) = pure () := if_pos hsize
    rw [hcheck, run_bind_ok (run_pure () _)]
    refine ne_overrun_bind ?_ fun _ _ _ h => (by cases h)
    exact messageLoop_of_wellSized (h hsize) (by omega) (Nat.lt_succ_self _)
  · have hcheck : check (4 ≤ sizeAt bs 0) = stop .assertion := if_neg hsize
    rw [hcheck]
    exact fun h => (by cases h)

theorem stops_of_short (tail : ℕ) (hlen : ¬ 4 ≤ bs.length) :
    ((recvOlsr tail).run bs).1 = .assertion ∧
    fieldsExtent tail bs.length bs.length [2, 2] = .stops ∨
    ((recvOlsr tail).run bs).1 = .overrun ∧
    fieldsExtent tail bs.length bs.length [2, 2] = .beyond := by
  have hends : Ends bs.length bs (recvOlsr tail) (fun _ _ => True)
      ((fieldsExtent tail bs.length bs.length [2, 2]).andThen .stops) := by
    apply takes_readNtohU16.andThen
    intro hlen₁ _
    apply takes_readNtohU16.andThen
    intro hlen₂ _
    rw [List.length_drop] at hlen₂
    omega
  cases hextent : fieldsExtent tail bs.length bs.length [2, 2] with
  | beyond =>
    rw [hextent] at hends
    exact .inr ⟨by_contra fun h => hends (within_length.mpr h), rfl⟩
  | stops =>
    rw [hextent] at hends
    exact .inl ⟨hends.2, rfl⟩
  | whole => exact absurd (fieldsExtent_eq_whole.mp hextent).1 hlen

theorem robust_iff (tail : ℕ) (bs : List UInt8) :
    Robust tail bs ↔ PacketWellSized tail bs := by
  have h16 : sizeAt bs 0 < 2 ^ 16 := UInt16.toNat_lt _
  have hfinishes := finishes_recvOlsr tail bs
  unfold Robust PacketWellSized
  split_ifs with hlen
  · rw [← forall_congr' fun hsize => inBounds_iff (by omega)]
    refine ⟨fun h => h.2 hlen, fun h => ⟨?_, fun _ => h⟩⟩
    have hne := recvOlsr_of_wellSized hlen fun hsize => (inBounds_iff (by omega)).mp (h hsize)
    unfold Finishes at hfinishes
    generalize ((recvOlsr tail).run bs).1 = o at hfinishes hne ⊢
    cases o with
    | ok p => exact .inr ⟨p, rfl⟩
    | assertion => exact .inl rfl
    | overrun => exact absurd rfl hne
    | unfinished => exact absurd rfl hfinishes
  · rcases stops_of_short tail hlen with ⟨hrun, hextent⟩ | ⟨hrun, hextent⟩
    · rw [hrun, hextent]
      exact ⟨fun _ => rfl, fun _ => ⟨.inl rfl, fun h => absurd h hlen⟩⟩
    · rw [hrun, hextent]
      refine ⟨fun h => ?_, fun h => (by cases h)⟩
      rcases h.1 with h | ⟨p, h⟩ <;> cases h

/-- A packet of messages is read back when its length fits, and any packet at all is
read in bounds when its sizes stay inside. -/
theorem recvOlsr_iff (tail : ℕ) :
    (∀ (seq : UInt16) (messages : List MessageHeader),
      (∀ m ∈ messages, m.getSerializedSize < 2 ^ 16) →
      4 + (messages.map MessageHeader.getSerializedSize).sum < 2 ^ 32 →
      ((recvOlsr tail).run (sendPacket seq messages) = (.ok (seq, messages), []) ↔
        4 + (messages.map MessageHeader.getSerializedSize).sum < 2 ^ 16)) ∧
    ∀ bs : List UInt8, ((recvOlsr tail).run bs).1 ≠ .unfinished ∧
      (Robust tail bs ↔ PacketWellSized tail bs) :=
  ⟨recvOlsr_sendPacket tail, fun bs => ⟨finishes_recvOlsr tail bs, robust_iff tail bs⟩⟩

/-- A HELLO whose link message has a size of 8 where 4 bytes are left of it. -/
def longLink : List UInt8 :=
  [0, 24, 0, 0, 1, 0, 0, 20, 10, 0, 0, 1, 1, 0, 0, 0, 0, 0, 0, 3, 0, 0, 0, 8]

/-- Nothing checks that the addresses of a link message are there. -/
theorem longLink_overrun : ((recvOlsr 0).run longLink).1 = .overrun ∧ ¬ Robust 0 longLink := by
  have hrun : ((recvOlsr 0).run longLink).1 = .overrun := by decide +kernel
  refine ⟨hrun, fun h => ?_⟩
  unfold Robust at h
  rw [hrun] at h
  rcases h.1 with h | ⟨p, h⟩ <;> cases h

end Ns3.Olsr
