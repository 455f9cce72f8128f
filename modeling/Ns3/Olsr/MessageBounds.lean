import Ns3.Lib.Words
import Mathlib.Tactic.SplitIfs
import Ns3.Olsr.MessageRoundTrip

/-!
# Length fields that stay inside

What the sizes in a packet lead to: `messageExtent` follows the fields of one
message and `WellSized` the messages of a packet. The parser stays inside of
the packet, of the message and of the data exactly on the packets that are
well sized.
-/

namespace Ns3.Olsr

open Ns3.Lib Parser

/-- The 16 bits at `i`. -/
def sizeAt (bs : List UInt8) (i : ℕ) : ℕ :=
  (UInt16.ofNat (bigEndian ((bs.drop i).take 2))).toNat

/-- The first byte is a type of message. -/
def TypeOk (bs : List UInt8) : Prop := 1 ≤ (bs.headD 0).toNat ∧ (bs.headD 0).toNat ≤ 4

instance TypeOk.decidable (bs : List UInt8) : Decidable (TypeOk bs) :=
  inferInstanceAs (Decidable (_ ∧ _))

/-! ## The extent of a message -/

section Extent

variable (tail : ℕ)

/-- The link messages, where `left` bytes are left of the HELLO and `L` may be read. -/
def linksExtent : ℕ → ℕ → ℕ → List UInt8 → Extent
  | 0, _, _, _ => .whole
  | fuel + 1, left, L, bs =>
    if left = 0 then .whole else
      let lmSize := sizeAt bs 2
      let count := if 4 ≤ lmSize then (lmSize - 4) / 4 else bs.length - 4 + 1
      (checkExtent (4 ≤ left)).andThen <| (fieldsExtent tail L bs.length [1, 1, 2]).andThen <|
        (checkExtent (lmSize % 4 = 0)).andThen <|
        (fieldsExtent tail (L - 4) (bs.length - 4) (List.replicate count 4)).andThen <|
        linksExtent fuel (left - lmSize) (L - lmSize) (bs.drop lmSize)

def helloExtent (L size : ℕ) (bs : List UInt8) : Extent :=
  (checkExtent (4 ≤ size)).andThen <| (fieldsExtent tail L bs.length [2, 1, 1]).andThen <|
    linksExtent tail (bs.length - 4 + 1) (size - 4) (L - 4) (bs.drop 4)

def tcExtent (L size r : ℕ) : Extent :=
  (checkExtent (4 ≤ size)).andThen <| (fieldsExtent tail L r [2, 2]).andThen <|
    (checkExtent ((size - 4) % 4 = 0)).andThen <|
    fieldsExtent tail (L - 4) (r - 4) (List.replicate ((size - 4) / 4) 4)

def midExtent (L size r : ℕ) : Extent :=
  (checkExtent (size % 4 = 0)).andThen <|
    fieldsExtent tail L r (List.replicate (size / 4) 4)

def hnaExtent (L size r : ℕ) : Extent :=
  (checkExtent (size % 8 = 0)).andThen <|
    fieldsExtent tail L r (List.replicate (size / 4 / 2) [4, 4]).flatten

def bodyExtent (messageType : UInt8) (L size : ℕ) (bs : List UInt8) : Extent :=
  if messageType = 3 then midExtent tail L size bs.length
  else if messageType = 1 then helloExtent tail L size bs
  else if messageType = 2 then tcExtent tail L size bs.length
  else if messageType = 4 then hnaExtent tail L size bs.length
  else .stops

/-- What may be read of a message: what is left of the packet, and of the message once
its size is known. -/
def messageBound (sizeLeft : ℕ) (bs : List UInt8) : ℕ :=
  if bs.length < 4 then sizeLeft else min sizeLeft (sizeAt bs 2)

/-- The message at the front of `bs`, where `sizeLeft` bytes are left of the packet. -/
def messageExtent (sizeLeft : ℕ) (bs : List UInt8) : Extent :=
  let L := messageBound sizeLeft bs
  (checkExtent (bs ≠ [])).andThen <|
    (checkExtent (TypeOk bs)).andThen <|
    (fieldsExtent tail L bs.length [1, 1, 2, 4, 1, 1, 2]).andThen <|
    bodyExtent tail (bs.headD 0) (L - 12) (sizeAt bs 2 - 12) (bs.drop 12)

end Extent

variable {tail L : ℕ} {bs : List UInt8}

/-! ## The parsers of the parts -/

theorem takes_readNtohU16 : Takes tail (readNtohU16 tail) 2
    fun bs => UInt16.ofNat (bigEndian (bs.take 2)) :=
  (takes_readBytes (by decide)).map fun bs => UInt16.ofNat (bigEndian bs)

theorem takes_readNtohU32 : Takes tail (readNtohU32 tail) 4
    fun bs => UInt32.ofNat (bigEndian (bs.take 4)) :=
  (takes_readBytes (by decide)).map fun bs => UInt32.ofNat (bigEndian bs)

theorem ends_addresses (n : ℕ) : Ends L bs (many (readNtohU32 tail) n)
    (fun as rest => as.length = n ∧ rest = bs.drop (n * 4))
    (fieldsExtent tail L bs.length (List.replicate n 4)) := by
  rw [← List.flatten_replicate_singleton]
  exact ends_many takes_readNtohU32.reads n

theorem reads_association : Reads tail (readAssociation tail) [4, 4] :=
  takes_readNtohU32.reads.bind fun _ => takes_readNtohU32.reads.map fun _ => _

/-- What a body that is read whole says about its sizes. -/
def Fills (L size : ℕ) (x : Message × ℕ) : Prop :=
  x.2 = size ∧ x.1.getSerializedSize = size ∧ size ≤ L

theorem ends_deserializeMid (size : ℕ) : Ends L bs (deserializeMid tail size)
    (fun x _ => Fills L size x) (midExtent tail L size bs.length) := by
  apply Ends.check
  intro hsize
  rw [← Extent.andThen_whole (fieldsExtent _ _ _ _)]
  refine (ends_addresses _).bind fun as rest hwhole has => ends_pure ?_
  have hsum := (fieldsExtent_eq_whole.mp hwhole).2
  rw [List.sum_replicate_nat] at hsum
  have hlen : as.length * 4 = size := by
    rw [has.1]
    omega
  exact ⟨hlen, hlen, by omega⟩

theorem ends_deserializeTc (size : ℕ) : Ends L bs (deserializeTc tail size)
    (fun x _ => Fills L size x) (tcExtent tail L size bs.length) := by
  apply Ends.check
  intro hsize
  apply takes_readNtohU16.andThen
  intro hlen hL
  apply takes_readNtohU16.andThen
  intro hlen' hL'
  apply Ends.check
  intro hwords
  rw [List.drop_drop, Nat.sub_sub, ← Extent.andThen_whole (fieldsExtent _ _ _ (List.replicate _ _)),
    ← List.length_drop]
  refine (ends_addresses _).bind fun as rest hwhole has => ends_pure ?_
  have hsum := (fieldsExtent_eq_whole.mp hwhole).2
  rw [List.sum_replicate_nat] at hsum
  have hcount : 4 + as.length * 4 = size := by
    rw [has.1]
    omega
  exact ⟨rfl, hcount, by omega⟩

theorem ends_deserializeHna (size : ℕ) : Ends L bs (deserializeHna tail size)
    (fun x _ => Fills L size x) (hnaExtent tail L size bs.length) := by
  apply Ends.check
  intro hsize
  rw [← Extent.andThen_whole (fieldsExtent _ _ _ _)]
  refine (ends_many reads_association _).bind fun as rest hwhole has => ends_pure ?_
  have hsum := (fieldsExtent_eq_whole.mp hwhole).2
  rw [List.sum_flatten, List.map_replicate, List.sum_replicate_nat] at hsum
  have hsum : size / 4 / 2 * 8 ≤ L := hsum
  have hlen : 2 * as.length * 4 = size := by
    rw [has.1]
    omega
  exact ⟨rfl, hlen, by omega⟩

/-! ## The loop of a HELLO -/

theorem tmod_four (n : ℕ) : ((n : ℤ) - 4).tmod 4 = 0 ↔ n % 4 = 0 := by
  rw [← Int.dvd_iff_tmod_eq_zero]
  omega

/-- A size of zero makes the count negative. -/
theorem addressCount {n : ℕ} (h : n % 4 = 0) (length : ℕ) :
    (if 0 ≤ ((n : ℤ) - 4).tdiv 4 then (((n : ℤ) - 4).tdiv 4).toNat else length + 1) =
      if 4 ≤ n then (n - 4) / 4 else length + 1 := by
  obtain ⟨k, rfl⟩ := Nat.dvd_of_mod_eq_zero h
  have hk : ((4 * k : ℕ) : ℤ) - 4 = 4 * ((k : ℤ) - 1) := by
    omega
  rw [hk, Int.mul_tdiv_cancel_left _ (by decide)]
  split_ifs <;> omega

theorem ends_readAddresses {n : ℕ} (h : n % 4 = 0) :
    Ends L bs (readAddresses tail (((n : ℤ) - 4).tdiv 4))
      (fun as rest => 4 + 4 * as.length = n ∧ n - 4 ≤ L ∧ n - 4 ≤ bs.length ∧
        rest = bs.drop (n - 4))
      (fieldsExtent tail L bs.length
        (List.replicate (if 4 ≤ n then (n - 4) / 4 else bs.length + 1) 4)) := by
  apply ends_withLength
  rw [addressCount h]
  refine (ends_addresses _).mono fun hwhole as rest has => ?_
  obtain ⟨hlen, hL⟩ := fieldsExtent_eq_whole.mp hwhole
  rw [List.sum_replicate_nat] at hlen hL
  split_ifs at * with hn
  · have hcount : as.length * 4 = n - 4 := by
      rw [has.1]
      omega
    rw [has.2, ← has.1, hcount]
    exact ⟨by omega, by omega, by omega, rfl⟩
  · omega

theorem ends_linkLoop (fuel left : ℕ) (hfuel : bs.length < fuel) (hleft : left < 2 ^ 16)
    (hL : L ≤ left) : Ends L bs (linkLoop tail fuel left)
      (fun links _ => (links.map LinkMessage.getSerializedSize).sum = left ∧ left ≤ L)
      (linksExtent tail fuel left L bs) := by
  induction fuel generalizing left L bs with
  | zero => omega
  | succ fuel ih =>
    unfold linkLoop linksExtent
    by_cases hzero : left = 0
    · rw [if_pos hzero, if_pos hzero, hzero]
      exact ends_pure ⟨rfl, Nat.zero_le L⟩
    rw [if_neg hzero, if_neg hzero]
    apply Ends.check
    intro hleft4
    apply takes_readU8.andThen
    intro hlen hL
    apply takes_readU8.andThen
    intro hlen' hL'
    apply takes_readNtohU16.andThen
    intro hlen'' hL''
    simp only [List.drop_drop, List.length_drop, Nat.sub_sub] at hlen' hlen'' hL' hL'' ⊢
    have hsize : (UInt16.ofNat (bigEndian ((bs.drop 2).take 2))).toNat = sizeAt bs 2 := rfl
    rw [hsize, ← checkExtent_congr (tmod_four (sizeAt bs 2))]
    generalize sizeAt bs 2 = lmSize
    apply Ends.check
    intro hwords
    have hwords := (tmod_four lmSize).mp hwords
    have hread : Ends (L - 4) (bs.drop 4) (readAddresses tail _) _ _ := ends_readAddresses hwords
    rw [List.length_drop] at hread
    refine hread.bind fun as rest _ has => ?_
    obtain ⟨hcount, hin, hthere, rfl⟩ := has
    have hfour : 4 ≤ lmSize := hcount ▸ Nat.le_add_right 4 _
    have hle : lmSize ≤ left := by omega
    have hused : (bs.drop 4).length - ((bs.drop 4).drop (lmSize - 4)).length = lmSize - 4 := by
      rw [List.length_drop (i := lmSize - 4), List.length_drop, Nat.sub_sub_self hthere]
    rw [sub_mod_of_le hle hleft, hused, Nat.sub_sub, List.drop_drop, Nat.add_sub_of_le hfour,
      ← Extent.andThen_whole (linksExtent _ _ _ _ _)]
    have hrest : (bs.drop lmSize).length < fuel := by
      rw [List.length_drop]
      omega
    refine (ih (left - lmSize) hrest (by omega) (by omega)).bind fun links _ _ hlinks =>
      ends_pure ?_
    rw [List.map_cons, List.sum_cons, hlinks.1, LinkMessage.getSerializedSize, hcount]
    exact ⟨Nat.add_sub_of_le hle, by omega⟩

theorem ends_deserializeHello {size : ℕ} (hsize : size < 2 ^ 16) (hL : L ≤ size) :
    Ends L bs (deserializeHello tail size) (fun x _ => Fills L size x)
      (helloExtent tail L size bs) := by
  apply Ends.check
  intro hsize4
  apply takes_readNtohU16.andThen
  intro hlen hL
  apply takes_readU8.andThen
  intro hlen' hL'
  apply takes_readU8.andThen
  intro hlen'' hL''
  have hleft : (size + 2 ^ 16 - 4) % 2 ^ 16 = size - 4 := sub_mod_of_le hsize4 hsize
  simp only [List.drop_drop, List.length_drop, Nat.sub_sub] at hlen' hlen'' hL' hL'' ⊢
  rw [hleft]
  have hloop : Ends (L - 4) (bs.drop 4) (withLength fun length =>
      linkLoop tail (length + 1) (size - 4)) _ _ :=
    ends_withLength (ends_linkLoop _ (size - 4) (Nat.lt_succ_self _) (by omega) (by omega))
  rw [List.length_drop] at hloop
  show Ends (L - 4) (bs.drop 4) _ _ (linksExtent _ _ _ _ _)
  rw [← Extent.andThen_whole (linksExtent _ _ _ _ _)]
  refine hloop.bind fun links _ _ hlinks => ends_pure ⟨rfl, ?_, by omega⟩
  rw [Message.getSerializedSize, hlinks.1]
  omega

theorem ends_deserializeMessage (messageType : UInt8) {size : ℕ} (hsize : size < 2 ^ 16)
    (hL : L ≤ size) : Ends L bs (deserializeMessage tail messageType size)
      (fun x _ => Fills L size x) (bodyExtent tail messageType L size bs) := by
  unfold deserializeMessage bodyExtent
  split_ifs
  · exact ends_deserializeMid size
  · exact ends_deserializeHello hsize hL
  · exact ends_deserializeTc size
  · exact ends_deserializeHna size
  · exact ⟨within_stop.mpr fun h => (by cases h), rfl⟩

/-! ## A message -/

theorem ends_deserialize (tail : ℕ) (htype : TypeOk bs) (hL : 4 ≤ bs.length → L ≤ sizeAt bs 2) :
    Ends L bs (deserialize tail) (fun x _ => x.2 = sizeAt bs 2 ∧
        x.1.getSerializedSize = sizeAt bs 2 ∧ 12 ≤ sizeAt bs 2 ∧ sizeAt bs 2 ≤ L)
      ((fieldsExtent tail L bs.length [1, 1, 2, 4, 1, 1, 2]).andThen
        (bodyExtent tail (bs.headD 0) (L - 12) (sizeAt bs 2 - 12) (bs.drop 12))) := by
  apply takes_readU8.andThen
  intro hlen₁ hL₁
  apply Ends.check_pos htype
  apply takes_readU8.andThen
  intro hlen₂ hL₂
  apply takes_readNtohU16.andThen
  intro hlen₃ hL₃
  apply takes_readNtohU32.andThen
  intro hlen₄ hL₄
  apply takes_readU8.andThen
  intro hlen₅ hL₅
  apply takes_readU8.andThen
  intro hlen₆ hL₆
  apply takes_readNtohU16.andThen
  intro hlen₇ hL₇
  simp only [List.drop_drop, List.length_drop] at hlen₂ hlen₃ hlen₄ hlen₅ hlen₆ hlen₇
  simp only [Nat.sub_sub] at hL₂ hL₃ hL₄ hL₅ hL₆ hL₇
  simp only [List.drop_drop, List.length_drop, Nat.sub_sub]
  have hin := hL (by omega)
  have hsize : (UInt16.ofNat (bigEndian ((bs.drop (1 + 1)).take 2))).toNat = sizeAt bs 2 := rfl
  have hsize16 : sizeAt bs 2 < 2 ^ 16 := UInt16.toNat_lt _
  rw [hsize]
  generalize sizeAt bs 2 = size at hin hsize16 ⊢
  have h12 : 12 ≤ size := by omega
  clear hL₁ hL₂ hL₃ hL₄ hL₅ hL₆ hlen₁ hlen₂ hlen₃ hlen₄ hlen₅ hlen₆ hlen₇
  rw [sub_mod_of_le h12 (hsize16.trans (by decide))]
  show Ends (L - 12) (bs.drop 12) _ _ (bodyExtent _ _ _ _ _)
  rw [← Extent.andThen_whole (bodyExtent _ _ _ _ _)]
  refine (ends_deserializeMessage _ (by omega) (by omega)).bind fun x rest _ hx => ?_
  obtain ⟨m, n⟩ := x
  obtain ⟨hn, hm, hfill⟩ := hx
  dsimp only at hn hm
  refine ends_pure ⟨?_, ?_, ?_, ?_⟩
  · dsimp only
    omega
  · rw [MessageHeader.getSerializedSize, hm, Nat.add_sub_of_le h12]
  · exact h12
  · omega

/-- The message at the front of `bs` is read within the packet and its own size. -/
def MessageInBounds (tail sizeLeft : ℕ) (bs : List UInt8) : Prop :=
  Within sizeLeft bs (deserialize tail) ∧
    (4 ≤ (deserialize tail).used bs → (deserialize tail).used bs ≤ sizeAt bs 2)

/-- With a good type the first four bytes are read, or all there are. -/
theorem used_deserialize (tail : ℕ) (htype : TypeOk bs) (hlen : 4 ≤ bs.length) :
    4 ≤ (deserialize tail).used bs := by
  obtain ⟨t, v, b₁, b₀, rest, rfl⟩ : ∃ t v b₁ b₀ rest, bs = t :: v :: b₁ :: b₀ :: rest := by
    match bs, hlen with
    | t :: v :: b₁ :: b₀ :: rest, _ => exact ⟨t, v, b₁, b₀, rest, rfl⟩
  have hcheck : check (1 ≤ t.toNat ∧ t.toNat ≤ 4) = pure () := if_pos htype
  have hword : (readNtohU16 tail).run (b₁ :: b₀ :: rest) =
      (.ok (UInt16.ofNat (bigEndian [b₁, b₀])), rest) :=
    run_bind_ok (decodes_readBytes tail [b₁, b₀] rest)
  obtain ⟨P, hrun⟩ : ∃ P : Parser (MessageHeader × ℕ),
      (deserialize tail).run (t :: v :: b₁ :: b₀ :: rest) = P.run rest := by
    unfold deserialize
    rw [run_bind_ok (run_readU8 t _), run_bind_ok (by rw [hcheck, run_pure]),
      run_bind_ok (run_readU8 v _), run_bind_ok hword]
    exact ⟨_, rfl⟩
  have hrest := (P.suffix rest).length_le
  rw [used, hrun]
  simp only [List.length_cons]
  omega

theorem messageInBounds_iff {sizeLeft : ℕ} (htype : TypeOk bs) :
    MessageInBounds tail sizeLeft bs ↔
      Within (messageBound sizeLeft bs) bs (deserialize tail) := by
  unfold MessageInBounds Within messageBound
  have hused : (deserialize tail).used bs ≤ bs.length := Nat.sub_le _ _
  by_cases hlen : bs.length < 4
  · rw [if_pos hlen]
    exact ⟨And.left, fun h => ⟨h, fun h4 => absurd (h4.trans hused) (Nat.not_le_of_lt hlen)⟩⟩
  · have h4 := used_deserialize tail htype (Nat.le_of_not_lt hlen)
    rw [if_neg hlen, Nat.le_min]
    exact ⟨fun h => ⟨h.1.1, h.1.2, h.2 h4⟩, fun h => ⟨⟨h.1, h.2.1⟩, fun _ => h.2.2⟩⟩

/-- Without a message type the first byte is all that is read. -/
theorem stops_of_type {sizeLeft : ℕ} (hleft : 0 < sizeLeft) (h : ¬ (bs ≠ [] ∧ TypeOk bs)) :
    MessageInBounds tail sizeLeft bs ∧ ((deserialize tail).run bs).1 = .assertion := by
  cases bs with
  | nil => exact ⟨⟨⟨fun h => (by cases h), Nat.zero_le _⟩, fun _ => Nat.zero_le _⟩, rfl⟩
  | cons t rest =>
    have htype : ¬ (1 ≤ t.toNat ∧ t.toNat ≤ 4) := fun ht => h ⟨List.cons_ne_nil _ _, ht⟩
    have hcheck : check (1 ≤ t.toNat ∧ t.toNat ≤ 4) = stop .assertion := if_neg htype
    have hrun : (deserialize tail).run (t :: rest) = (.assertion, rest) := by
      unfold deserialize
      rw [run_bind_ok (run_readU8 t _), run_bind, bindRun, hcheck]
      rfl
    have hused : (deserialize tail).used (t :: rest) = 1 := by
      rw [used, hrun]
      exact Nat.add_sub_cancel_left rest.length 1
    unfold MessageInBounds Within
    rw [hrun, hused]
    exact ⟨⟨⟨fun h => (by cases h), hleft⟩, fun h => absurd h (by decide)⟩, rfl⟩

/-- The message reads too far, stops at an assertion, or is there with the size it gives. -/
def EndsMessage (tail sizeLeft : ℕ) (bs : List UInt8) : Extent → Prop
  | .beyond => ¬ MessageInBounds tail sizeLeft bs
  | .stops => MessageInBounds tail sizeLeft bs ∧ ((deserialize tail).run bs).1 = .assertion
  | .whole => MessageInBounds tail sizeLeft bs ∧ ∃ m rest,
      (deserialize tail).run bs = (.ok (m, sizeAt bs 2), rest) ∧
      m.getSerializedSize = sizeAt bs 2 ∧ 12 ≤ sizeAt bs 2 ∧ sizeAt bs 2 ≤ sizeLeft

theorem endsMessage (tail : ℕ) (bs : List UInt8) {sizeLeft : ℕ} (hleft : 0 < sizeLeft) :
    EndsMessage tail sizeLeft bs (messageExtent tail sizeLeft bs) := by
  by_cases h : bs ≠ [] ∧ TypeOk bs
  · have hne : checkExtent (bs ≠ []) = .whole := if_pos h.1
    have htype : checkExtent (TypeOk bs) = .whole := if_pos h.2
    have hends := ends_deserialize tail (L := messageBound sizeLeft bs) h.2 fun hlen => by
      rw [messageBound, if_neg (Nat.not_lt_of_le hlen)]
      exact Nat.min_le_right _ _
    unfold messageExtent
    rw [hne, htype, Extent.whole_andThen, Extent.whole_andThen]
    generalize Extent.andThen _ _ = e at hends ⊢
    cases e with
    | beyond => exact fun hin => hends ((messageInBounds_iff h.2).mp hin)
    | stops => exact ⟨(messageInBounds_iff h.2).mpr hends.1, hends.2⟩
    | whole =>
      obtain ⟨hwithin, ⟨m, n⟩, rest, hrun, hn, hm, h12, hin⟩ := hends
      dsimp only at hn
      subst hn
      refine ⟨(messageInBounds_iff h.2).mpr hwithin, m, rest, hrun, hm, h12, hin.trans ?_⟩
      unfold messageBound
      split_ifs
      · exact Nat.le_refl _
      · exact Nat.min_le_left _ _
  · have hstops : messageExtent tail sizeLeft bs = .stops := by
      unfold messageExtent checkExtent
      by_cases hne : bs ≠ []
      · rw [if_pos hne, if_neg fun htype => h ⟨hne, htype⟩]
        rfl
      · rw [if_neg hne]
        rfl
    rw [hstops]
    exact stops_of_type hleft h

end Ns3.Olsr
