import Ns3.Lib.UnorderedSet
import Ns3.Ferry2.Header

/-!
# Keys of unicast data

`DataKey` of `cluster-list.h`: its hash is that of all bytes of the object, which
are more than what `operator==` compares. An address object has, besides the
address, the flag `m_initialized` and three bytes of padding, which hold what the
storage held before. The hash of a string of bytes is the parameter `H`.
-/

namespace Ns3.Ferry2

open Ns3.Lib

/-- An object of the class `Ipv4Address`. -/
structure Ipv4AddressObject where
  address : Ipv4Address
  initialized : Bool
  padding : UInt8 × UInt8 × UInt8
  deriving DecidableEq, Repr

namespace Ipv4AddressObject

/-- `Ipv4Address ()`, in a storage. -/
def default (storage : UInt8 × UInt8 × UInt8) : Ipv4AddressObject := ⟨0x66666666, false, storage⟩

/-- `Ipv4Address (uint32_t)`, in a storage. -/
def ofAddress (storage : UInt8 × UInt8 × UInt8) (address : Ipv4Address) : Ipv4AddressObject :=
  ⟨address, true, storage⟩

/-- `Set`. -/
def set (a : Ipv4AddressObject) (address : Ipv4Address) : Ipv4AddressObject :=
  { a with address := address, initialized := true }

/-- `Deserialize`: the bytes in network order, into a default object. -/
def deserialize (storage : UInt8 × UInt8 × UInt8) (b₀ b₁ b₂ b₃ : UInt8) : Ipv4AddressObject :=
  (default storage).set
    (((b₀.toUInt32 <<< 8 ||| b₁.toUInt32) <<< 8 ||| b₂.toUInt32) <<< 8 ||| b₃.toUInt32)

/-- What is in the object and not compared. -/
def hidden (a : Ipv4AddressObject) : Bool × UInt8 × UInt8 × UInt8 := (a.initialized, a.padding)

end Ipv4AddressObject

/-- The bytes of a `uint32_t` in memory. -/
def littleEndian (x : UInt32) : List UInt8 :=
  [x.toUInt8, (x >>> 8).toUInt8, (x >>> 16).toUInt8, (x >>> 24).toUInt8]

structure DataKey where
  id : Ipv4AddressObject
  seqNo : UInt32
  deriving DecidableEq, Repr

namespace DataKey

/-- `operator==`. -/
def eq (lhs rhs : DataKey) : Bool := lhs.id.address == rhs.id.address && lhs.seqNo == rhs.seqNo

/-- The bytes of the object. -/
def bytes (k : DataKey) : List UInt8 :=
  littleEndian k.id.address ++
    [if k.id.initialized then 1 else 0, k.id.padding.1, k.id.padding.2.1, k.id.padding.2.2] ++
      littleEndian k.seqNo

variable (H : List UInt8 → UInt64)

/-- `Hash`. -/
def hash (k : DataKey) : UInt64 := H k.bytes

/-- What an unordered set takes for one key. -/
def same (k k' : DataKey) : Bool := hash H k == hash H k' && eq k k'

/-! ## The containers -/

/-- `PushDataKey`, and `AddKey` of `DataKeyList`. -/
def pushDataKey (s : List DataKey) (dk : DataKey) : List DataKey :=
  UnorderedSet.emplace (same H) s dk

/-- `GetDataKey`, which removes the key that it finds. -/
def getDataKey (s : List DataKey) (dk : DataKey) : Bool × List DataKey :=
  if UnorderedSet.contains (same H) s dk then (true, UnorderedSet.erase (same H) s dk)
  else (false, s)

/-- The loop of `GetDiffer`: `differ`, the list itself and `dkl_differ`. -/
def differStep (s : Bool × List DataKey × List DataKey) (k : DataKey) :
    Bool × List DataKey × List DataKey :=
  if UnorderedSet.contains (same H) s.2.1 k then s
  else (true, UnorderedSet.emplace (same H) s.2.1 k, UnorderedSet.emplace (same H) s.2.2 k)

/-- `GetDiffer`. -/
def getDiffer (s differ you : List DataKey) : Bool × List DataKey × List DataKey :=
  you.foldl (differStep H) (false, s, differ)

/-- A container after a sequence of pushes. -/
def pushes (ks : List DataKey) : List DataKey := ks.foldl (pushDataKey H) []

variable {H} {k k' d : DataKey} {ks you differ : List DataKey}

theorem eq_iff : eq k k' = true ↔ k.id.address = k'.id.address ∧ k.seqNo = k'.seqNo := by
  simp [eq]

theorem same_iff : same H k k' = true ↔ hash H k = hash H k' ∧ eq k k' = true := by
  simp [same]

theorem same_equivalence : Equivalence fun k k' : DataKey => same H k k' = true where
  refl k := by simp [same_iff, eq_iff]
  symm h := by
    simp only [same_iff, eq_iff] at h ⊢
    exact ⟨h.1.symm, h.2.1.symm, h.2.2.symm⟩
  trans h h' := by
    simp only [same_iff, eq_iff] at h h' ⊢
    exact ⟨h.1.trans h'.1, h.2.1.trans h'.2.1, h.2.2.trans h'.2.2⟩

/-- Keys that compare equal and hold the same hidden bytes are the same object. -/
theorem eq_of_hidden (h : eq k k' = true) (hid : k.id.hidden = k'.id.hidden) : k = k' := by
  obtain ⟨⟨a, i, p⟩, n⟩ := k
  obtain ⟨⟨a', i', p'⟩, n'⟩ := k'
  obtain ⟨haddr, hseq⟩ := eq_iff.mp h
  cases haddr
  cases hseq
  cases hid
  rfl

/-- The bytes show the hidden ones. -/
theorem hidden_of_bytes (h : k.bytes = k'.bytes) : k.id.hidden = k'.id.hidden := by
  unfold bytes at h
  obtain ⟨hid, -⟩ := List.append_inj h (by simp [littleEndian])
  obtain ⟨-, hmid⟩ := List.append_inj hid (by simp [littleEndian])
  simp only [List.cons.injEq, and_true] at hmid
  obtain ⟨hflag, h₁, h₂, h₃⟩ := hmid
  have hinit : k.id.initialized = k'.id.initialized := by
    revert hflag
    cases k.id.initialized <;> cases k'.id.initialized <;> simp
  exact Prod.ext hinit (Prod.ext h₁ (Prod.ext h₂ h₃))

theorem contains_pushes :
    UnorderedSet.contains (same H) (pushes H ks) k = true ↔ ∃ k' ∈ ks, same H k k' = true := by
  show UnorderedSet.contains (same H) (UnorderedSet.emplaceAll (same H) [] ks) k = true ↔ _
  rw [UnorderedSet.contains_emplaceAll same_equivalence]
  simp [UnorderedSet.contains]

theorem getDataKey_fst {s : List DataKey} :
    (getDataKey H s k).1 = UnorderedSet.contains (same H) s k := by
  unfold getDataKey
  split_ifs with hk
  · exact hk.symm
  · exact (Bool.not_eq_true _ ▸ hk).symm

/-- What the loop reports was reported before or was not found at the start. -/
theorem mem_differ (t : Bool × List DataKey × List DataKey)
    (h : d ∈ (you.foldl (differStep H) t).2.2) :
    d ∈ t.2.2 ∨ (d ∈ you ∧ UnorderedSet.contains (same H) t.2.1 d = false) := by
  induction you generalizing t with
  | nil => exact .inl h
  | cons k you ih =>
    rw [List.foldl_cons] at h
    unfold differStep at ih h
    by_cases hk : UnorderedSet.contains (same H) t.2.1 k = true
    · rw [if_pos hk] at h
      exact (ih t h).imp_right fun ⟨hd, hnew⟩ => ⟨List.mem_cons_of_mem k hd, hnew⟩
    · rw [if_neg hk] at h
      rcases ih _ h with hd | ⟨hd, hnew⟩
      · rcases UnorderedSet.mem_emplace hd with hd | rfl
        · exact .inl hd
        · exact .inr ⟨List.mem_cons_self, Bool.not_eq_true _ ▸ hk⟩
      · refine .inr ⟨List.mem_cons_of_mem k hd, ?_⟩
        rw [← Bool.not_eq_true, UnorderedSet.contains_emplace same_equivalence] at hnew
        exact Bool.not_eq_true _ ▸ fun hold => hnew (.inl hold)

/-! ## The law of lookups -/

/-- After pushes of `ks`, whatever the hash of a string: keys of `you` and `ks` that compare equal
have equal hashes, the keys of `you` are found, and none of them is reported as a difference. -/
structure LookupLaw (ks you : List DataKey) : Prop where
  hash_eq : ∀ H, ∀ k' ∈ ks, ∀ k ∈ you, eq k' k = true → hash H k' = hash H k
  found : ∀ H, ∀ k ∈ you, (∃ k' ∈ ks, eq k' k = true) → (getDataKey H (pushes H ks) k).1 = true
  not_reported : ∀ H, ∀ d ∈ (getDiffer H (pushes H ks) [] you).2.2, ∀ k' ∈ ks, eq k' d = false

/-- The law holds exactly where keys that compare equal hold the same flag and padding. -/
theorem lookupLaw_iff (ks you : List DataKey) : LookupLaw ks you ↔
    ∀ k' ∈ ks, ∀ k ∈ you, eq k' k = true → k'.id.hidden = k.id.hidden := by
  constructor
  · intro h k' hk' k hk heq
    -- a hash that tells the bytes of `k` from all others
    have hhash := h.hash_eq (fun b => if b = k.bytes then 1 else 0) k' hk' k hk heq
    refine hidden_of_bytes ?_
    by_contra hne
    simp only [hash] at hhash
    rw [if_neg hne] at hhash
    simp at hhash
  · intro hsame
    have hobj : ∀ k' ∈ ks, ∀ k ∈ you, eq k' k = true → k' = k :=
      fun k' hk' k hk heq => eq_of_hidden heq (hsame k' hk' k hk heq)
    constructor
    · intro H k' hk' k hk heq
      rw [hobj k' hk' k hk heq]
    · rintro H k hk ⟨k', hk', heq⟩
      rw [getDataKey_fst, contains_pushes]
      exact ⟨k', hk', hobj k' hk' k hk heq ▸ same_equivalence.refl k'⟩
    · intro H d hd k' hk'
      rcases mem_differ _ hd with hd | ⟨hyou, hnew⟩
      · cases hd
      · rw [← Bool.not_eq_true]
        intro heq
        have hfound : UnorderedSet.contains (same H) (pushes H ks) d = true :=
          contains_pushes.mpr ⟨k', hk', hobj k' hk' d hyou heq ▸ same_equivalence.refl k'⟩
        exact absurd hfound (by simpa using hnew)

/-- A hash of strings of bytes. -/
def sumHash (b : List UInt8) : UInt64 := b.foldl (fun h x => h * 31 + x.toUInt64) 0

/-- A default key and one of the address that a default object holds, and keys of one address that
was set and received, in storages that held different bytes. -/
theorem lookup_missed :
    ¬ LookupLaw [⟨.default (0, 0, 0), 0⟩] [⟨.ofAddress (0, 0, 0) 0x66666666, 0⟩] ∧
      ¬ LookupLaw [⟨(Ipv4AddressObject.default (0, 0, 0)).set 0x0a010101, 7⟩]
        [⟨.deserialize (0, 0, 1) 10 1 1 1, 7⟩] := by
  constructor
  · intro h
    exact absurd (h.hash_eq sumHash _ (List.mem_singleton_self _) _ (List.mem_singleton_self _)
      (by decide)) (by decide)
  · intro h
    exact absurd (h.hash_eq sumHash _ (List.mem_singleton_self _) _ (List.mem_singleton_self _)
      (by decide)) (by decide)

end DataKey

end Ns3.Ferry2
