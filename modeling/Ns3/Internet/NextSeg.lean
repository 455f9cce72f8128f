import Mathlib.Data.List.Basic
import Ns3.Internet.TcpTxBuffer

/-!
# Which segment `NextSeg` picks

The rules of RFC 6675 are stated on the items with their first sequence numbers.
`NextSeg` takes the sequence number 0 of `seqPerRule3` for one that is not set,
and a segment without room in the receive window for one that fits; `Fits` says
when neither shows in what it returns.
-/

namespace Ns3.Internet

open Ns3.Network
open SequenceNumber

namespace TcpTxBuffer

variable {b : TcpTxBuffer} {rWnd : BitVec 32} {isRecovery : Bool} {items : List TcpTxItem}
  {start seq seqHigh : SequenceNumber32}

/-! ## Items and where they begin -/

def totalSize (items : List TcpTxItem) : ℕ := (items.map fun item => item.packet.length).sum

def begins (start : SequenceNumber32) : List TcpTxItem → List (SequenceNumber32 × TcpTxItem)
  | [] => []
  | item :: items => (start, item) :: begins (start + item.packet.getSize) items

@[simp] theorem totalSize_nil : totalSize [] = 0 := rfl

@[simp] theorem totalSize_cons (item : TcpTxItem) (items : List TcpTxItem) :
    totalSize (item :: items) = item.packet.length + totalSize items := by
  simp [totalSize]

@[simp] theorem totalSize_append (items items' : List TcpTxItem) :
    totalSize (items ++ items') = totalSize items + totalSize items' := by
  simp [totalSize]

theorem add_getSize (start : SequenceNumber32) (o : ℕ) (p : Packet) :
    seqAt start o + p.getSize = seqAt start (o + p.length) := seqAt_add ..

/-- An item begins at a byte of the items. -/
theorem mem_begins {o : ℕ} {p : SequenceNumber32 × TcpTxItem}
    (hitems : ∀ item ∈ items, item.packet ≠ []) (hp : p ∈ begins (seqAt start o) items) :
    p.2 ∈ items ∧ ∃ k, o ≤ k ∧ k < o + totalSize items ∧ p.1 = seqAt start k := by
  induction items generalizing o with
  | nil => cases hp
  | cons item items ih =>
    have hpos : 0 < item.packet.length :=
      List.length_pos_of_ne_nil (hitems item List.mem_cons_self)
    rw [totalSize_cons]
    rcases List.mem_cons.mp hp with rfl | hp
    · exact ⟨List.mem_cons_self, o, le_rfl, by omega, rfl⟩
    · rw [add_getSize] at hp
      obtain ⟨hmem, k, hk, hlt, heq⟩ := ih (fun i hi => hitems i (List.mem_cons_of_mem _ hi)) hp
      exact ⟨List.mem_cons_of_mem _ hmem, k, by omega, by omega, heq⟩

theorem begins_append (start : SequenceNumber32) (o : ℕ) (items items' : List TcpTxItem) :
    begins (seqAt start o) (items ++ items') =
      begins (seqAt start o) items ++ begins (seqAt start (o + totalSize items)) items' := by
  induction items generalizing o with
  | nil => rfl
  | cons item items ih =>
    show (seqAt start o, item) :: begins (seqAt start o + item.packet.getSize) (items ++ items') = _
    rw [add_getSize, ih, totalSize_cons, Nat.add_assoc]
    show _ = (seqAt start o, item) :: (begins (seqAt start o + item.packet.getSize) items ++ _)
    rw [add_getSize]

/-- The sizes are those of the items, and no item is empty. -/
structure Consistent (b : TcpTxBuffer) : Prop where
  nonempty : ∀ item ∈ b.sentList ++ b.appList, item.packet ≠ []
  sentSize : b.sentSize = BitVec.ofNat 32 (totalSize b.sentList)
  size : b.size = BitVec.ofNat 32 (totalSize (b.sentList ++ b.appList))
  bound : totalSize (b.sentList ++ b.appList) < 2 ^ 32

/-! ## The rules -/

/-- The sent items that are neither sacked nor retransmitted. -/
def openItems (b : TcpTxBuffer) : List (SequenceNumber32 × TcpTxItem) :=
  (begins b.firstByteSeq b.sentList).filter fun p => p.2.retrans = false ∧ p.2.sacked = false

/-- The lowest lost item. -/
def rule1 (b : TcpTxBuffer) : Option SequenceNumber32 :=
  (b.openItems.find? fun p => p.2.lost).map Prod.fst

/-- The unsent items, if a byte of them is within the receive window. -/
def rule2 (b : TcpTxBuffer) (rWnd : BitVec 32) : Option SequenceNumber32 :=
  if b.appList ≠ [] ∧ b.sentSize < rWnd then some (seqAt b.firstByteSeq (totalSize b.sentList))
  else none

/-- The lowest item, in recovery. -/
def rule3 (b : TcpTxBuffer) (isRecovery : Bool) : Option SequenceNumber32 :=
  if isRecovery = true then b.openItems.head?.map Prod.fst else none

/-- What is returned is not empty, begins where an item does, and is what the first rule that
applies says. -/
def Picks (b : TcpTxBuffer) (rWnd : BitVec 32) (isRecovery : Bool) : Prop :=
  ∀ seq seqHigh, b.nextSeg rWnd isRecovery = some (seq, seqHigh) →
    seqHigh ≠ seq ∧ (∃ item, (seq, item) ∈ begins b.firstByteSeq (b.sentList ++ b.appList)) ∧
    b.rule1.or ((b.rule2 rWnd).or (b.rule3 isRecovery)) = some seq

/-- Where `NextSeg` follows the rules: segments are not empty; the window does not end where the
unsent data begin, when they come next; and the lowest open item does not begin at 0, or is the only
one, when it comes next. -/
def Fits (b : TcpTxBuffer) (rWnd : BitVec 32) (isRecovery : Bool) : Prop :=
  match b.rule1 with
  | some _ => b.segmentSize ≠ 0
  | none =>
    if 0 < b.sizeFromSequence (b.firstByteSeq + b.sentSize) then
      b.sentSize ≠ rWnd ∧ (b.sentSize < rWnd → b.segmentSize ≠ 0)
    else
      ∀ seq, b.rule3 isRecovery = some seq →
        b.segmentSize ≠ 0 ∧ b.rule2 rWnd = none ∧ (seq ≠ 0 ∨ ∀ p ∈ b.openItems, p.1 = 0)

/-! ## The loop -/

/-- The first sequence number that is not 0. -/
def firstNonzero (items : List (SequenceNumber32 × TcpTxItem)) : SequenceNumber32 :=
  ((items.map Prod.fst).find? fun s => s ≠ 0).getD 0

theorem firstNonzero_cons (p : SequenceNumber32 × TcpTxItem)
    (ps : List (SequenceNumber32 × TcpTxItem)) :
    firstNonzero (p :: ps) = if p.1 = 0 then firstNonzero ps else p.1 := by
  unfold firstNonzero
  rw [List.map_cons]
  split
  · rename_i hzero
    rw [List.find?_cons_of_neg (by simpa using hzero)]
  · rename_i hne
    rw [List.find?_cons_of_pos (by simpa using hne)]
    rfl

/-- What is saved for rule 3 is the first nonzero sequence number, from where nothing is saved. -/
theorem nextSegLoop_eq (isRecovery : Bool) (items : List TcpTxItem)
    (start seqPerRule3 : SequenceNumber32) (valid : Bool) :
    nextSegLoop isRecovery items start seqPerRule3 valid =
      match ((begins start items).filter fun p => p.2.retrans = false ∧ p.2.sacked = false).find?
          fun p => p.2.lost with
      | some p => .inl p.1
      | none =>
        let ps := (begins start items).filter fun p => p.2.retrans = false ∧ p.2.sacked = false
        .inr (if seqPerRule3 = 0 ∧ isRecovery = true then (firstNonzero ps, valid || !ps.isEmpty)
          else (seqPerRule3, valid)) := by
  induction items generalizing start seqPerRule3 valid with
  | nil =>
    show Sum.inr (seqPerRule3, valid) = Sum.inr _
    congr 1
    split
    · rename_i hset
      rw [hset.1]
      exact Prod.ext rfl (Bool.or_false valid).symm
    · rfl
  | cons item items ih =>
    unfold nextSegLoop begins
    dsimp only
    by_cases hopen : item.retrans = false ∧ item.sacked = false
    · rw [if_pos hopen, List.filter_cons_of_pos (by simpa using hopen)]
      by_cases hlost : item.lost = true
      · rw [if_pos hlost, List.find?_cons_of_pos (by simpa using hlost)]
      · rw [if_neg hlost, List.find?_cons_of_neg (by simpa using hlost)]
        by_cases hset : seqPerRule3 = 0 ∧ isRecovery = true
        · rw [if_pos hset, ih]
          split
          · rfl
          dsimp only
          rw [if_pos hset, firstNonzero_cons, hset.2]
          simp only [and_true, Bool.true_or, List.isEmpty_cons, Bool.not_false, Bool.or_true]
          split
          · rfl
          · rfl
        · rw [if_neg hset, ih]
          simp only [if_neg hset]
    · rw [if_neg hopen, List.filter_cons_of_neg (by simpa using hopen), ih]

theorem nextSegLoop_sent (b : TcpTxBuffer) (isRecovery : Bool) :
    nextSegLoop isRecovery b.sentList b.firstByteSeq 0 false =
      match b.rule1 with
      | some seq => .inl seq
      | none =>
        .inr (if isRecovery = true then (firstNonzero b.openItems, !b.openItems.isEmpty)
          else (0, false)) := by
  rw [nextSegLoop_eq]
  unfold rule1 openItems
  split
  · rename_i p hp
    rw [hp]
    rfl
  · rename_i hnone
    rw [hnone]
    simp

/-- `NextSeg` in terms of the open items. -/
theorem nextSeg_eq (b : TcpTxBuffer) (rWnd : BitVec 32) (isRecovery : Bool) :
    b.nextSeg rWnd isRecovery =
      match b.rule1 with
      | some seq => some (seq, seq + b.segmentSize)
      | none =>
        if 0 < b.sizeFromSequence (b.firstByteSeq + b.sentSize) then
          if b.sentSize ≤ rWnd then
            some (b.firstByteSeq + b.sentSize, b.firstByteSeq + b.sentSize +
              if rWnd - b.sentSize < b.segmentSize then rWnd - b.sentSize else b.segmentSize)
          else none
        else if isRecovery = true ∧ b.openItems ≠ [] then
          some (firstNonzero b.openItems, firstNonzero b.openItems + b.segmentSize)
        else none := by
  unfold nextSeg
  rw [nextSegLoop_sent]
  cases b.rule1 with
  | some seq => rfl
  | none =>
    cases isRecovery with
    | false => simp
    | true => simp

/-! ## When the rules are followed -/

theorem Consistent.begins_app (h : b.Consistent) :
    begins b.firstByteSeq (b.sentList ++ b.appList) =
      begins b.firstByteSeq b.sentList ++ begins (b.firstByteSeq + b.sentSize) b.appList := by
  have happend := begins_append b.firstByteSeq 0 b.sentList b.appList
  rw [seqAt_zero, Nat.zero_add] at happend
  rw [happend, h.sentSize]
  rfl

theorem mem_openItems {p : SequenceNumber32 × TcpTxItem} (hp : p ∈ b.openItems) :
    p ∈ begins b.firstByteSeq b.sentList := (List.mem_filter.mp hp).1

/-- There are unsent items if the size says so. -/
theorem Consistent.appList_ne_nil (h : b.Consistent)
    (hsize : 0 < b.sizeFromSequence (b.firstByteSeq + b.sentSize)) : b.appList ≠ [] := by
  intro hnil
  have hall : b.size = b.sentSize := by
    rw [h.size, h.sentSize, hnil, List.append_nil]
  unfold sizeFromSequence tailSequence at hsize
  rw [hall, if_pos (.inr rfl), BitVec.sub_self] at hsize
  exact absurd hsize (by decide)

theorem add_ne_self {x y : BitVec 32} : x + y ≠ x ↔ y ≠ 0 := by
  rw [Ne, Ne, add_eq_left]

theorem firstNonzero_eq_zero {ps : List (SequenceNumber32 × TcpTxItem)} :
    firstNonzero ps = 0 ↔ ∀ p ∈ ps, p.1 = 0 := by
  induction ps with
  | nil => exact ⟨fun _ p hp => absurd hp List.not_mem_nil, fun _ => rfl⟩
  | cons p ps ih =>
    rw [firstNonzero_cons, List.forall_mem_cons]
    split
    · rename_i hzero
      rw [ih]
      exact ⟨fun h => ⟨hzero, h⟩, fun h => h.2⟩
    · rename_i hne
      exact ⟨fun h => absurd h hne, fun h => absurd h.1 hne⟩

/-- The lowest open item is the first that does not begin at 0, or all begin there. -/
theorem firstNonzero_eq_head {p : SequenceNumber32 × TcpTxItem}
    {ps : List (SequenceNumber32 × TcpTxItem)} :
    p.1 = firstNonzero (p :: ps) ↔ p.1 ≠ 0 ∨ ∀ q ∈ p :: ps, q.1 = 0 := by
  rw [firstNonzero_cons, List.forall_mem_cons]
  split
  · rename_i hzero
    rw [hzero, eq_comm, firstNonzero_eq_zero]
    exact ⟨fun h => .inr ⟨rfl, h⟩, fun h => h.elim (absurd rfl) And.right⟩
  · rename_i hne
    exact ⟨fun _ => .inl hne, fun _ => rfl⟩

/-- What is saved for rule 3 is the beginning of an open item. -/
theorem exists_firstNonzero {ps : List (SequenceNumber32 × TcpTxItem)} (hps : ps ≠ []) :
    ∃ p ∈ ps, firstNonzero ps = p.1 := by
  by_cases hall : ∀ p ∈ ps, p.1 = 0
  · obtain ⟨p, hp⟩ := List.exists_mem_of_ne_nil ps hps
    exact ⟨p, hp, (firstNonzero_eq_zero.mpr hall).trans (hall p hp).symm⟩
  · unfold firstNonzero
    cases hfind : (ps.map Prod.fst).find? fun s => s ≠ 0 with
    | none =>
      refine absurd (fun p hp => ?_) hall
      simpa using List.find?_eq_none.mp hfind p.1 (List.mem_map_of_mem hp)
    | some s =>
      obtain ⟨p, hp, rfl⟩ := List.mem_map.mp (List.mem_of_find?_eq_some hfind)
      exact ⟨p, hp, rfl⟩

section

variable (h : b.Consistent)
include h

theorem rule2_lt (happ : b.appList ≠ []) (hlt : b.sentSize < rWnd) :
    b.rule2 rWnd = some (b.firstByteSeq + b.sentSize) := by
  unfold rule2
  rw [if_pos ⟨happ, hlt⟩, h.sentSize]
  rfl

/-- The unsent items begin where no sent item does. -/
theorem rule2_ne {p : SequenceNumber32 × TcpTxItem} (hp : p ∈ begins b.firstByteSeq b.sentList) :
    b.rule2 rWnd ≠ some p.1 := by
  intro heq
  unfold rule2 at heq
  split_ifs at heq with hcond
  have hseq := Option.some.inj heq
  rw [← seqAt_zero b.firstByteSeq] at hp
  obtain ⟨-, k, -, hlt, hk⟩ := mem_begins
    (fun item hitem => h.nonempty item (List.mem_append_left _ hitem)) hp
  have hbound := h.bound
  rw [totalSize_append] at hbound
  rw [hk, seqAt_inj (by omega) (by omega)] at hseq
  omega

theorem picks_unsent (happ : b.appList ≠ []) :
    (∀ seq seqHigh, (if b.sentSize ≤ rWnd then
        some (b.firstByteSeq + b.sentSize, b.firstByteSeq + b.sentSize +
          if rWnd - b.sentSize < b.segmentSize then rWnd - b.sentSize else b.segmentSize)
      else none) = some (seq, seqHigh) →
      seqHigh ≠ seq ∧ (∃ item, (seq, item) ∈ begins b.firstByteSeq (b.sentList ++ b.appList)) ∧
      (b.rule2 rWnd).or (b.rule3 isRecovery) = some seq) ↔
    b.sentSize ≠ rWnd ∧ (b.sentSize < rWnd → b.segmentSize ≠ 0) := by
  rcases lt_trichotomy b.sentSize.toNat rWnd.toNat with hlt | heq | hgt
  · have hlt : b.sentSize < rWnd := hlt
    have hne := BitVec.ne_of_lt hlt
    have hroom : rWnd - b.sentSize ≠ 0 := fun hzero => hne (sub_eq_zero.mp hzero).symm
    have hsize : (if rWnd - b.sentSize < b.segmentSize then rWnd - b.sentSize
        else b.segmentSize) ≠ 0 ↔ b.segmentSize ≠ 0 := by
      split
      · rename_i hless
        refine iff_of_true hroom ?_
        rintro hzero
        rw [hzero] at hless
        exact absurd hless BitVec.not_lt_zero
      · rfl
    obtain ⟨item, rest, hcons⟩ := List.exists_cons_of_ne_nil happ
    have hbegin : (b.firstByteSeq + b.sentSize, item) ∈
        begins b.firstByteSeq (b.sentList ++ b.appList) := by
      rw [h.begins_app, hcons]
      exact List.mem_append_right _ List.mem_cons_self
    rw [if_pos (BitVec.le_of_lt hlt), rule2_lt h happ hlt]
    constructor
    · intro hpicks
      exact ⟨hne, fun _ => hsize.mp (add_ne_self.mp (hpicks _ _ rfl).1)⟩
    · rintro ⟨-, hseg⟩ seq seqHigh hret
      cases hret
      exact ⟨add_ne_self.mpr (hsize.mpr (hseg hlt)), ⟨item, hbegin⟩, rfl⟩
  · -- the segment that fits exactly is empty
    have heq := BitVec.eq_of_toNat_eq heq
    subst heq
    have hsize : (if b.sentSize - b.sentSize < b.segmentSize then b.sentSize - b.sentSize
        else b.segmentSize) = 0 := by
      rw [sub_self]
      split
      · rfl
      · rename_i hnot
        exact BitVec.eq_of_toNat_eq (Nat.eq_zero_of_not_pos hnot)
    rw [if_pos (BitVec.le_refl _), hsize, add_zero]
    exact iff_of_false (fun hpicks => (hpicks _ _ rfl).1 rfl) fun hne => hne.1 rfl
  · have hgt : rWnd < b.sentSize := hgt
    rw [if_neg (BitVec.not_le.mpr hgt)]
    refine iff_of_true (fun _ _ hret => ?_)
      ⟨(BitVec.ne_of_lt hgt).symm, fun hlt => absurd hlt (BitVec.lt_asymm hgt)⟩
    cases hret

theorem picks_rule3 :
    (∀ seq seqHigh, (if isRecovery = true ∧ b.openItems ≠ [] then
        some (firstNonzero b.openItems, firstNonzero b.openItems + b.segmentSize)
      else none) = some (seq, seqHigh) →
      seqHigh ≠ seq ∧ (∃ item, (seq, item) ∈ begins b.firstByteSeq (b.sentList ++ b.appList)) ∧
      (b.rule2 rWnd).or (b.rule3 isRecovery) = some seq) ↔
    ∀ seq, b.rule3 isRecovery = some seq →
      b.segmentSize ≠ 0 ∧ b.rule2 rWnd = none ∧ (seq ≠ 0 ∨ ∀ p ∈ b.openItems, p.1 = 0) := by
  by_cases hcond : isRecovery = true ∧ b.openItems ≠ []
  swap
  · have hnone : b.rule3 isRecovery = none := by
      unfold rule3
      split
      · rename_i hrec
        have hnil : b.openItems = [] := not_not.mp fun hne => hcond ⟨hrec, hne⟩
        rw [hnil]
        rfl
      · rfl
    rw [if_neg hcond, hnone]
    refine iff_of_true (fun _ _ hret => ?_) fun _ hret => ?_
    · cases hret
    · cases hret
  rw [if_pos hcond]
  obtain ⟨hrec, hne⟩ := hcond
  obtain ⟨p, ps, hcons⟩ := List.exists_cons_of_ne_nil hne
  have hrule : b.rule3 isRecovery = some p.1 := by
    unfold rule3
    rw [if_pos hrec, hcons]
    rfl
  obtain ⟨q, hq, hfirst⟩ := exists_firstNonzero hne
  rw [hrule]
  constructor
  · intro hpicks seq hseq
    cases hseq
    obtain ⟨hnonempty, -, hor⟩ := hpicks _ _ rfl
    cases hrule2 : b.rule2 rWnd with
    | some s =>
      rw [hrule2, Option.some_or, hfirst, ← hrule2] at hor
      exact absurd hor (rule2_ne h (mem_openItems hq))
    | none =>
      rw [hrule2, Option.none_or] at hor
      have hhead := Option.some.inj hor
      rw [hcons] at hhead ⊢
      exact ⟨add_ne_self.mp hnonempty, rfl, firstNonzero_eq_head.mp hhead⟩
  · intro hfits seq seqHigh hret
    cases hret
    obtain ⟨hseg, hnone, hlow⟩ := hfits p.1 rfl
    have hitem : (firstNonzero b.openItems, q.2) ∈
        begins b.firstByteSeq (b.sentList ++ b.appList) := by
      rw [h.begins_app, hfirst]
      exact List.mem_append_left _ (mem_openItems hq)
    rw [hnone, Option.none_or]
    refine ⟨add_ne_self.mpr hseg, ⟨q.2, hitem⟩, ?_⟩
    rw [hcons] at hlow ⊢
    rw [firstNonzero_eq_head.mpr hlow]

theorem picks_iff_fits : Picks b rWnd isRecovery ↔ Fits b rWnd isRecovery := by
  unfold Picks Fits
  rw [nextSeg_eq]
  cases h₁ : b.rule1 with
  | some c =>
    dsimp only
    obtain ⟨p, hp, rfl⟩ := Option.map_eq_some_iff.mp h₁
    constructor
    · intro hpicks
      exact add_ne_self.mp (hpicks _ _ rfl).1
    · rintro hne seq seqHigh heq
      cases heq
      refine ⟨add_ne_self.mpr hne, ⟨p.2, ?_⟩, rfl⟩
      rw [h.begins_app]
      exact List.mem_append_left _ (mem_openItems (List.mem_of_find?_eq_some hp))
  | none =>
    dsimp only
    rw [Option.none_or]
    split
    · rename_i hunsent
      exact picks_unsent h (h.appList_ne_nil hunsent)
    · exact picks_rule3 h

end

/-! ## Examples -/

/-- Two sent items of two bytes, and one item that is not sent. -/
def sampleBuffer (first : SequenceNumber32) (unsent : Packet) : TcpTxBuffer where
  appList := if unsent = [] then [] else [⟨3, unsent, false, false, false⟩]
  sentList := [⟨1, [11, 12], false, false, false⟩, ⟨2, [13, 14], false, false, false⟩]
  size := 4 + unsent.getSize
  sentSize := 4
  firstByteSeq := first
  highestSack := (none, 0)
  lostOut := 0
  sackedOut := 0
  retrans := 0
  dupAckThresh := 3
  segmentSize := 536

/-- Half of the unsent item is within the window. -/
theorem picks_sample : Picks (sampleBuffer 100 [15, 16]) 5 true := by
  refine (picks_iff_fits ⟨by decide, by decide, by decide, by decide⟩).mpr ?_
  have hrule : (sampleBuffer 100 [15, 16]).rule1 = none := by decide
  unfold Fits
  rw [hrule]
  dsimp only
  rw [if_pos (by decide)]
  exact ⟨by decide, fun _ => by decide⟩

/-- In recovery the first item, at 0, is passed over; and with a full window an empty segment is
returned. -/
theorem not_picks : Consistent (sampleBuffer 0 []) ∧ ¬ Picks (sampleBuffer 0 []) 4 true ∧
    Consistent (sampleBuffer 100 [15, 16]) ∧ ¬ Picks (sampleBuffer 100 [15, 16]) 4 true := by
  refine ⟨⟨by decide, by decide, by decide, by decide⟩, fun hpicks => ?_,
    ⟨by decide, by decide, by decide, by decide⟩, fun hpicks => ?_⟩
  · obtain ⟨-, -, hfirst⟩ := hpicks 2 538 (by decide)
    exact absurd hfirst (by decide)
  · obtain ⟨hne, -⟩ := hpicks 104 104 (by decide)
    exact hne rfl

end TcpTxBuffer

end Ns3.Internet
