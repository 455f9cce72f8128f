import Ns3.Internet.SackCache

/-!
# Which items `Update` marks lost

`UpdateLostCount` counts the sacked items from the kept one down. It misses none
of them as long as the kept one is the highest, which `Overtaken` ends: the
neighbours of the highest sacked item decide, over every run of `Update`.
-/

namespace Ns3.Internet

open Ns3.Network
open SequenceNumber

namespace TcpTxBuffer

variable {b b' : TcpTxBuffer} {list : List SackBlock} {lists : List (List SackBlock)}
  {items : List TcpTxItem} {n : ℕ} {lostOut : BitVec 32}

/-- The sent items are distinct, not empty, and fewer bytes than half of the sequence space. -/
structure InFlight (b : TcpTxBuffer) : Prop where
  nonempty : ∀ item ∈ b.sentList, item.packet ≠ []
  distinct : (b.sentList.map TcpTxItem.ref).Nodup
  sentSize : b.sentSize = BitVec.ofNat 32 (totalSize b.sentList)
  bound : totalSize b.sentList < 2 ^ 31

/-- The kept item is the highest sacked one, and every item with `dupAckThresh` sacked ones above it
is sacked or lost. -/
structure Marked (b : TcpTxBuffer) : Prop where
  highestSack : b.highestSack = b.findHighestSacked
  lost : ∀ below item above, b.sentList = below ++ item :: above → item.sacked = false →
    b.dupAckThresh ≤ above.countP TcpTxItem.sacked → item.lost = true

/-- A sent item begins or ends there. -/
def Boundary (b : TcpTxBuffer) (seq : SequenceNumber32) : Prop :=
  ∃ i, seq = seqAt b.firstByteSeq (totalSize (b.sentList.take i))

/-- The edges of the block are boundaries of sent items. -/
def Matches (b : TcpTxBuffer) (block : SackBlock) : Prop :=
  b.Boundary block.1 ∧ b.Boundary block.2

/-- The block has all of the item. -/
def SackedBy (block : SackBlock) (p : SequenceNumber32 × TcpTxItem) : Prop :=
  Ge p.1 block.1 ∧ Le (p.1 + p.2.packet.getSize) block.2

instance (block : SackBlock) (p : SequenceNumber32 × TcpTxItem) : Decidable (SackedBy block p) :=
  inferInstanceAs (Decidable (_ ∧ _))

/-- The item that is directly below the highest of those that are sacked in the end gets sacked by a
block that comes when that one is sacked already. -/
def Overtaken (b : TcpTxBuffer) (list : List SackBlock) : Prop :=
  ∃ lower ∈ begins b.firstByteSeq b.sentList, ∃ upper ∈ begins b.firstByteSeq b.sentList,
    upper.1 = lower.1 + lower.2.packet.getSize ∧
    (∀ p ∈ begins b.firstByteSeq b.sentList,
      p.2.sacked = true ∨ (∃ block ∈ list, SackedBy block p) → Le p.1 upper.1) ∧
    lower.2.sacked = false ∧
    ∃ before block after, list = before ++ block :: after ∧
      (upper.2.sacked = true ∨ ∃ d ∈ before, SackedBy d upper) ∧
      (∀ d ∈ before, ¬ SackedBy d lower) ∧ SackedBy block lower

/-- One `Update` after the other. -/
def updates (b : TcpTxBuffer) (lists : List (List SackBlock)) : TcpTxBuffer :=
  lists.foldl (fun b list => (b.update list).2) b

/-! ## Marking -/

/-- The items, from the highest down, below `n` sacked ones: with enough sacked ones above it, an
item is sacked or lost. -/
def LostAbove (dupAckThresh : ℕ) : ℕ → List TcpTxItem → Prop
  | _, [] => True
  | n, item :: items => (item.sacked = false → dupAckThresh ≤ n → item.lost = true) ∧
      LostAbove dupAckThresh (if item.sacked = true then n + 1 else n) items

theorem countP_sacked (n : ℕ) (item : TcpTxItem) (items : List TcpTxItem) :
    (if item.sacked = true then n + 1 else n) + items.countP TcpTxItem.sacked =
      n + (item :: items).countP TcpTxItem.sacked := by
  rw [List.countP_cons]
  split
  · omega
  · omega

theorem lostAbove_append (th n : ℕ) (items items' : List TcpTxItem) :
    LostAbove th n (items ++ items') ↔
      LostAbove th n items ∧ LostAbove th (n + items.countP TcpTxItem.sacked) items' := by
  induction items generalizing n with
  | nil => simp [LostAbove]
  | cons item items ih =>
    rw [List.cons_append, LostAbove, ih, LostAbove, and_assoc, countP_sacked]

theorem lostAbove_iff (th n : ℕ) (items : List TcpTxItem) :
    LostAbove th n items ↔ ∀ above item below, items = above ++ item :: below →
      item.sacked = false → th ≤ n + above.countP TcpTxItem.sacked → item.lost = true := by
  induction items generalizing n with
  | nil =>
    refine iff_of_true trivial fun above item below heq => ?_
    exact absurd heq (by simp)
  | cons i items ih =>
    rw [LostAbove, ih]
    constructor
    · rintro ⟨hfirst, hrest⟩ above item below heq hopen hth
      cases above with
      | nil =>
        cases heq
        exact hfirst hopen hth
      | cons j above =>
        cases heq
        refine hrest above item below rfl hopen ?_
        rw [countP_sacked]
        exact hth
    · intro hall
      refine ⟨hall [] i items rfl, fun above item below heq hopen hth => ?_⟩
      refine hall (i :: above) item below (by rw [heq, List.cons_append]) hopen ?_
      rw [countP_sacked] at hth
      exact hth

/-- The marks, on the list as it is. -/
theorem lostAbove_reverse (th : ℕ) (items : List TcpTxItem) :
    LostAbove th 0 items.reverse ↔ ∀ below item above, items = below ++ item :: above →
      item.sacked = false → th ≤ above.countP TcpTxItem.sacked → item.lost = true := by
  rw [lostAbove_iff]
  constructor
  · intro hall below item above heq hopen hth
    refine hall above.reverse item below.reverse (by rw [heq]; simp) hopen ?_
    rw [Nat.zero_add, List.countP_reverse]
    exact hth
  · intro hall above item below heq hopen hth
    refine hall below.reverse item above.reverse ?_ hopen ?_
    · rw [← List.reverse_reverse items, heq]
      simp
    · rw [List.countP_reverse]
      rw [Nat.zero_add] at hth
      exact hth

/-- The item without its mark. -/
def unmark (item : TcpTxItem) : TcpTxItem := { item with lost := false }

theorem countP_unmark {items items' : List TcpTxItem} (heq : items.map unmark = items'.map unmark) :
    items.countP TcpTxItem.sacked = items'.countP TcpTxItem.sacked := by
  have hcount : ∀ items : List TcpTxItem,
      items.countP TcpTxItem.sacked = (items.map unmark).countP TcpTxItem.sacked := by
    intro items
    rw [List.countP_map]
    rfl
  rw [hcount items, hcount items', heq]

/-- What the loop of `UpdateLostCount` does with the items from the highest down. -/
theorem markLost_spec (th : ℕ) (items : List TcpTxItem) (n : ℕ) (lostOut : BitVec 32) :
    LostAbove th n (markLost th items n lostOut).1 ∧
      (markLost th items n lostOut).1.map unmark = items.map unmark ∧
      (markLost th items n lostOut).2.1 = n + items.countP TcpTxItem.sacked := by
  induction items generalizing n lostOut with
  | nil => exact ⟨trivial, rfl, rfl⟩
  | cons item items ih =>
    set n' := if item.sacked = true then n + 1 else n with hn'
    have hcount : n' + items.countP TcpTxItem.sacked = n + (item :: items).countP TcpTxItem.sacked :=
      countP_sacked n item items
    have hopen : item.sacked = false → n' = n := by
      intro hopen
      rw [hn', hopen, if_neg Bool.false_ne_true]
    unfold markLost
    dsimp only
    rw [← hn']
    split
    · rename_i hmark
      obtain ⟨hlost, heq, hsacked⟩ := ih n' (lostOut + item.packet.getSize)
      refine ⟨⟨fun _ _ => rfl, hlost⟩, ?_, hsacked.trans hcount⟩
      rw [List.map_cons, heq]
      rfl
    · rename_i hmark
      obtain ⟨hlost, heq, hsacked⟩ := ih n' lostOut
      refine ⟨⟨fun hs hth => ?_, hlost⟩, ?_, hsacked.trans hcount⟩
      · by_contra hnot
        exact hmark ⟨by rw [hopen hs]; exact hth, hs, by simpa using hnot⟩
      · rw [List.map_cons, heq, List.map_cons]

/-! ## The kept item -/

/-- The highest sacked item, by its offset and its number. -/
def kept (ps : List (ℕ × TcpTxItem)) : Option (ℕ × ℕ) :=
  (ps.filter fun p => p.2.sacked).getLast?.map fun p => (p.1, p.2.ref)

/-- The highest sacked item is one, and no sacked item is further up. -/
theorem kept_eq_some {ps : List (ℕ × TcpTxItem)} (hps : Spaced ps) {q : ℕ × ℕ}
    (hq : kept ps = some q) :
    (∃ p ∈ ps, p.2.sacked = true ∧ q = (p.1, p.2.ref)) ∧
      ∀ p ∈ ps, p.2.sacked = true → p.1 ≤ q.1 := by
  unfold kept at hq
  obtain ⟨p, hp, rfl⟩ := Option.map_eq_some_iff.mp hq
  obtain ⟨init, heq⟩ := List.getLast?_eq_some_iff.mp hp
  have hmem : p ∈ ps.filter fun p => p.2.sacked := List.mem_of_getLast? hp
  rw [List.mem_filter] at hmem
  refine ⟨⟨p, hmem.1, hmem.2, rfl⟩, fun r hr hs => ?_⟩
  have hr' : r ∈ ps.filter fun p => p.2.sacked := List.mem_filter.mpr ⟨hr, hs⟩
  have horder := hps.order.filter fun p => p.2.sacked
  rw [heq, List.pairwise_append] at horder
  rw [heq, List.mem_append, List.mem_singleton] at hr'
  rcases hr' with hr' | rfl
  · have := horder.2.2 r hr' p (List.mem_singleton_self p)
    have := hps.nonempty r hr
    dsimp only
    omega
  · exact le_rfl

theorem kept_ne_none {ps : List (ℕ × TcpTxItem)} (hs : ∃ p ∈ ps, p.2.sacked = true) :
    kept ps ≠ none := by
  obtain ⟨p, hp, hs⟩ := hs
  unfold kept
  rw [Ne, Option.map_eq_none_iff, List.getLast?_eq_none_iff]
  exact List.ne_nil_of_mem (List.mem_filter.mpr ⟨hp, hs⟩)

theorem kept_cons (p : ℕ × TcpTxItem) (ps : List (ℕ × TcpTxItem)) :
    kept (p :: ps) = (kept ps).or (if p.2.sacked = true then some (p.1, p.2.ref) else none) := by
  unfold kept
  rw [List.filter_cons]
  split
  · rw [List.getLast?_cons]
    cases (ps.filter fun p => p.2.sacked).getLast? with
    | none => rfl
    | some q => rfl
  · rw [Option.or_none]

theorem findHighestSackedLoop_eq (start : SequenceNumber32) (o : ℕ) (items : List TcpTxItem)
    (h : Option (ℕ × ℕ)) :
    findHighestSackedLoop items (seqAt start o) (place start h) =
      place start ((kept (offsets o items)).or h) := by
  induction items generalizing o h with
  | nil => rfl
  | cons item items ih =>
    unfold findHighestSackedLoop
    rw [add_getSize, offsets_cons, kept_cons]
    split
    · show findHighestSackedLoop items _ (place start (some (o, item.ref))) = _
      rw [ih, Option.or_assoc, Option.some_or]
    · rw [ih, Option.or_none]

theorem findHighestSacked_eq (b : TcpTxBuffer) :
    b.findHighestSacked = place b.firstByteSeq (kept (offsets 0 b.sentList)) := by
  have h := findHighestSackedLoop_eq b.firstByteSeq 0 b.sentList none
  rw [seqAt_zero, Option.or_none] at h
  exact h

theorem place_inj {start : SequenceNumber32} {h h' : Option (ℕ × ℕ)} (hh : ∀ q ∈ h, q.1 < 2 ^ 32)
    (hh' : ∀ q ∈ h', q.1 < 2 ^ 32) (heq : place start h = place start h') : h = h' := by
  cases h with
  | none =>
    cases h' with
    | none => rfl
    | some q => cases heq
  | some q =>
    cases h' with
    | none => cases heq
    | some q' =>
      unfold place at heq
      obtain ⟨href, hseq⟩ := Prod.mk.inj heq
      rw [seqAt_inj (hh q rfl) (hh' q' rfl)] at hseq
      exact congrArg some (Prod.ext hseq (Option.some.inj href))

/-! ## `UpdateLostCount` -/

theorem splitAfter_append (ref : ℕ) (items : List TcpTxItem) :
    (splitAfter ref items).1 ++ (splitAfter ref items).2 = items := by
  unfold splitAfter
  rw [List.splitAt_eq]
  exact List.take_append_drop ..

theorem splitAfter_eq {below above : List TcpTxItem} {top : TcpTxItem}
    (hdistinct : ((below ++ top :: above).map TcpTxItem.ref).Nodup) :
    splitAfter top.ref (below ++ top :: above) = (below ++ [top], above) := by
  have hbelow : ∀ item ∈ below, item.ref ≠ top.ref := by
    intro item hitem heq
    rw [List.map_append, List.nodup_append] at hdistinct
    exact hdistinct.2.2 _ (List.mem_map_of_mem hitem) _ (List.mem_map_of_mem List.mem_cons_self) heq
  have hidx : (below ++ top :: above).findIdx (fun item => item.ref = top.ref) = below.length := by
    rw [List.findIdx_append, if_neg, List.findIdx_cons]
    · simp
    · rw [List.findIdx_lt_length]
      rintro ⟨item, hitem, heq⟩
      exact hbelow item hitem (of_decide_eq_true heq)
  unfold splitAfter
  rw [hidx, List.splitAt_eq, List.append_cons, List.take_left', List.drop_left']
  · simp
  · simp

/-- From the kept item down, the items change in their marks only, and get marked as they should. -/
theorem updateLostCount_eq {ref : ℕ} {head : TcpTxItem} {low above : List TcpTxItem}
    (hkept : b.highestSack.1 = some ref)
    (hsplit : splitAfter ref b.sentList = (head :: low, above)) :
    ∃ items lostOut,
      b.updateLostCount = { b with sentList := items ++ above, lostOut := lostOut } ∧
      items.map unmark = (head :: low).map unmark ∧
      LostAbove b.dupAckThresh 0 items.reverse := by
  obtain ⟨hlost, hmarks, hsacked⟩ := markLost_spec b.dupAckThresh low.reverse 0 b.lostOut
  have hmap : (markLost b.dupAckThresh low.reverse 0 b.lostOut).1.reverse.map unmark =
      low.map unmark := by
    rw [List.map_reverse, hmarks, List.map_reverse, List.reverse_reverse]
  have hcount := countP_unmark hmarks
  unfold updateLostCount
  rw [hkept]
  dsimp only
  rw [hsplit]
  dsimp only
  split
  · refine ⟨_ :: _, _, rfl, ?_, ?_⟩
    · rw [List.map_cons, hmap]
      rfl
    · rw [List.reverse_cons, List.reverse_reverse, lostAbove_append]
      exact ⟨hlost, fun _ _ => rfl, trivial⟩
  · rename_i hnot
    refine ⟨_ :: _, _, rfl, ?_, ?_⟩
    · rw [List.map_cons, hmap]
      rfl
    · rw [List.reverse_cons, List.reverse_reverse, lostAbove_append]
      refine ⟨hlost, fun _ hth => ?_, trivial⟩
      rw [hcount, ← hsacked] at hth
      by_contra hhead
      exact hnot ⟨hth, by simpa using hhead⟩

theorem updateLostCount_frame (b : TcpTxBuffer) :
    ∃ items lostOut, b.updateLostCount = { b with sentList := items, lostOut := lostOut } ∧
      items.map unmark = b.sentList.map unmark := by
  cases hkept : b.highestSack.1 with
  | none =>
    unfold updateLostCount
    rw [hkept]
    exact ⟨b.sentList, b.lostOut, rfl, rfl⟩
  | some ref =>
    have happend := splitAfter_append ref b.sentList
    rcases hsplit : splitAfter ref b.sentList with ⟨- | ⟨head, low⟩, above⟩
    · unfold updateLostCount
      rw [hkept]
      dsimp only
      rw [hsplit]
      exact ⟨b.sentList, b.lostOut, rfl, rfl⟩
    · obtain ⟨items, lostOut, heq, hmarks, -⟩ := updateLostCount_eq hkept hsplit
      refine ⟨items ++ above, lostOut, heq, ?_⟩
      rw [hsplit] at happend
      rw [← happend, List.map_append, hmarks, ← List.map_append]

/-- With the highest sacked item as the kept one, all items are marked as they should be. -/
theorem updateLostCount_lost {below above : List TcpTxItem} {top : TcpTxItem}
    (hsplit : b.sentList = below ++ top :: above)
    (hdistinct : (b.sentList.map TcpTxItem.ref).Nodup) (hkept : b.highestSack.1 = some top.ref)
    (habove : ∀ item ∈ above, item.sacked = false)
    (hzero : b.dupAckThresh = 0 → ∀ item ∈ above, item.lost = true) :
    LostAbove b.dupAckThresh 0 b.updateLostCount.sentList.reverse := by
  rw [hsplit] at hdistinct
  obtain ⟨head, low, hlow⟩ : ∃ head low, below ++ [top] = head :: low :=
    List.exists_cons_of_ne_nil (by simp)
  have hsplit' : splitAfter top.ref b.sentList = (head :: low, above) := by
    rw [hsplit, splitAfter_eq hdistinct, hlow]
  obtain ⟨items, lostOut, heq, -, hlost⟩ := updateLostCount_eq hkept hsplit'
  have hnone : above.reverse.countP TcpTxItem.sacked = 0 := by
    rw [List.countP_reverse, List.countP_eq_zero]
    intro item hitem
    rw [habove item hitem]
    exact Bool.false_ne_true
  rw [heq, List.reverse_append, lostAbove_append, hnone]
  refine ⟨?_, hlost⟩
  rw [lostAbove_iff]
  intro up item down hup _ hth
  have hmem : item ∈ above.reverse := hup ▸ List.mem_append_right up List.mem_cons_self
  rw [List.mem_reverse] at hmem
  have hup' : up.countP TcpTxItem.sacked = 0 := by
    rw [hup, List.countP_append] at hnone
    omega
  rw [hup', Nat.add_zero] at hth
  exact hzero (Nat.le_zero.mp hth) item hmem

/-! ## One `Update` -/

theorem totalSize_take_le (items : List TcpTxItem) (i : ℕ) :
    totalSize (items.take i) ≤ totalSize items := by
  have happend := totalSize_append (items.take i) (items.drop i)
  rw [List.take_append_drop] at happend
  omega

/-- The blocks lie within the sent items. -/
theorem exists_blocks (hlist : ∀ block ∈ list, b.Matches block) :
    ∃ cs : List (ℕ × ℕ), list = cs.map (toBlock b.firstByteSeq) ∧
      ∀ c ∈ cs, c.1 ≤ totalSize b.sentList ∧ c.2 ≤ totalSize b.sentList := by
  induction list with
  | nil => exact ⟨[], rfl, fun c hc => absurd hc List.not_mem_nil⟩
  | cons block list ih =>
    obtain ⟨cs, rfl, hcs⟩ := ih fun d hd => hlist d (List.mem_cons_of_mem block hd)
    obtain ⟨⟨i, hi⟩, ⟨j, hj⟩⟩ := hlist block List.mem_cons_self
    refine ⟨(totalSize (b.sentList.take i), totalSize (b.sentList.take j)) :: cs, ?_, ?_⟩
    · rw [List.map_cons]
      congr 1
      exact Prod.ext hi hj
    · exact List.forall_mem_cons.mpr ⟨⟨totalSize_take_le .., totalSize_take_le ..⟩, hcs⟩

section

variable {cs : List (ℕ × ℕ)} (hb : b.InFlight)
  (hcs : ∀ c ∈ cs, c.1 ≤ totalSize b.sentList ∧ c.2 ≤ totalSize b.sentList)
include hb hcs

theorem sackedBy_iff {c : ℕ × ℕ} {p : ℕ × TcpTxItem} (hc : c ∈ cs)
    (hp : p ∈ offsets 0 b.sentList) :
    SackedBy (toBlock b.firstByteSeq c) (seqAt b.firstByteSeq p.1, p.2) ↔ Covers c p := by
  have hbound := hb.bound
  obtain ⟨hlow, hhigh⟩ := hcs c hc
  have hend := (offsets_bounds hp).2
  unfold SackedBy Covers toBlock
  dsimp only
  unfold endOf at *
  rw [add_getSize, ge_seqAt (by omega) (by omega), le_seqAt (by omega) (by omega)]

/-- `Overtaken` on offsets. -/
theorem overtaken_iff :
    b.Overtaken (cs.map (toBlock b.firstByteSeq)) ↔ ∃ q ∈ offsets 0 b.sentList,
      (∀ r ∈ offsets 0 b.sentList, r.2.sacked = true ∨ (∃ c ∈ cs, Covers c r) → r.1 ≤ q.1) ∧
      SackedLate q.1 cs (offsets 0 b.sentList) := by
  have hps := spaced_offsets 0 hb.nonempty
  have hbound := hb.bound
  have hbegins : begins b.firstByteSeq b.sentList =
      (offsets 0 b.sentList).map fun p => (seqAt b.firstByteSeq p.1, p.2) := by
    rw [← begins_eq, seqAt_zero]
  have hends : ∀ p ∈ offsets 0 b.sentList, p.1 ≤ endOf p ∧ endOf p < 2 ^ 31 := by
    intro p hp
    have := (offsets_bounds hp).2
    have := (hps.nonempty p hp).le
    omega
  unfold Overtaken
  rw [hbegins]
  constructor
  · rintro ⟨lower', hlower', upper', hupper', hadj, htop, hopen, before', block, after', hlist, hsack,
      hnot, hcov⟩
    obtain ⟨p, hp, rfl⟩ := List.mem_map.mp hlower'
    obtain ⟨q, hq, rfl⟩ := List.mem_map.mp hupper'
    obtain ⟨before, rest, rfl, rfl, hrest⟩ := List.map_eq_append_iff.mp hlist
    obtain ⟨c, after, rfl, rfl, rfl⟩ := List.map_eq_cons_iff.mp hrest
    have hbefore : ∀ d ∈ before, d ∈ before ++ c :: after := fun d hd => List.mem_append_left _ hd
    have hc : c ∈ before ++ c :: after := List.mem_append_right _ List.mem_cons_self
    refine ⟨q, hq, fun r hr hor => ?_, p, hp, ?_, hopen, before, c, after, rfl, ?_, ?_, ?_⟩
    · have hle := htop _ (List.mem_map_of_mem hr) (hor.imp_right ?_)
      · exact (le_seqAt ((hends r hr).1.trans_lt (hends r hr).2)
          ((hends q hq).1.trans_lt (hends q hq).2)).mp hle
      · rintro ⟨d, hd, hcov⟩
        exact ⟨_, List.mem_map_of_mem hd, (sackedBy_iff hb hcs hd hr).mpr hcov⟩
    · dsimp only at hadj
      rw [add_getSize, seqAt_inj] at hadj
      · exact hadj.symm
      · have := hends q hq
        omega
      · have := hends p hp
        unfold endOf at this
        omega
    · rcases hsack with hs | ⟨d', hd', hcov⟩
      · exact .inl ⟨q, hq, rfl, hs⟩
      · obtain ⟨d, hd, rfl⟩ := List.mem_map.mp hd'
        exact .inr ⟨q, hq, rfl, d, hd, (sackedBy_iff hb hcs (hbefore d hd) hq).mp hcov⟩
    · intro d hd hcov
      exact hnot _ (List.mem_map_of_mem hd) ((sackedBy_iff hb hcs (hbefore d hd) hp).mpr hcov)
    · exact (sackedBy_iff hb hcs hc hp).mp hcov
  · rintro ⟨q, hq, htop, p, hp, hend, hopen, before, c, after, rfl, hsack, hnot, hcov⟩
    have hbefore : ∀ d ∈ before, d ∈ before ++ c :: after := fun d hd => List.mem_append_left _ hd
    have hc : c ∈ before ++ c :: after := List.mem_append_right _ List.mem_cons_self
    refine ⟨_, List.mem_map_of_mem hp, _, List.mem_map_of_mem hq, ?_, ?_, hopen,
      before.map (toBlock b.firstByteSeq), toBlock b.firstByteSeq c,
      after.map (toBlock b.firstByteSeq), by rw [List.map_append, List.map_cons], ?_, ?_,
      (sackedBy_iff hb hcs hc hp).mpr hcov⟩
    · dsimp only
      rw [add_getSize, ← hend]
      rfl
    · intro r' hr' hor
      obtain ⟨r, hr, rfl⟩ := List.mem_map.mp hr'
      refine (le_seqAt ((hends r hr).1.trans_lt (hends r hr).2)
        ((hends q hq).1.trans_lt (hends q hq).2)).mpr (htop r hr (hor.imp_right ?_))
      rintro ⟨d', hd', hcov⟩
      obtain ⟨d, hd, rfl⟩ := List.mem_map.mp hd'
      exact ⟨d, hd, (sackedBy_iff hb hcs hd hr).mp hcov⟩
    · rcases hsack with ⟨r, hr, heq, hs⟩ | ⟨r, hr, heq, d, hd, hcov⟩
      · obtain rfl := hps.eq_of_fst hr hq heq
        exact .inl hs
      · obtain rfl := hps.eq_of_fst hr hq heq
        exact .inr ⟨_, List.mem_map_of_mem hd, (sackedBy_iff hb hcs (hbefore d hd) hr).mpr hcov⟩
    · intro d' hd' hcov
      obtain ⟨d, hd, rfl⟩ := List.mem_map.mp hd'
      exact hnot d hd ((sackedBy_iff hb hcs (hbefore d hd) hp).mp hcov)

end

theorem kept_offsets_lt (hitems : totalSize items < 2 ^ 31)
    (hs : Spaced (offsets 0 items)) : ∀ q ∈ kept (offsets 0 items), q.1 < 2 ^ 31 := by
  intro q hq
  obtain ⟨⟨p, hp, -, rfl⟩, -⟩ := kept_eq_some hs hq
  have := (offsets_bounds hp).2
  unfold endOf at this
  dsimp only
  omega

/-- The kept item after the blocks is the highest sacked one, if none is overtaken. -/
theorem kept_cacheRun_iff {ps : List (ℕ × TcpTxItem)} {cs : List (ℕ × ℕ)} (hps : Spaced ps)
    (hsome : ∃ p ∈ (cacheRun cs ps (kept ps)).1, p.2.sacked = true) :
    (cacheRun cs ps (kept ps)).2 = kept (cacheRun cs ps (kept ps)).1 ↔
      ¬ ∃ q ∈ ps, (∀ r ∈ ps, r.2.sacked = true ∨ (∃ c ∈ cs, Covers c r) → r.1 ≤ q.1) ∧
        SackedLate q.1 cs ps := by
  obtain ⟨m, hm⟩ := Option.ne_none_iff_exists'.mp (kept_ne_none hsome)
  obtain ⟨⟨p', hp', hs', rfl⟩, hmax⟩ := kept_eq_some (hps.run cs (kept ps)) hm
  obtain ⟨p, hp, hfst, hor⟩ := sackedAt_cacheRun.mp ⟨p', hp', rfl, hs'⟩
  have hbelow : ∀ r ∈ ps, r.2.sacked = true ∨ (∃ c ∈ cs, Covers c r) → r.1 ≤ p'.1 := by
    intro r hr hor
    obtain ⟨r', hr', heq, hs⟩ := sackedAt_cacheRun (h := kept ps).mpr ⟨r, hr, rfl, hor⟩
    rw [← heq]
    exact hmax r' hr' hs
  have hlate : (∃ q ∈ ps, (∀ r ∈ ps, r.2.sacked = true ∨ (∃ c ∈ cs, Covers c r) → r.1 ≤ q.1) ∧
      SackedLate q.1 cs ps) ↔ SackedLate p'.1 cs ps := by
    constructor
    · rintro ⟨q, hq, htop, hlate⟩
      have hle : p'.1 ≤ q.1 := hfst ▸ htop p hp hor
      have hge : q.1 ≤ p'.1 := by
        refine hbelow q hq ?_
        obtain ⟨-, -, -, -, before, c, after, rfl, hat, -⟩ := hlate
        rcases hat with ⟨r, hr, heq, hs⟩ | ⟨r, hr, heq, d, hd, hcov⟩
        · exact .inl (hps.eq_of_fst hr hq heq ▸ hs)
        · exact .inr ⟨d, List.mem_append_left _ hd, hps.eq_of_fst hr hq heq ▸ hcov⟩
      rw [Nat.le_antisymm hle hge]
      exact hlate
    · intro hlate
      refine ⟨p, hp, fun r hr hor => ?_, ?_⟩
      · rw [hfst]
        exact hbelow r hr hor
      · rw [hfst]
        exact hlate
  rw [hlate, ← cacheRun_iff hps hbelow ⟨p, hp, hfst, hor⟩ (h := kept ps), hm]
  · constructor
    · intro heq
      rw [heq]
      rfl
    · intro heq
      obtain ⟨k, hk, hkm⟩ := Option.map_eq_some_iff.mp heq
      obtain ⟨q, hq, rfl⟩ : ∃ q ∈ ps, k = (q.1, q.2.ref) := by
        rcases kept_cacheRun hk with hk | hk
        · obtain ⟨⟨q, hq, -, rfl⟩, -⟩ := kept_eq_some hps hk
          exact ⟨q, hq, rfl⟩
        · exact hk
      obtain ⟨r, hr, hrfst, hrref⟩ := mem_cacheRun hp'
      dsimp only at hkm
      rw [hk, hps.eq_of_fst hq hr (hkm.trans hrfst.symm), hrfst, hrref]
  · rintro ⟨r, hr, heq, hs⟩
    obtain ⟨k, hk⟩ := Option.ne_none_iff_exists'.mp (kept_ne_none ⟨r, hr, hs⟩)
    obtain ⟨⟨q, hq, hqs, rfl⟩, hqmax⟩ := kept_eq_some hps hk
    rw [hk]
    refine congrArg some (Nat.le_antisymm (hbelow q hq (.inl hqs)) ?_)
    rw [← heq]
    exact hqmax r hr hs
  · intro k hk
    obtain ⟨⟨q, hq, hqs, rfl⟩, -⟩ := kept_eq_some hps hk
    exact hbelow q hq (.inl hqs)

theorem kept_unmark {items items' : List TcpTxItem} (o : ℕ)
    (heq : items.map unmark = items'.map unmark) :
    kept (offsets o items) = kept (offsets o items') := by
  induction items generalizing o items' with
  | nil =>
    rw [List.map_nil, eq_comm, List.map_eq_nil_iff] at heq
    rw [heq]
  | cons item items ih =>
    rw [List.map_cons, eq_comm, List.map_eq_cons_iff] at heq
    obtain ⟨item', items', rfl, hitem, hitems⟩ := heq
    obtain ⟨href, hpacket, -, -, hsacked⟩ := TcpTxItem.mk.inj hitem
    rw [offsets_cons, offsets_cons, kept_cons, kept_cons, ih _ hitems.symm, hsacked, hpacket, href]

/-- `UpdateLostCount` marks all items as they should be if the kept item is the highest sacked
one, and does not change which one that is. -/
theorem marked_updateLostCount {k : ℕ × ℕ} (hitems : ∀ item ∈ b.sentList, item.packet ≠ [])
    (hdistinct : (b.sentList.map TcpTxItem.ref).Nodup)
    (hkept : kept (offsets 0 b.sentList) = some k)
    (hzero : b.dupAckThresh = 0 → ∀ item ∈ b.sentList, item.sacked = false → item.lost = true) :
    b.updateLostCount.Marked ↔ b.highestSack = b.findHighestSacked := by
  obtain ⟨marked, lostOut, heq, hunmark⟩ := updateLostCount_frame b
  have hsame : b.updateLostCount.findHighestSacked = b.findHighestSacked := by
    rw [findHighestSacked_eq, findHighestSacked_eq, heq]
    dsimp only
    rw [kept_unmark 0 hunmark]
  have hhigh : b.updateLostCount.highestSack = b.highestSack := by
    rw [heq]
  have hthresh : b.updateLostCount.dupAckThresh = b.dupAckThresh := by
    rw [heq]
  constructor
  · intro hm
    rw [← hhigh, hm.highestSack, hsame]
  · intro hcorrect
    have hps := spaced_offsets 0 hitems
    obtain ⟨⟨p, hp, -, rfl⟩, hmax⟩ := kept_eq_some hps hkept
    obtain ⟨below, above, hsplit⟩ := List.append_of_mem hp
    have hlist : b.sentList = below.map Prod.snd ++ p.2 :: above.map Prod.snd := by
      rw [← map_snd_offsets 0 b.sentList, hsplit, List.map_append, List.map_cons]
    have habove : ∀ item ∈ above.map Prod.snd, item.sacked = false := by
      intro item hitem
      obtain ⟨r, hr, rfl⟩ := List.mem_map.mp hitem
      rw [← Bool.not_eq_true]
      intro hs
      have horder := hps.order
      rw [hsplit, List.pairwise_append, List.pairwise_cons] at horder
      have hle := horder.2.1.1 r hr
      have hpos := hps.nonempty p hp
      have := hmax r (hsplit ▸ List.mem_append_right _ (List.mem_cons_of_mem p hr)) hs
      dsimp only at this
      omega
    have hlost := updateLostCount_lost hlist hdistinct
      (by rw [hcorrect, findHighestSacked_eq, hkept]; rfl) habove fun hth item hitem =>
        hzero hth item (hlist ▸ List.mem_append_right _ (List.mem_cons_of_mem _ hitem))
          (habove item hitem)
    refine ⟨by rw [hhigh, hcorrect, hsame], ?_⟩
    rw [hthresh]
    exact (lostAbove_reverse ..).mp hlost

/-- One `Update` keeps the marks as they should be exactly when the highest item is not overtaken. -/
theorem marked_update_iff (hb : b.InFlight) (hm : b.Marked)
    (hlist : ∀ block ∈ list, b.Matches block) :
    (b.update list).2.Marked ↔ ¬ b.Overtaken list := by
  obtain ⟨cs, rfl, hcs⟩ := exists_blocks hlist
  have hps := spaced_offsets 0 hb.nonempty
  have hhigh := hm.highestSack.trans (findHighestSacked_eq b)
  obtain ⟨items, t, hrun, hoff, hkept, hbytes⟩ := sackBlocks_eq
    b.sentList ⟨b.lostOut, b.sackedOut, 0, b.highestSack⟩ _ hb.sentSize hb.bound hcs hhigh
    (kept_offsets_lt hb.bound hps)
  have hshape := shape_sackBlocks (b := b) (cs.map (toBlock b.firstByteSeq)) b.sentList
    ⟨b.lostOut, b.sackedOut, 0, b.highestSack⟩
  rw [hrun] at hshape
  have hsize := totalSize_of_shape hshape
  rw [overtaken_iff hb hcs]
  unfold update
  rw [hrun]
  dsimp only at hbytes ⊢
  rw [zero_add] at hbytes
  by_cases hsame : sackedSize (offsets 0 items) = sackedSize (offsets 0 b.sentList)
  · -- nothing gets sacked
    have hstill := cacheRun_of_sackedSize hps (hoff ▸ hsame)
    rw [hstill] at hoff hkept
    have hitems : items = b.sentList := by
      rw [← map_snd_offsets 0 items, hoff, map_snd_offsets]
    rw [hsame, Nat.sub_self] at hbytes
    rw [if_neg (by rw [hbytes]; decide), hitems]
    refine iff_of_true ⟨?_, hm.lost⟩ ?_
    · rw [findHighestSacked_eq]
      exact hkept
    · rintro ⟨q, hq, -, p, hp, -, hopen, before, c, after, rfl, -, -, hcov⟩
      have hat : SackedAt p.1 (cacheRun (before ++ c :: after) (offsets 0 b.sentList)
          (kept (offsets 0 b.sentList))).1 :=
        sackedAt_cacheRun.mpr
          ⟨p, hp, rfl, .inr ⟨c, List.mem_append_right _ List.mem_cons_self, hcov⟩⟩
      rw [hstill] at hat
      obtain ⟨r, hr, heq, hs⟩ := hat
      rw [hps.eq_of_fst hr hp heq, hopen] at hs
      cases hs
  · have hmore := sackedSize_cacheRun cs (offsets 0 b.sentList) (kept (offsets 0 b.sentList))
    have hbound := sackedSize_le (offsets 0 items)
    rw [map_snd_offsets, hsize] at hbound
    have hlt := hb.bound
    have hpos : 0 < t.bytesSacked := by
      rw [hbytes, BitVec.lt_def, BitVec.toNat_ofNat, Nat.mod_eq_of_lt (by omega)]
      rw [hoff] at hsame ⊢
      show 0 < _
      omega
    have hsome : ∃ p ∈ (cacheRun cs (offsets 0 b.sentList) (kept (offsets 0 b.sentList))).1,
        p.2.sacked = true := by
      refine exists_sacked ?_
      rw [hoff] at hsame
      omega
    obtain ⟨k, hk⟩ := Option.ne_none_iff_exists'.mp (kept_ne_none hsome)
    rw [← kept_cacheRun_iff hps hsome, if_pos ⟨rfl, hpos⟩, marked_updateLostCount (k := k),
      findHighestSacked_eq]
    · dsimp only
      rw [hkept, hoff]
      have hends : ∀ p ∈ offsets 0 b.sentList, p.1 < 2 ^ 32 := by
        intro p hp
        have := (offsets_bounds hp).2
        unfold endOf at this
        omega
      refine ⟨fun heq => place_inj (fun q hq => ?_) (fun q hq => ?_) heq, fun heq => by rw [heq]⟩
      · rcases kept_cacheRun hq with hq | ⟨p, hp, rfl⟩
        · obtain ⟨⟨p, hp, -, rfl⟩, -⟩ := kept_eq_some hps hq
          exact hends p hp
        · exact hends p hp
      · obtain ⟨⟨p', hp', -, rfl⟩, -⟩ := kept_eq_some (hps.run cs _) hq
        obtain ⟨p, hp, hfst, -⟩ := mem_cacheRun hp'
        rw [← hfst]
        exact hends p hp
    · exact nonempty_of_shape hshape hb.nonempty
    · show (items.map TcpTxItem.ref).Nodup
      rw [refs_of_shape hshape]
      exact hb.distinct
    · show kept (offsets 0 items) = some k
      rw [hoff, hk]
    · intro hzero item hitem hopen
      dsimp only at hitem
      rw [← map_snd_offsets 0 items, hoff] at hitem
      obtain ⟨p, hp, rfl⟩ := List.mem_map.mp hitem
      have hold := List.mem_map_of_mem (f := Prod.snd) (mem_cacheRun_open hp hopen)
      rw [map_snd_offsets] at hold
      obtain ⟨below, above, hsplit⟩ := List.append_of_mem hold
      refine hm.lost below p.2 above hsplit hopen ?_
      rw [show b.dupAckThresh = 0 from hzero]
      exact Nat.zero_le _

/-! ## Every run of `Update` -/

theorem shape_unmark {items items' : List TcpTxItem}
    (heq : items.map unmark = items'.map unmark) : items.map shape = items'.map shape := by
  have hshape : ∀ items : List TcpTxItem, items.map shape = (items.map unmark).map shape := by
    intro items
    rw [List.map_map]
    rfl
  rw [hshape items, hshape items', heq]

theorem update_frame (list : List SackBlock) (b : TcpTxBuffer) :
    (b.update list).2.firstByteSeq = b.firstByteSeq ∧ (b.update list).2.sentSize = b.sentSize ∧
      (b.update list).2.sentList.map shape = b.sentList.map shape := by
  have hshape := shape_sackBlocks (b := b) list b.sentList
    ⟨b.lostOut, b.sackedOut, 0, b.highestSack⟩
  unfold update
  rcases hrun : b.sackBlocks list b.sentList ⟨b.lostOut, b.sackedOut, 0, b.highestSack⟩ with
    ⟨all, items, t⟩
  rw [hrun] at hshape
  dsimp only at hshape ⊢
  split
  · obtain ⟨marked, lostOut, heq, hunmark⟩ := updateLostCount_frame { b with
      sentList := items
      lostOut := t.lostOut
      sackedOut := t.sackedOut
      highestSack := t.highestSack }
    rw [heq]
    exact ⟨rfl, rfl, (shape_unmark hunmark).trans hshape⟩
  · exact ⟨rfl, rfl, hshape⟩

theorem InFlight.update (hb : b.InFlight) (list : List SackBlock) : (b.update list).2.InFlight := by
  obtain ⟨-, hsent, hshape⟩ := update_frame list b
  have hsize := totalSize_of_shape hshape
  constructor
  · exact nonempty_of_shape hshape hb.nonempty
  · rw [refs_of_shape hshape]
    exact hb.distinct
  · rw [hsent, hsize]
    exact hb.sentSize
  · rw [hsize]
    exact hb.bound

theorem Boundary.update {seq : SequenceNumber32} (h : b.Boundary seq) (list : List SackBlock) :
    (b.update list).2.Boundary seq := by
  obtain ⟨hfirst, -, hshape⟩ := update_frame list b
  obtain ⟨i, rfl⟩ := h
  have htake : ((b.update list).2.sentList.take i).map shape = (b.sentList.take i).map shape := by
    rw [List.map_take, hshape, List.map_take]
  exact ⟨i, by rw [hfirst, totalSize_of_shape htake]⟩

/-- From a scoreboard with the marks as they should be, every `Update` of a run leaves them so
exactly when none of them overtakes the highest sacked item. -/
theorem marked_updates_iff (hb : b.InFlight) (hm : b.Marked)
    (hlists : ∀ list ∈ lists, ∀ block ∈ list, b.Matches block) :
    (∀ before after, lists = before ++ after → (b.updates before).Marked) ↔
      ∀ before list after, lists = before ++ list :: after →
        ¬ (b.updates before).Overtaken list := by
  induction lists generalizing b with
  | nil =>
    refine iff_of_true (fun before after heq => ?_) fun before list after heq => ?_
    · obtain ⟨rfl, -⟩ := List.append_eq_nil_iff.mp heq.symm
      exact hm
    · exact absurd heq (by simp)
  | cons first lists ih =>
    have hstep := marked_update_iff hb hm (hlists first List.mem_cons_self)
    have hrest : ∀ list ∈ lists, ∀ block ∈ list, (b.update first).2.Matches block := by
      intro list hlist block hblock
      obtain ⟨hlow, hhigh⟩ := hlists list (List.mem_cons_of_mem first hlist) block hblock
      exact ⟨hlow.update first, hhigh.update first⟩
    constructor
    · intro hall
      have hmarked : (b.update first).2.Marked := hall [first] lists rfl
      have hlater := (ih (hb.update first) hmarked hrest).mp fun before after heq =>
        hall (first :: before) after (by rw [heq, List.cons_append])
      intro before list after heq
      cases before with
      | nil =>
        cases heq
        exact hstep.mp hmarked
      | cons _ before =>
        cases heq
        exact hlater before list after rfl
    · intro hnone
      have hmarked := hstep.mpr (hnone [] first lists rfl)
      have hlater := (ih (hb.update first) hmarked hrest).mpr fun before list after heq =>
        hnone (first :: before) list after (by rw [heq, List.cons_append])
      intro before after heq
      cases before with
      | nil => exact hm
      | cons _ before =>
        cases heq
        exact hlater before after rfl

/-- A flight of five items of one byte, none of them sacked. -/
def sampleFlight : TcpTxBuffer where
  appList := []
  sentList := (List.range 5).map fun i => ⟨i, [0], false, false, false⟩
  size := 5
  sentSize := 5
  firstByteSeq := 1
  highestSack := (none, 0)
  lostOut := 0
  sackedOut := 0
  retrans := 0
  dupAckThresh := 3
  segmentSize := 1

theorem sampleFlight_inFlight : sampleFlight.InFlight := by
  refine ⟨by decide, by decide, by decide, by decide⟩

theorem sampleFlight_marked : sampleFlight.Marked := by
  refine ⟨by decide, fun below item above heq _ hth => ?_⟩
  have hnone : sampleFlight.sentList.countP TcpTxItem.sacked = 0 := by decide
  rw [heq, List.countP_append, List.countP_cons] at hnone
  have hth : 3 ≤ above.countP TcpTxItem.sacked := hth
  omega

theorem marked_updates_sample :
    sampleFlight.InFlight ∧ sampleFlight.Marked ∧
      ∀ before after, [[((5 : SequenceNumber32), (6 : SequenceNumber32)), (3, 4)]] =
        before ++ after → (sampleFlight.updates before).Marked := by
  refine ⟨sampleFlight_inFlight, sampleFlight_marked,
    (marked_updates_iff sampleFlight_inFlight sampleFlight_marked ?_).mpr ?_⟩
  · intro list hlist block hblock
    obtain rfl := List.mem_singleton.mp hlist
    rcases List.mem_pair.mp hblock with rfl | rfl
    · exact ⟨⟨4, by decide⟩, ⟨5, by decide⟩⟩
    · exact ⟨⟨2, by decide⟩, ⟨3, by decide⟩⟩
  · intro before list after heq
    have hnil : before = [] := by
      have hlength := congrArg List.length heq
      simp only [List.length_append, List.length_cons, List.length_nil] at hlength
      exact List.eq_nil_of_length_eq_zero (by omega)
    subst hnil
    cases heq
    rintro ⟨lower, hlower, upper, hupper, hadj, htop, -, before, block, after, hlist, -, -, hcov⟩
    have hblock : block ∈ [((5 : SequenceNumber32), (6 : SequenceNumber32)), (3, 4)] :=
      hlist ▸ List.mem_append_right before List.mem_cons_self
    have hnone : ∀ lower ∈ begins sampleFlight.firstByteSeq sampleFlight.sentList,
        ∀ upper ∈ begins sampleFlight.firstByteSeq sampleFlight.sentList,
          upper.1 = lower.1 + lower.2.packet.getSize → Le 5 upper.1 →
            ¬ SackedBy (5, 6) lower ∧ ¬ SackedBy (3, 4) lower := by
      decide
    obtain ⟨hlast, hthird⟩ := hnone lower hlower upper hupper hadj
      (htop (5, ⟨4, [0], false, false, false⟩) (by decide)
        (.inr ⟨(5, 6), by decide, by decide⟩))
    rcases List.mem_pair.mp hblock with rfl | rfl
    · exact hlast hcov
    · exact hthird hcov

/-- When the items at the end arrive in the opposite order, the kept item moves down with each, and
the first two items do not get lost. -/
theorem not_marked_updates :
    sampleFlight.InFlight ∧ sampleFlight.Marked ∧
      (∀ list ∈ [[((5 : SequenceNumber32), (6 : SequenceNumber32))], [(4, 6)], [(3, 6)]],
        ∀ block ∈ list, sampleFlight.Matches block) ∧
      ¬ (sampleFlight.updates [[(5, 6)], [(4, 6)], [(3, 6)]]).Marked := by
  refine ⟨sampleFlight_inFlight, sampleFlight_marked, ?_, ?_⟩
  · have hends : ∀ seq ∈ [(3 : SequenceNumber32), 4, 5, 6], sampleFlight.Boundary seq := by
      simp only [List.forall_mem_cons]
      exact ⟨⟨2, by decide⟩, ⟨3, by decide⟩, ⟨4, by decide⟩, ⟨5, by decide⟩,
        fun _ h => absurd h List.not_mem_nil⟩
    have hmem : ∀ list ∈ [[((5 : SequenceNumber32), (6 : SequenceNumber32))], [(4, 6)], [(3, 6)]],
        ∀ block ∈ list, block.1 ∈ [(3 : SequenceNumber32), 4, 5, 6] ∧
          block.2 ∈ [(3 : SequenceNumber32), 4, 5, 6] := by
      simp
    intro list hlist block hblock
    obtain ⟨hlow, hhigh⟩ := hmem list hlist block hblock
    exact ⟨hends _ hlow, hends _ hhigh⟩
  · intro hm
    have hlost := hm.lost [] ⟨0, [0], false, false, false⟩ _ rfl rfl (by decide)
    cases hlost

end TcpTxBuffer

end Ns3.Internet
