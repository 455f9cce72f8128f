import Ns3.Internet.RxDelivery

/-!
# The SACK list as intervals

The blocks of the list are intervals of offsets from the first sequence number.
`UpdateSackList` joins a new block with those it touches (`Merged`), and the
loop over the packets in order clears the blocks that end there.
-/

namespace Ns3.Internet

open Ns3.Lib Ns3.Network
open SequenceNumber
open Intervals

namespace TcpRxBuffer

variable {base : SequenceNumber32} {stream : List UInt8} {b : TcpRxBuffer}
  {ws bs passed rest ds : List (ℕ × ℕ)} {c d B : ℕ × ℕ}

/-- The SACK block of an interval. -/
def block (base : SequenceNumber32) (d : ℕ × ℕ) : SackBlock :=
  (seqAt base d.1, seqAt base (d.1 + d.2))

/-- The interval is not empty, and within half of all sequence numbers. -/
def Proper (d : ℕ × ℕ) : Prop := 0 < d.2 ∧ d.1 + d.2 < 2 ^ 31

/-! ## `UpdateSackList` -/

/-- `B` and `R` are what is left when `c` is joined with those of `ds` that it touches. -/
structure Merged (c : ℕ × ℕ) (ds : List (ℕ × ℕ)) (B : ℕ × ℕ) (R : List (ℕ × ℕ)) : Prop where
  apart : (B :: R).Pairwise Apart
  proper : ∀ d ∈ B :: R, Proper d
  covers : B.1 ≤ c.1 ∧ c.1 + c.2 ≤ B.1 + B.2
  within : ∀ d ∈ B :: R, ∀ k, Has d k → ∃ e ∈ c :: ds, Has e k
  length : R.length ≤ ds.length

theorem pairwise_apart_middle :
    (passed ++ d :: rest).Pairwise Apart ↔
      (∀ e ∈ passed ++ rest, Apart d e) ∧ (passed ++ rest).Pairwise Apart := by
  rw [List.Perm.pairwise_iff (fun h => apart_comm.mp h) List.perm_middle, List.pairwise_cons]

/-- A block that `d` is joined to, on its left or its right. -/
theorem Merged.join {d' : ℕ × ℕ} {R : List (ℕ × ℕ)} (h : Merged d' (passed ++ rest) B R)
    (hcovers : d'.1 ≤ c.1 ∧ c.1 + c.2 ≤ d'.1 + d'.2) (hhas : ∀ k, Has d' k → Has c k ∨ Has d k) :
    Merged c (passed ++ d :: rest) B R where
  apart := h.apart
  proper := h.proper
  covers := ⟨h.covers.1.trans hcovers.1, hcovers.2.trans h.covers.2⟩
  within := by
    intro e he k hk
    obtain ⟨f, hf, hfk⟩ := h.within e he k hk
    rcases List.mem_cons.mp hf with rfl | hf
    · rcases hhas k hfk with hck | hdk
      · exact ⟨c, List.mem_cons_self, hck⟩
      · exact ⟨d, List.mem_cons_of_mem _ (List.mem_append_right _ List.mem_cons_self), hdk⟩
    · refine ⟨f, List.mem_cons_of_mem _ ?_, hfk⟩
      rcases List.mem_append.mp hf with hf | hf
      · exact List.mem_append_left _ hf
      · exact List.mem_append_right _ (List.mem_cons_of_mem _ hf)
  length := by
    have := h.length
    rw [List.length_append] at this ⊢
    rw [List.length_cons]
    omega

/-- The loop joins the new block with the blocks that it touches. -/
theorem mergeSackBlocks_eq (base : SequenceNumber32) (c : ℕ × ℕ) (passed rest : List (ℕ × ℕ))
    (hproper : ∀ d ∈ c :: (passed ++ rest), Proper d)
    (hapart : (c :: (passed ++ rest)).Pairwise Apart) :
    ∃ B R, mergeSackBlocks (block base c) (passed.map (block base)) (rest.map (block base)) =
      (B :: R).map (block base) ∧ Merged c (passed ++ rest) B R := by
  have hc : Proper c := hproper c List.mem_cons_self
  match rest with
  | [] =>
    rw [List.append_nil] at hproper hapart ⊢
    refine ⟨c, passed, by rw [List.map_nil, mergeSackBlocks, List.map_cons], hapart, hproper,
      ⟨le_rfl, le_rfl⟩, fun d hd k hk => ⟨d, hd, hk⟩, le_rfl⟩
  | d :: rest =>
    have hd : Proper d := hproper d
      (List.mem_cons_of_mem _ (List.mem_append_right _ List.mem_cons_self))
    have hothers : ∀ e ∈ passed ++ rest, Proper e := by
      intro e he
      refine hproper e (List.mem_cons_of_mem _ ?_)
      rcases List.mem_append.mp he with he | he
      · exact List.mem_append_left _ he
      · exact List.mem_append_right _ (List.mem_cons_of_mem _ he)
    obtain ⟨hcall, hall⟩ := List.pairwise_cons.mp hapart
    obtain ⟨hdall, hall⟩ := pairwise_apart_middle.mp hall
    have hcothers : ∀ e ∈ passed ++ rest, Apart c e := by
      intro e he
      refine hcall e ?_
      rcases List.mem_append.mp he with he | he
      · exact List.mem_append_left _ he
      · exact List.mem_append_right _ (List.mem_cons_of_mem _ he)
    unfold Proper at hc hd
    have hleft : (block base c).1 = (block base d).2 ↔ d.1 + d.2 = c.1 := by
      unfold block
      dsimp only
      rw [seqAt_inj (by omega) (by omega), eq_comm]
    have hright : (block base c).2 = (block base d).1 ↔ c.1 + c.2 = d.1 := by
      unfold block
      dsimp only
      rw [seqAt_inj (by omega) (by omega)]
    rw [List.map_cons, mergeSackBlocks]
    simp only [hleft, hright]
    by_cases htouch : d.1 + d.2 = c.1
    · have hproper' : ∀ e ∈ (d.1, d.2 + c.2) :: ([] ++ (passed ++ rest)), Proper e :=
        List.forall_mem_cons.mpr ⟨by unfold Proper; dsimp only; omega, hothers⟩
      obtain ⟨B, R, heq, hmerged⟩ := mergeSackBlocks_eq base (d.1, d.2 + c.2) [] (passed ++ rest)
        hproper' (List.pairwise_cons.mpr
          ⟨fun e he => (hdall e he).join (hothers e he).1 htouch (hcothers e he), hall⟩)
      have hmerged : Merged (d.1, d.2 + c.2) (passed ++ rest) B R := hmerged
      rw [if_pos htouch]
      refine ⟨B, R, ?_, hmerged.join (by dsimp only; omega) fun k hk => (hk.join htouch).symm⟩
      have hend : d.1 + (d.2 + c.2) = c.1 + c.2 := by omega
      rw [← heq, List.map_append]
      unfold block
      dsimp only
      rw [hend]
      rfl
    rw [if_neg htouch]
    by_cases htouch' : c.1 + c.2 = d.1
    · have hproper' : ∀ e ∈ (c.1, c.2 + d.2) :: ([] ++ (passed ++ rest)), Proper e :=
        List.forall_mem_cons.mpr ⟨by unfold Proper; dsimp only; omega, hothers⟩
      obtain ⟨B, R, heq, hmerged⟩ := mergeSackBlocks_eq base (c.1, c.2 + d.2) [] (passed ++ rest)
        hproper' (List.pairwise_cons.mpr
          ⟨fun e he => (hcothers e he).join (hothers e he).1 htouch' (hdall e he), hall⟩)
      have hmerged : Merged (c.1, c.2 + d.2) (passed ++ rest) B R := hmerged
      rw [if_pos htouch']
      refine ⟨B, R, ?_, hmerged.join (by dsimp only; omega) fun k hk => hk.join htouch'⟩
      have hend : c.1 + (c.2 + d.2) = d.1 + d.2 := by omega
      rw [← heq, List.map_append]
      unfold block
      dsimp only
      rw [hend]
      rfl
    rw [if_neg htouch']
    obtain ⟨B, R, heq, hmerged⟩ := mergeSackBlocks_eq base c (passed ++ [d]) rest
        (by rw [List.append_assoc]; exact hproper) (by rw [List.append_assoc]; exact hapart)
    rw [List.map_append, List.map_cons, List.map_nil] at heq
    rw [List.append_assoc] at hmerged
    exact ⟨B, R, heq, hmerged⟩
  termination_by (passed.length + rest.length, rest.length)
  decreasing_by all_goals simp [Prod.lex_def] <;> omega

/-- What `UpdateSackList` reports: at most four intervals, the new one within the first. -/
theorem updateSackList_eq (base : SequenceNumber32) (hsack : b.sackList = bs.map (block base))
    (hlength : bs.length ≤ 4) (hproper : ∀ d ∈ c :: bs, Proper d)
    (hapart : (c :: bs).Pairwise Apart) :
    ∃ B R, (b.updateSackList (seqAt base c.1) (seqAt base (c.1 + c.2))).sackList =
        (B :: R).map (block base) ∧ R.length ≤ 3 ∧ (B :: R).Pairwise Apart ∧
      (∀ d ∈ B :: R, Proper d ∧ ∀ k, Has d k → ∃ e ∈ c :: bs, Has e k) ∧
      B.1 ≤ c.1 ∧ c.1 + c.2 ≤ B.1 + B.2 := by
  obtain ⟨B, R, heq, h⟩ := mergeSackBlocks_eq base c [] bs hproper hapart
  rw [List.map_nil, ← hsack] at heq
  have hmerge : mergeSackBlocks (seqAt base c.1, seqAt base (c.1 + c.2)) [] b.sackList =
      (B :: R).map (block base) := heq
  have hR : R.length ≤ bs.length := h.length
  unfold updateSackList
  dsimp only
  rw [hmerge, List.length_map, List.length_cons]
  split
  · -- the last block is dropped
    have hne : R ≠ [] := by
      rintro rfl
      rename_i hlong
      exact absurd hlong (by decide)
    have hdrop : (B :: R).dropLast = B :: R.dropLast := List.dropLast_cons_of_ne_nil hne
    have hsub : (B :: R.dropLast).Sublist (B :: R) := hdrop ▸ List.dropLast_sublist _
    refine ⟨B, R.dropLast, by rw [← List.map_dropLast, hdrop], ?_, h.apart.sublist hsub,
      fun d hd => ⟨h.proper d (hsub.subset hd), h.within d (hsub.subset hd)⟩, h.covers⟩
    rw [List.length_dropLast]
    omega
  · exact ⟨B, R, rfl, by omega, h.apart, fun d hd => ⟨h.proper d hd, h.within d hd⟩, h.covers⟩

/-! ## Clearing -/

theorem clearSackList_eq (base : SequenceNumber32) {k : ℕ} (hk : k < 2 ^ 31)
    (hsack : b.sackList = bs.map (block base)) (hbs : ∀ d ∈ bs, Proper d) :
    (b.clearSackList (seqAt base k)).sackList =
      (bs.filter fun d => k < d.1 + d.2).map (block base) := by
  unfold clearSackList
  dsimp only
  rw [hsack, List.filter_map]
  congr 1
  refine List.filter_congr fun d hd => ?_
  have hle : Le (block base d).2 (seqAt base k) ↔ d.1 + d.2 ≤ k := le_seqAt (hbs d hd).2 hk
  simp only [Function.comp_apply, hle, Nat.not_le]

/-- The loop over the packets in order clears the blocks that end by where it stops. -/
theorem advance_sackList {k : ℕ} (hk : k < 2 ^ 31) (hnext : b.nextRxSeq = seqAt base k)
    (hws : ∀ c ∈ ws, Inside stream c) (hsack : b.sackList = bs.map (block base))
    (hbs : ∀ d ∈ bs, Proper d ∧ k < d.1 + d.2) :
    ∃ n, k ≤ n ∧ n < 2 ^ 31 ∧
      (advance (ws.map (chunk base stream)) b).nextRxSeq = seqAt base n ∧
      (advance (ws.map (chunk base stream)) b).sackList =
        (bs.filter fun d => n < d.1 + d.2).map (block base) := by
  induction ws generalizing b k bs with
  | nil =>
    refine ⟨k, le_rfl, hk, hnext, ?_⟩
    rw [List.filter_eq_self.mpr fun d hd => decide_eq_true (hbs d hd).2]
    exact hsack
  | cons c ws ih =>
    have hin := hws c List.mem_cons_self
    have hws' : ∀ d ∈ ws, Inside stream d := fun d hd => hws d (List.mem_cons_of_mem _ hd)
    have hc : c.1 + c.2 < 2 ^ 31 := hin.1
    have hfirst : (chunk base stream c).1 = seqAt base c.1 := rfl
    rw [List.map_cons, advance]
    simp only [hfirst, hnext, lt_seqAt (show c.1 < 2 ^ 31 by omega) hk,
      gt_seqAt (show c.1 < 2 ^ 31 by omega) hk, getSize_chunk base hin, seqAt_add]
    split
    · exact ih hk hnext hws' hsack hbs
    split
    · refine ⟨k, le_rfl, hk, hnext, ?_⟩
      rw [List.filter_eq_self.mpr fun d hd => decide_eq_true (hbs d hd).2]
      exact hsack
    · have hat : c.1 = k := by omega
      have hclear := clearSackList_eq (b := { b with
        nextRxSeq := seqAt base (c.1 + c.2)
        availBytes := b.availBytes + BitVec.ofNat 32 c.2 }) base hc hsack
        fun d hd => (hbs d hd).1
      obtain ⟨n, hn, hlt, hnext', hsack'⟩ := ih (b := ({ b with
        nextRxSeq := seqAt base (c.1 + c.2)
        availBytes := b.availBytes + BitVec.ofNat 32 c.2 } : TcpRxBuffer).clearSackList
          (seqAt base (c.1 + c.2))) hc rfl hws' hclear fun d hd => by
            obtain ⟨hmem, hlt⟩ := List.mem_filter.mp hd
            exact ⟨(hbs d hmem).1, of_decide_eq_true hlt⟩
      refine ⟨n, by omega, hlt, hnext', ?_⟩
      rw [hsack', List.filter_filter]
      congr 1
      refine List.filter_congr fun d _ => ?_
      by_cases hd : n < d.1 + d.2
      · simp [hd, show c.1 + c.2 < d.1 + d.2 by omega]
      · simp [hd]

/-! ## What `Add` takes out -/

section

variable {x n s len : ℕ} {cs : List (ℕ × ℕ)} (h : Layout base stream b x n cs ds)
  (hfin : b.gotFin = false) (hpos : ∀ d ∈ ds, 0 < d.2) (hs : s + len ≤ stream.length)
  (hmax : stream.length + b.maxBuffer.toNat < 2 ^ 31)
include h hfin hpos hs hmax

/-- A segment that ends before the next sequence number is left no range. -/
theorem window_old (hold : s + len < n) :
    Ge (b.window (seqAt base s) (seqAt base (s + len))).1
        (b.window (seqAt base s) (seqAt base (s + len))).2 ∧
      (b.data = [] ∨ (b.window (seqAt base s) (seqAt base (s + len))).1 =
        (b.window (seqAt base s) (seqAt base (s + len))).2) := by
  have hnext : b.nextRxSeq = seqAt base n := by
    rw [h.next, nextOffset, if_neg (by rw [hfin]; exact fun hc => Bool.false_ne_true hc.1)]
  have hbound := h.bound
  have hcs := h.inside_cs (by omega)
  have hlt : Lt (seqAt base s) b.nextRxSeq := by
    rw [hnext]
    exact (lt_seqAt (by omega) (by omega)).mpr (by omega)
  unfold window
  rw [if_pos hlt, hnext]
  cases hdata : b.data with
  | nil => exact ⟨(ge_seqAt (by omega) (by omega)).mpr hold.le, .inl rfl⟩
  | cons c rest =>
    obtain ⟨d, hd, rfl⟩ : ∃ d ∈ cs ++ ds, chunk base stream d = c := by
      have hmem : c ∈ b.data := hdata ▸ List.mem_cons_self
      rw [h.data] at hmem
      exact List.mem_map.mp hmem
    have hfirst : d.1 ≤ stream.length := by
      rcases List.mem_append.mp hd with hd | hd
      · have := hcs d hd
        omega
      · have := hpos d hd
        have := (h.inside d hd).2
        omega
    have hmaxSeq : (chunk base stream d).1 + b.maxBuffer = seqAt base (d.1 + b.maxBuffer.toNat) := by
      show seqAt base d.1 + b.maxBuffer = _
      rw [← seqAt_add, BitVec.ofNat_toNat, BitVec.setWidth_eq]
    dsimp only
    rw [hmaxSeq]
    have hback : Lt (if Lt (seqAt base (d.1 + b.maxBuffer.toNat)) (seqAt base (s + len)) then
        seqAt base (d.1 + b.maxBuffer.toNat) else seqAt base (s + len)) (seqAt base n) := by
      split
      · rename_i hless
        rw [lt_seqAt (by omega) (by omega)] at hless ⊢
        omega
      · exact (lt_seqAt (by omega) (by omega)).mpr hold
    rw [if_pos hback]
    exact ⟨.inr rfl, .inr rfl⟩

/-- Nothing is left of the segment and the packets stay, or the packets are trimmed by what of the
segment is new and within the window. -/
theorem removeOverlaps_window {t : Trimmed}
    (ht : t = removeOverlaps (b.window (seqAt base s) (seqAt base (s + len))).1
      (b.window (seqAt base s) (seqAt base (s + len))).2 b.size b.data) :
    (Ge t.head t.tail ∧ t.data = b.data) ∨
      ∃ t₀, max s n < t₀ ∧ t₀ ≤ s + len ∧
        (b.window (seqAt base s) (seqAt base (s + len))).2 = seqAt base t₀ ∧
        t.head = seqAt base (trim (max s n) t₀ ds).1 ∧
        t.tail = seqAt base (trim (max s n) t₀ ds).2.1 ∧
        t.data = (cs ++ (trim (max s n) t₀ ds).2.2).map (chunk base stream) := by
  have hnoFin : nextOffset b n stream.length = n :=
    if_neg (by rw [hfin]; exact fun hc => Bool.false_ne_true hc.1)
  have hbound := h.bound
  have hcs := h.inside_cs (by omega)
  have hall : ∀ c ∈ cs ++ ds, Inside stream c := fun c hc =>
    (List.mem_append.mp hc).elim (fun hc => (hcs c hc).1) (h.inside c)
  have hself : ∀ m, (b.window (seqAt base s) (seqAt base (s + len))).1 = m →
      (b.window (seqAt base s) (seqAt base (s + len))).2 = m → Ge t.head t.tail ∧ t.data = b.data := by
    intro m hm hm'
    obtain ⟨head, tail, heq, hge⟩ := removeOverlaps_self base m b.size hall h.pairwise
    rw [hm, hm', h.data, heq] at ht
    rw [ht]
    exact ⟨hge, h.data.symm⟩
  have hcases := window_cases h (by omega) hs
  rw [hnoFin] at hcases
  rcases hcases with heq | ⟨t₀, hlt, hle, hhead, htail⟩ | ⟨hold, -⟩
  · exact .inl (hself _ heq rfl)
  · refine .inr ⟨t₀, hlt, hle, htail, ?_⟩
    rw [hhead, htail, h.data, removeOverlaps_eq base _ (by omega) (by omega) hall,
      trim_append fun c hc => ⟨(hcs c hc).2.trans (by omega), by have := (hcs c hc).2; omega⟩] at ht
    rw [ht]
    exact ⟨rfl, rfl, rfl⟩
  · obtain ⟨hge, hdata | heq⟩ := window_old h hfin hpos hs hmax hold
    · rw [hdata, removeOverlaps] at ht
      rw [ht]
      exact .inl ⟨hge, hdata.symm⟩
    · exact .inl (hself _ heq rfl)

end

end TcpRxBuffer

end Ns3.Internet
