import Ns3.Olsr.MprCoverage

/-!
# Which neighbor is selected

The neighbors that a two-hop neighbor tuple names are all in the neighbor set,
so the degree of every neighbor is zero (`degree_eq_zero`), and among neighbors
with the same willingness that reach as many two-hop neighbors the first is
selected.
-/

namespace Ns3.Olsr

open Ns3.Lib

variable {mainAddress : Ipv4Address} {neighbors : NeighborSet} {twoHops : TwoHopNeighborSet}
variable {N : List NeighborTuple} {N2 : List TwoHopNeighborTuple} {y z : NeighborTuple}

/-! ## The rule -/

/-- The two-hop neighbors in `N2` that a neighbor reaches. -/
def reached (N2 : List TwoHopNeighborTuple) (y : NeighborTuple) : Finset Ipv4Address :=
  ((N2.filter fun t => t.neighborMainAddr = y.neighborMainAddr).map
    TwoHopNeighborTuple.twoHopNeighborAddr).toFinset

/-- `D(y)`: the two-hop neighbors of a neighbor that are not neighbors themselves. -/
def trueDegree (neighbors : NeighborSet) (twoHops : TwoHopNeighborSet) (y : NeighborTuple) : ℕ :=
  ((twoHops.tuples.filter fun t => t.neighborMainAddr = y.neighborMainAddr ∧
    neighbors.findNeighborTuple t.twoHopNeighborAddr = none).map
      TwoHopNeighborTuple.twoHopNeighborAddr).toFinset.card

/-- Willingness first, then how many uncovered two-hop neighbors are reached. -/
def rank (N2 : List TwoHopNeighborTuple) (y : NeighborTuple) : ℕ ×ₗ ℕ :=
  toLex (y.willingness.toNat, (reached N2 y).card)

/-- A neighbor that reaches an uncovered two-hop neighbor. -/
def Reaches (N : List NeighborTuple) (N2 : List TwoHopNeighborTuple) (y : NeighborTuple) : Prop :=
  y ∈ N ∧ (reached N2 y).Nonempty

/-- No neighbor that reaches an uncovered two-hop neighbor is better. -/
def IsBest (neighbors : NeighborSet) (twoHops : TwoHopNeighborSet) (N : List NeighborTuple)
    (N2 : List TwoHopNeighborTuple) (y : NeighborTuple) : Prop :=
  Reaches N N2 y ∧ ∀ z, Reaches N N2 z → rank N2 z < rank N2 y ∨
    rank N2 z = rank N2 y ∧ trueDegree neighbors twoHops z ≤ trueDegree neighbors twoHops y

/-- The first of those with the greatest rank. -/
def IsFirst (N : List NeighborTuple) (N2 : List TwoHopNeighborTuple) (y : NeighborTuple) : Prop :=
  Reaches N N2 y ∧ ∀ z, Reaches N N2 z → rank N2 z < rank N2 y ∨
    rank N2 z = rank N2 y ∧ N.idxOf y ≤ N.idxOf z

/-- Rounds of step 4 take the uncovered records to others, where `select` says which neighbor is
selected. -/
inductive Rounds (select : List TwoHopNeighborTuple → NeighborTuple → Prop) :
    List TwoHopNeighborTuple → List TwoHopNeighborTuple → Prop
  | nil (N2 : List TwoHopNeighborTuple) : Rounds select N2 N2
  | cons {N2 N2' : List TwoHopNeighborTuple} {y : NeighborTuple} : select N2 y →
      Rounds select (coverTwoHopNeighbors y.neighborMainAddr N2) N2' → Rounds select N2 N2'

/-- What the code selects. -/
def Selected (neighbors : NeighborSet) (twoHops : TwoHopNeighborSet) (N : List NeighborTuple)
    (N2 : List TwoHopNeighborTuple) (y : NeighborTuple) : Prop :=
  ∃ r, selectMax neighbors twoHops N N2 = some (y, r)

/-- Every neighbor that is selected in step 4 is the best at its turn. -/
def FollowsRule (mainAddress : Ipv4Address) (neighbors : NeighborSet)
    (twoHops : TwoHopNeighborSet) : Prop :=
  let N := symNeighbors neighbors
  ∀ N2 y, Rounds (Selected neighbors twoHops N) (beforeGreedy mainAddress neighbors twoHops).2 N2 →
    Selected neighbors twoHops N N2 y → IsBest neighbors twoHops N N2 y

/-- When the first neighbor with the greatest rank is always selected, none of the same rank has a
greater degree. -/
def TiesInOrder (mainAddress : Ipv4Address) (neighbors : NeighborSet)
    (twoHops : TwoHopNeighborSet) : Prop :=
  let N := symNeighbors neighbors
  ∀ N2 y, Rounds (IsFirst N) (beforeGreedy mainAddress neighbors twoHops).2 N2 →
    IsFirst N N2 y → ∀ z, Reaches N N2 z → rank N2 z = rank N2 y →
      trueDegree neighbors twoHops z ≤ trueDegree neighbors twoHops y

/-! ## The first with the greatest rank -/

/-- A neighbor is in the neighbor set, so none of its tuples counts. -/
theorem degree_eq_zero (hy : y ∈ neighbors.tuples) : degree neighbors twoHops y = 0 := by
  refine List.countP_eq_zero.mpr fun t _ hcount => ?_
  obtain ⟨haddr, hnone⟩ := of_decide_eq_true hcount
  have hfound := List.find?_eq_none.mp hnone y hy
  simp [haddr] at hfound

/-- A two-hop neighbor is in the records of a neighbor once. -/
theorem card_reached (hN2 : List.Sublist N2 twoHops.tuples) (y : NeighborTuple) :
    (reached N2 y).card = reach N2 y := by
  have hnodup : (N2.map fun t => (t.neighborMainAddr, t.twoHopNeighborAddr)).Nodup :=
    twoHops.nodup.sublist (hN2.map _)
  have hrecords : ((N2.filter fun t => t.neighborMainAddr = y.neighborMainAddr).map
      TwoHopNeighborTuple.twoHopNeighborAddr).Nodup := by
    have hpairs := hnodup.sublist ((List.filter_sublist
      (p := fun t : TwoHopNeighborTuple => t.neighborMainAddr = y.neighborMainAddr)).map _)
    refine List.Nodup.of_map (fun a => (y.neighborMainAddr, a)) ?_
    rw [List.map_map]
    refine (List.map_congr_left fun t ht => ?_) ▸ hpairs
    have haddr := of_decide_eq_true (List.mem_filter.mp ht).2
    rw [haddr]
    rfl
  unfold reached reach
  rw [List.toFinset_card_of_nodup hrecords, List.length_map, List.countP_eq_length_filter]
  simp only [eq_comm]

theorem reached_nonempty : (reached N2 y).Nonempty ↔ reach N2 y ≠ 0 := by
  rw [reach_ne_zero, Finset.Nonempty]
  unfold reached
  simp only [List.mem_toFinset, List.mem_map, List.mem_filter, decide_eq_true_eq]
  constructor
  · rintro ⟨a, t, ⟨ht, haddr⟩, -⟩
    exact ⟨t, ht, haddr⟩
  · rintro ⟨t, ht, haddr⟩
    exact ⟨_, t, ⟨ht, haddr⟩, rfl⟩

theorem pairwise_idxOf {α : Type} [DecidableEq α] {l : List α} (hl : l.Nodup) :
    l.Pairwise fun a b => l.idxOf a < l.idxOf b := by
  refine List.pairwise_iff_getElem.mpr fun i j hi hj hij => ?_
  rw [hl.idxOf_getElem i hi, hl.idxOf_getElem j hj]
  exact hij

/-- In a list, the earlier of two members is related to the later. -/
theorem rel_of_idxOf_le {α : Type} [DecidableEq α] {R : α → α → Prop} {l : List α}
    (hl : l.Pairwise R) {a b : α} (ha : a ∈ l) (hb : b ∈ l) (h : l.idxOf a ≤ l.idxOf b) :
    a = b ∨ R a b := by
  rcases Nat.lt_or_eq_of_le h with hlt | heq
  · right
    have hrel := List.pairwise_iff_getElem.mp hl (l.idxOf a) (l.idxOf b)
      (List.idxOf_lt_length_of_mem ha) (List.idxOf_lt_length_of_mem hb) hlt
    rwa [List.getElem_idxOf, List.getElem_idxOf] at hrel
  · exact .inl ((List.idxOf_inj ha).mp heq)

/-- Candidates that reach as much are in the order of the neighbors. -/
theorem pairwise_candidates (hN : N.Nodup) :
    (candidates N N2).Pairwise fun a b => a.2 = b.2 → N.idxOf a.1 < N.idxOf b.1 := by
  have hin : ∀ e ∈ (buckets (reach N2) N).entries,
      ∀ c ∈ (if e.1 = 0 then [] else e.2.map fun n => (n, e.1)), c.2 = e.1 := by
    intro e _ c hc
    split at hc
    · cases hc
    · obtain ⟨n, -, rfl⟩ := List.mem_map.mp hc
      rfl
  refine List.pairwise_flatMap.mpr ⟨fun e he => ?_, ?_⟩
  · split
    · exact .nil
    · refine List.pairwise_map.mpr ?_
      rw [(mem_entries_buckets.mp he).1]
      have hbucket : (N.filter fun n => reach N2 n = e.1).Pairwise
          fun a b => N.idxOf a < N.idxOf b := (pairwise_idxOf hN).sublist List.filter_sublist
      refine hbucket.imp ?_
      intro a b hlt _
      exact hlt
  · refine (List.Pairwise.and_mem.mp (buckets (reach N2) N).sorted).imp ?_
    rintro e e' ⟨he, he', hlt⟩ c hc c' hc' heq
    rw [hin e he c hc, hin e' he' c' hc'] at heq
    omega

theorem mem_candidates_of_reaches (h : Reaches N N2 y) : (y, reach N2 y) ∈ candidates N N2 :=
  mem_candidates.mpr ⟨h.1, rfl, reached_nonempty.mp h.2⟩

theorem isFirst_of_selected (hN : ∀ n ∈ N, n ∈ neighbors.tuples) (hnodup : N.Nodup)
    (hN2 : List.Sublist N2 twoHops.tuples) (h : Selected neighbors twoHops N N2 y) :
    IsFirst N N2 y := by
  obtain ⟨r, h⟩ := h
  rw [selectMax_eq] at h
  have hmem := List.argmax_mem h
  obtain ⟨hy, hreach, hzero⟩ := mem_candidates.mp hmem
  dsimp only at hy hreach hzero
  subst hreach
  -- without the degree, the key of a candidate is the rank of the neighbor
  have hkey : ∀ n ∈ N, key (degree neighbors twoHops) (n, reach N2 n) =
      toLex (n.willingness.toNat, toLex ((reached N2 n).card, 0)) := by
    intro n hn
    unfold key
    rw [card_reached hN2, degree_eq_zero (hN n hn)]
  refine ⟨⟨hy, reached_nonempty.mpr hzero⟩, fun z hz => ?_⟩
  have hcz := mem_candidates_of_reaches hz
  have hle := List.le_of_mem_argmax hcz h
  rw [hkey z hz.1, hkey y hy] at hle
  by_cases hlt : rank N2 z < rank N2 y
  · exact .inl hlt
  · have heq : rank N2 z = rank N2 y := by
      unfold rank at hlt ⊢
      rw [Prod.Lex.toLex_lt_toLex] at hlt
      rw [Prod.Lex.toLex_le_toLex, Prod.Lex.toLex_le_toLex] at hle
      dsimp only at hlt hle
      have hwill : z.willingness.toNat = y.willingness.toNat := by omega
      have hcard : (reached N2 z).card = (reached N2 y).card := by omega
      rw [hwill, hcard]
    refine .inr ⟨heq, ?_⟩
    have hparts := Prod.mk.inj (toLex.injective heq)
    have hsame : key (degree neighbors twoHops) (y, reach N2 y) =
        key (degree neighbors twoHops) (z, reach N2 z) := by
      rw [hkey z hz.1, hkey y hy, hparts.1, hparts.2]
    have hidx := List.index_of_argmax h hcz (le_of_eq hsame)
    by_contra hbefore
    rcases rel_of_idxOf_le (pairwise_candidates hnodup) hmem hcz hidx with heq' | hrel
    · have hyz := congrArg Prod.fst heq'
      dsimp only at hyz
      rw [hyz] at hbefore
      exact hbefore (Nat.le_refl _)
    · have hreach : reach N2 y = reach N2 z := by
        rw [← card_reached hN2, ← card_reached hN2, hparts.2]
      exact hbefore (Nat.le_of_lt (hrel hreach))

theorem isFirst_unique (hy : IsFirst N N2 y) (hz : IsFirst N N2 z) : y = z := by
  have hirrefl : ¬ rank N2 y < rank N2 y := lt_irrefl _
  rcases hy.2 z hz.1 with hlt | ⟨heq, hle⟩
  · rcases hz.2 y hy.1 with hlt' | ⟨heq, -⟩
    · exact absurd (lt_trans hlt hlt') (lt_irrefl _)
    · rw [heq] at hlt
      exact absurd hlt (lt_irrefl _)
  · rcases hz.2 y hy.1 with hlt | ⟨-, hle'⟩
    · rw [heq] at hlt
      exact absurd hlt hirrefl
    · exact (List.idxOf_inj hy.1.1).mp (Nat.le_antisymm hle hle')

/-- **The code selects the first with the greatest rank.** -/
theorem selected_iff (hN : ∀ n ∈ N, n ∈ neighbors.tuples) (hnodup : N.Nodup)
    (hN2 : List.Sublist N2 twoHops.tuples) :
    Selected neighbors twoHops N N2 y ↔ IsFirst N N2 y := by
  refine ⟨isFirst_of_selected hN hnodup hN2, fun h => ?_⟩
  have hcandidate := mem_candidates_of_reaches h.1
  cases hmax : (candidates N N2).argmax (key (degree neighbors twoHops)) with
  | none =>
    rw [List.argmax_eq_none.mp hmax] at hcandidate
    cases hcandidate
  | some c =>
    have hselected : Selected neighbors twoHops N N2 c.1 := ⟨c.2, by rw [selectMax_eq, hmax]⟩
    rw [isFirst_unique h (isFirst_of_selected hN hnodup hN2 hselected)]
    exact hselected

/-! ## Rounds -/

theorem Rounds.sublist {select : List TwoHopNeighborTuple → NeighborTuple → Prop}
    {N2 N2' : List TwoHopNeighborTuple} (h : Rounds select N2 N2') : List.Sublist N2' N2 := by
  induction h with
  | nil => exact List.Sublist.refl _
  | cons _ _ ih => exact ih.trans (coverTwoHopNeighbors_sublist _)

theorem Rounds.mono {select select' : List TwoHopNeighborTuple → NeighborTuple → Prop}
    (hselect : ∀ N2 y, List.Sublist N2 twoHops.tuples → select N2 y → select' N2 y)
    {N2 N2' : List TwoHopNeighborTuple} (hN2 : List.Sublist N2 twoHops.tuples)
    (h : Rounds select N2 N2') : Rounds select' N2 N2' := by
  induction h with
  | nil => exact .nil _
  | cons hy _ ih =>
    exact .cons (hselect _ _ hN2 hy) (ih ((coverTwoHopNeighbors_sublist _).trans hN2))

/-- The relays that step 4 adds are those that are selected in its rounds. -/
theorem mem_selectGreedy {fuel : ℕ} {s : MprSet × List TwoHopNeighborTuple} {mprSet : MprSet}
    (h : selectGreedy neighbors twoHops N fuel s = some mprSet) {a : Ipv4Address} :
    a ∈ mprSet ↔ a ∈ s.1 ∨ ∃ N2 y, Rounds (Selected neighbors twoHops N) s.2 N2 ∧
      Selected neighbors twoHops N N2 y ∧ y.neighborMainAddr = a := by
  have hnone : ∀ N2 y, Rounds (Selected neighbors twoHops N) [] N2 →
      ¬ Selected neighbors twoHops N N2 y := by
    rintro N2 y hrounds ⟨r, hmax⟩
    rw [List.sublist_nil.mp hrounds.sublist, selectMax_eq] at hmax
    obtain ⟨-, hreach, hzero⟩ := mem_candidates.mp (List.argmax_mem hmax)
    exact hzero hreach
  induction fuel generalizing s with
  | zero =>
    obtain ⟨before, N2⟩ := s
    cases N2 with
    | nil =>
      cases h
      exact ⟨.inl, fun h => h.elim id fun ⟨N2, y, hrounds, hy, _⟩ => absurd hy (hnone N2 y hrounds)⟩
    | cons t N2 => cases h
  | succ fuel ih =>
    obtain ⟨before, N2⟩ := s
    cases N2 with
    | nil =>
      cases h
      exact ⟨.inl, fun h => h.elim id fun ⟨N2, y, hrounds, hy, _⟩ => absurd hy (hnone N2 y hrounds)⟩
    | cons t N2 =>
      unfold selectGreedy at h
      cases hmax : selectMax neighbors twoHops N (t :: N2) with
      | none =>
        rw [hmax] at h
        exact ih h
      | some c =>
        rw [hmax] at h
        have hc : Selected neighbors twoHops N (t :: N2) c.1 := ⟨c.2, hmax⟩
        refine (ih h).trans ?_
        constructor
        · rintro (ha | ⟨N2', y, hrounds, hy, rfl⟩)
          · rcases Finset.mem_insert.mp ha with rfl | ha
            · exact .inr ⟨_, c.1, .nil _, hc, rfl⟩
            · exact .inl ha
          · exact .inr ⟨N2', y, .cons hc hrounds, hy, rfl⟩
        · rintro (ha | ⟨N2', y, hrounds, hy, rfl⟩)
          · exact .inl (Finset.mem_insert_of_mem ha)
          · cases hrounds with
            | nil =>
              obtain ⟨r, hy⟩ := hy
              rw [hmax] at hy
              cases hy
              exact .inl (Finset.mem_insert_self _ _)
            | cons hy' hrounds =>
              obtain ⟨r, hy'⟩ := hy'
              rw [hmax] at hy'
              cases hy'
              exact .inr ⟨N2', y, hrounds, hy, rfl⟩

end Ns3.Olsr
