import Mathlib.Data.Prod.Lex
import Mathlib.Data.List.MinMax
import Ns3.Olsr.Mpr

/-!
# The multipoint relays cover the two-hop neighbors

The three steps take a record away from `N2` only when its two-hop neighbor is
reached by a relay (`Covers`), and the last step ends with no record.
-/

namespace Ns3.Olsr

open Ns3.Lib

variable {mainAddress : Ipv4Address} {neighbors : NeighborSet} {twoHops : TwoHopNeighborSet}
variable {N : List NeighborTuple} {N2 R : List TwoHopNeighborTuple} {mprSet : MprSet}

/-! ## Records -/

theorem mem_coverTwoHopNeighbors {a : Ipv4Address} {t : TwoHopNeighborTuple} :
    t ∈ coverTwoHopNeighbors a N2 ↔ t ∈ N2 ∧ ∀ o ∈ N2, o.neighborMainAddr = a →
      o.twoHopNeighborAddr ≠ t.twoHopNeighborAddr := by
  unfold coverTwoHopNeighbors
  simp only [List.mem_filter, List.mem_toFinset, List.mem_map, decide_eq_true_eq, not_exists,
    not_and, and_imp]

theorem coverTwoHopNeighbors_sublist (a : Ipv4Address) :
    List.Sublist (coverTwoHopNeighbors a N2) N2 := List.filter_sublist

/-- The records of the neighbor go, so there is one less when it reaches any. -/
theorem length_coverTwoHopNeighbors {a : Ipv4Address} {t : TwoHopNeighborTuple} (ht : t ∈ N2)
    (ha : t.neighborMainAddr = a) : (coverTwoHopNeighbors a N2).length < N2.length := by
  refine lt_of_le_of_ne (coverTwoHopNeighbors_sublist a).length_le fun heq => ?_
  have hall := (coverTwoHopNeighbors_sublist a).eq_of_length heq
  rw [← hall] at ht
  obtain ⟨ht, hne⟩ := mem_coverTwoHopNeighbors.mp ht
  exact hne t ht ha rfl

/-- What the relays and the records that are left say about the records `R`. -/
structure Covers (N : List NeighborTuple) (R : List TwoHopNeighborTuple)
    (s : MprSet × List TwoHopNeighborTuple) : Prop where
  relays : ∀ a ∈ s.1, ∃ n ∈ N, n.neighborMainAddr = a ∧ n.willingness ≠ willNever
  sublist : List.Sublist s.2 R
  covered : ∀ t ∈ R, t ∈ s.2 ∨
    ∃ o ∈ R, o.twoHopNeighborAddr = t.twoHopNeighborAddr ∧ o.neighborMainAddr ∈ s.1

/-- A relay is added and what it covers is taken away. -/
theorem Covers.cover (h : Covers N R (mprSet, N2)) {n : NeighborTuple} (hn : n ∈ N)
    (hwill : n.willingness ≠ willNever) :
    Covers N R (insert n.neighborMainAddr mprSet, coverTwoHopNeighbors n.neighborMainAddr N2) where
  relays a ha := by
    rcases Finset.mem_insert.mp ha with rfl | ha
    · exact ⟨n, hn, rfl, hwill⟩
    · exact h.relays a ha
  sublist := (coverTwoHopNeighbors_sublist _).trans h.sublist
  covered t ht := by
    rcases h.covered t ht with hmem | ⟨o, ho, hto, hmpr⟩
    · by_cases hcover : t ∈ coverTwoHopNeighbors n.neighborMainAddr N2
      · exact .inl hcover
      · rw [mem_coverTwoHopNeighbors] at hcover
        push Not at hcover
        obtain ⟨o, ho, haddr, htwo⟩ := hcover hmem
        refine .inr ⟨o, h.sublist.mem ho, htwo, ?_⟩
        rw [haddr]
        exact Finset.mem_insert_self _ _
    · exact .inr ⟨o, ho, hto, Finset.mem_insert_of_mem hmpr⟩

/-- Step 1. -/
theorem Covers.addAlways {M : List NeighborTuple} (hM : ∀ n ∈ M, n ∈ N)
    {s : MprSet × List TwoHopNeighborTuple} (h : Covers N R s) :
    Covers N R (addAlways M s) ∧ s.1 ⊆ (Olsr.addAlways M s).1 ∧
      ∀ n ∈ M, n.willingness = willAlways → n.neighborMainAddr ∈ (Olsr.addAlways M s).1 := by
  induction M generalizing s with
  | nil => exact ⟨h, Finset.Subset.refl _, fun n hn => by cases hn⟩
  | cons n M ih =>
    obtain ⟨mprSet, N2⟩ := s
    unfold Olsr.addAlways
    have hM' : ∀ n ∈ M, n ∈ N := fun n hn => hM n (List.mem_cons_of_mem _ hn)
    split
    · rename_i halways
      have hwill : n.willingness ≠ willNever := by
        rw [halways]
        decide
      obtain ⟨hcovers, hsub, hall⟩ := ih hM' (h.cover (hM n List.mem_cons_self) hwill)
      refine ⟨hcovers, (Finset.subset_insert _ _).trans hsub, fun n' hn' hwill' => ?_⟩
      rcases List.mem_cons.mp hn' with rfl | hn'
      · exact hsub (Finset.mem_insert_self _ _)
      · exact hall n' hn' hwill'
    · rename_i hother
      obtain ⟨hcovers, hsub, hall⟩ := ih hM' h
      refine ⟨hcovers, hsub, fun n' hn' hwill' => ?_⟩
      rcases List.mem_cons.mp hn' with rfl | hn'
      · exact absurd hwill' hother
      · exact hall n' hn' hwill'

/-- In the loop of step 3, what is covered is reached by a relay. -/
theorem addOnly_spec {ts : List TwoHopNeighborTuple} (hts : ∀ t ∈ ts, t ∈ N2)
    {s : MprSet × Finset Ipv4Address}
    (h : ∀ a ∈ s.2, ∃ o ∈ N2, o.twoHopNeighborAddr = a ∧ o.neighborMainAddr ∈ s.1) :
    s.1 ⊆ (addOnly N2 ts s).1 ∧
      (∀ a ∈ (addOnly N2 ts s).1, a ∈ s.1 ∨ ∃ t ∈ ts, t.neighborMainAddr = a) ∧
      ∀ a ∈ (addOnly N2 ts s).2,
        ∃ o ∈ N2, o.twoHopNeighborAddr = a ∧ o.neighborMainAddr ∈ (addOnly N2 ts s).1 := by
  induction ts generalizing s with
  | nil => exact ⟨Finset.Subset.refl _, fun a ha => .inl ha, h⟩
  | cons t ts ih =>
    obtain ⟨mprSet, covered⟩ := s
    unfold addOnly
    have hts' : ∀ t ∈ ts, t ∈ N2 := fun t ht => hts t (List.mem_cons_of_mem _ ht)
    split
    · obtain ⟨hsub, hnew, hcov⟩ := ih (s := (insert t.neighborMainAddr mprSet, covered ∪
        ((N2.filter fun o => o.neighborMainAddr = t.neighborMainAddr).map
          TwoHopNeighborTuple.twoHopNeighborAddr).toFinset)) hts' fun a ha => by
        rcases Finset.mem_union.mp ha with ha | ha
        · obtain ⟨o, ho, hoa, hmpr⟩ := h a ha
          exact ⟨o, ho, hoa, Finset.mem_insert_of_mem hmpr⟩
        · obtain ⟨o, ho, hoa⟩ := List.mem_map.mp (List.mem_toFinset.mp ha)
          obtain ⟨ho, haddr⟩ := List.mem_filter.mp ho
          refine ⟨o, ho, hoa, ?_⟩
          rw [of_decide_eq_true haddr]
          exact Finset.mem_insert_self _ _
      refine ⟨(Finset.subset_insert _ _).trans hsub, fun a ha => ?_, hcov⟩
      rcases hnew a ha with ha | ⟨t', ht', rfl⟩
      · rcases Finset.mem_insert.mp ha with rfl | ha
        · exact .inr ⟨t, List.mem_cons_self, rfl⟩
        · exact .inl ha
      · exact .inr ⟨t', List.mem_cons_of_mem _ ht', rfl⟩
    · obtain ⟨hsub, hnew, hcov⟩ := ih (s := (mprSet, covered)) hts' h
      refine ⟨hsub, fun a ha => ?_, hcov⟩
      exact (hnew a ha).imp_right fun ⟨t', ht', heq⟩ => ⟨t', List.mem_cons_of_mem _ ht', heq⟩

/-- Every record is of a neighbor that is willing. -/
def Willing (N : List NeighborTuple) (R : List TwoHopNeighborTuple) : Prop :=
  ∀ t ∈ R, ∃ n ∈ N, n.neighborMainAddr = t.neighborMainAddr ∧ n.willingness ≠ willNever

/-- Step 3. -/
theorem Covers.selectOnly {s : MprSet × List TwoHopNeighborTuple} (h : Covers N R s)
    (hR : Willing N R) : Covers N R (selectOnly s) ∧ s.1 ⊆ (Olsr.selectOnly s).1 := by
  obtain ⟨mprSet, N2⟩ := s
  obtain ⟨hsub, hnew, hcov⟩ := addOnly_spec (s := (mprSet, ∅)) (fun t ht => ht)
    (fun a ha => absurd ha (Finset.notMem_empty a) : ∀ a ∈ (∅ : Finset Ipv4Address),
      ∃ o ∈ N2, o.twoHopNeighborAddr = a ∧ o.neighborMainAddr ∈ mprSet)
  refine ⟨⟨fun a ha => ?_, List.filter_sublist.trans h.sublist, fun t ht => ?_⟩, hsub⟩
  · rcases hnew a ha with ha | ⟨t, ht, rfl⟩
    · exact h.relays a ha
    · exact hR t (h.sublist.mem ht)
  · rcases h.covered t ht with hmem | ⟨o, ho, hto, hmpr⟩
    · by_cases hcovered : t.twoHopNeighborAddr ∈ (addOnly N2 N2 (mprSet, ∅)).2
      · obtain ⟨o, ho, hto, hmpr⟩ := hcov _ hcovered
        exact .inr ⟨o, h.sublist.mem ho, hto, hmpr⟩
      · exact .inl (List.mem_filter.mpr ⟨hmem, decide_eq_true hcovered⟩)
    · exact .inr ⟨o, ho, hto, hsub hmpr⟩

/-! ## The best neighbor -/

/-- Willingness first, then what is reached, then the degree. -/
def key (degree : NeighborTuple → ℕ) (c : NeighborTuple × ℕ) : ℕ ×ₗ ℕ ×ₗ ℕ :=
  toLex (c.1.willingness.toNat, toLex (c.2, degree c.1))

/-- The neighbors that the two loops of step 4.2 go through, with what they reach. -/
def candidates (N : List NeighborTuple) (N2 : List TwoHopNeighborTuple) :
    List (NeighborTuple × ℕ) :=
  (buckets (reach N2) N).entries.flatMap fun e =>
    if e.1 = 0 then [] else e.2.map fun n => (n, e.1)

theorem better_eq (degree : NeighborTuple → ℕ) (max : Option (NeighborTuple × ℕ))
    (c : NeighborTuple × ℕ) :
    better degree max c = List.argAux (fun c m => key degree m < key degree c) max c := by
  cases max with
  | none => rfl
  | some m =>
    have hlt : key degree m < key degree c ↔ m.1.willingness < c.1.willingness ∨
        m.1.willingness = c.1.willingness ∧ (m.2 < c.2 ∨ m.2 = c.2 ∧ degree m.1 < degree c.1) := by
      unfold key
      rw [Prod.Lex.toLex_lt_toLex, Prod.Lex.toLex_lt_toLex, UInt8.lt_iff_toNat_lt,
        UInt8.toNat_inj]
    show better degree (some m) c = if key degree m < key degree c then some c else some m
    rw [if_congr hlt rfl rfl]
    unfold better
    dsimp only
    have hirrefl : ¬ c.1.willingness < c.1.willingness := by simp
    split_ifs <;> grind

/-- The loops keep the first candidate with the greatest key. -/
theorem selectMax_eq : selectMax neighbors twoHops N N2 =
    (candidates N N2).argmax (key (degree neighbors twoHops)) := by
  have hbucket : ∀ (e : ℕ × List NeighborTuple) (max : Option (NeighborTuple × ℕ)),
      (if e.1 = 0 then max
        else e.2.foldl (fun max n => better (degree neighbors twoHops) max (n, e.1)) max) =
      (if e.1 = 0 then [] else e.2.map fun n => (n, e.1)).foldl
        (List.argAux fun c m => key (degree neighbors twoHops) m <
          key (degree neighbors twoHops) c) max := by
    intro e max
    split
    · rfl
    · rw [List.foldl_map]
      simp only [better_eq]
  unfold selectMax candidates List.argmax
  rw [List.foldl_flatMap]
  simp only [hbucket]

/-- The candidates are the neighbors that reach a record. -/
theorem mem_candidates {c : NeighborTuple × ℕ} :
    c ∈ candidates N N2 ↔ c.1 ∈ N ∧ c.2 = reach N2 c.1 ∧ c.2 ≠ 0 := by
  unfold candidates
  rw [List.mem_flatMap]
  constructor
  · rintro ⟨e, he, hc⟩
    split at hc
    · cases hc
    · rename_i hzero
      obtain ⟨n, hn, rfl⟩ := List.mem_map.mp hc
      rw [(mem_entries_buckets.mp he).1] at hn
      obtain ⟨hN, hreach⟩ := List.mem_filter.mp hn
      exact ⟨hN, (of_decide_eq_true hreach).symm, hzero⟩
  · rintro ⟨hN, hreach, hzero⟩
    have hmem : c.1 ∈ N.filter fun n => reach N2 n = c.2 :=
      List.mem_filter.mpr ⟨hN, decide_eq_true hreach.symm⟩
    refine ⟨(c.2, N.filter fun n => reach N2 n = c.2),
      mem_entries_buckets.mpr ⟨rfl, List.ne_nil_of_mem hmem⟩, ?_⟩
    rw [if_neg hzero]
    exact List.mem_map.mpr ⟨c.1, hmem, rfl⟩

theorem reach_ne_zero {n : NeighborTuple} :
    reach N2 n ≠ 0 ↔ ∃ t ∈ N2, t.neighborMainAddr = n.neighborMainAddr := by
  unfold reach
  rw [← Nat.pos_iff_ne_zero, List.countP_pos_iff]
  simp only [decide_eq_true_eq, @eq_comm _ n.neighborMainAddr]

/-- While there is a record, a willing neighbor that reaches one is selected. -/
theorem selectMax_spec (neighbors : NeighborSet) (twoHops : TwoHopNeighborSet)
    (hN2 : Willing N N2) (hne : N2 ≠ []) :
    ∃ c, selectMax neighbors twoHops N N2 = some c ∧ c.1 ∈ N ∧
      ∃ t ∈ N2, t.neighborMainAddr = c.1.neighborMainAddr := by
  obtain ⟨t, ht⟩ := List.exists_mem_of_ne_nil N2 hne
  obtain ⟨n, hn, haddr, -⟩ := hN2 t ht
  have hcandidate : (n, reach N2 n) ∈ candidates N N2 :=
    mem_candidates.mpr ⟨hn, rfl, reach_ne_zero.mpr ⟨t, ht, haddr.symm⟩⟩
  rw [selectMax_eq]
  cases hmax : (candidates N N2).argmax (key (degree neighbors twoHops)) with
  | none =>
    rw [List.argmax_eq_none.mp hmax] at hcandidate
    cases hcandidate
  | some c =>
    obtain ⟨hc, hreach, hzero⟩ := mem_candidates.mp (List.argmax_mem hmax)
    rw [hreach] at hzero
    exact ⟨c, rfl, hc, reach_ne_zero.mp hzero⟩

/-! ## The whole computation -/

/-- A main address is in `N` once. -/
def Distinct (N : List NeighborTuple) : Prop :=
  ∀ n ∈ N, ∀ n' ∈ N, n.neighborMainAddr = n'.neighborMainAddr → n = n'

/-- Step 4: every round takes a record away, until none is left. -/
theorem Covers.selectGreedy (neighbors : NeighborSet) (twoHops : TwoHopNeighborSet)
    (hR : Willing N R) (hN : Distinct N) {fuel : ℕ}
    {s : MprSet × List TwoHopNeighborTuple} (h : Covers N R s) (hfuel : s.2.length ≤ fuel) :
    ∃ mprSet, selectGreedy neighbors twoHops N fuel s = some mprSet ∧ s.1 ⊆ mprSet ∧
      Covers N R (mprSet, []) := by
  induction fuel generalizing s with
  | zero =>
    obtain ⟨mprSet, N2⟩ := s
    cases N2 with
    | nil => exact ⟨mprSet, rfl, Finset.Subset.refl _, h⟩
    | cons t N2 => cases hfuel
  | succ fuel ih =>
    obtain ⟨mprSet, N2⟩ := s
    cases N2 with
    | nil => exact ⟨mprSet, rfl, Finset.Subset.refl _, h⟩
    | cons t N2 =>
      obtain ⟨c, hmax, hc, t', ht', haddr⟩ := selectMax_spec neighbors twoHops
        (fun t ht => hR t (h.sublist.mem ht)) (List.cons_ne_nil t N2)
      obtain ⟨n, hn, hsame, hwill⟩ := hR t' (h.sublist.mem ht')
      obtain rfl : n = c.1 := hN n hn c.1 hc (hsame.trans haddr)
      have hshort := length_coverTwoHopNeighbors ht' haddr
      obtain ⟨out, hout, hsub, hcovers⟩ := ih (h.cover hc hwill) (by
        show (coverTwoHopNeighbors _ _).length ≤ fuel
        exact Nat.le_of_lt_succ (Nat.lt_of_lt_of_le hshort hfuel))
      refine ⟨out, ?_, (Finset.subset_insert _ _).trans hsub, hcovers⟩
      unfold Olsr.selectGreedy
      rw [hmax]
      exact hout

theorem distinct_symNeighbors (neighbors : NeighborSet) : Distinct (symNeighbors neighbors) := by
  intro n hn n' hn' haddr
  obtain ⟨hn, hsym⟩ := List.mem_filter.mp hn
  obtain ⟨hn', hsym'⟩ := List.mem_filter.mp hn'
  have hfind := NeighborSet.find_of_mem (p := fun n => n.status = .sym) hn hsym
  rw [haddr, NeighborSet.find_of_mem (p := fun n => n.status = .sym) hn' hsym'] at hfind
  exact (Option.some.inj hfind).symm

/-- `N2` has the records of strict two-hop neighbors that a willing neighbor reaches. -/
theorem isN2_iff (t : TwoHopNeighborTuple) :
    isN2 mainAddress (symNeighbors neighbors) t = true ↔ t.twoHopNeighborAddr ≠ mainAddress ∧
      (∃ n ∈ symNeighbors neighbors, n.neighborMainAddr = t.neighborMainAddr ∧
        n.willingness ≠ willNever) ∧
      ∀ n ∈ symNeighbors neighbors, n.neighborMainAddr ≠ t.twoHopNeighborAddr := by
  have hdistinct := distinct_symNeighbors neighbors
  unfold isN2
  by_cases hmain : t.twoHopNeighborAddr = mainAddress
  · simp [hmain]
  rw [if_neg hmain]
  cases hfind : (symNeighbors neighbors).find? fun n => n.neighborMainAddr = t.neighborMainAddr with
  | none =>
    refine ⟨fun h => (by cases h), fun ⟨_, ⟨n, hn, haddr, _⟩, _⟩ => ?_⟩
    have := List.find?_eq_none.mp hfind n hn
    simp [haddr] at this
  | some n =>
    have hn := List.mem_of_find?_eq_some hfind
    have haddr : n.neighborMainAddr = t.neighborMainAddr := by
      simpa using List.find?_some hfind
    have hothers : ((symNeighbors neighbors).find? fun n =>
        n.neighborMainAddr = t.twoHopNeighborAddr).isNone = true ↔
          ∀ n ∈ symNeighbors neighbors, n.neighborMainAddr ≠ t.twoHopNeighborAddr := by
      rw [Option.isNone_iff_eq_none, List.find?_eq_none]
      simp
    dsimp only
    by_cases hwill : n.willingness = willNever
    · rw [if_pos hwill]
      refine ⟨fun h => (by cases h), fun ⟨_, ⟨n', hn', haddr', hwill'⟩, _⟩ => ?_⟩
      obtain rfl := hdistinct n hn n' hn' (haddr.trans haddr'.symm)
      exact absurd hwill hwill'
    · rw [if_neg hwill, hothers]
      exact ⟨fun h => ⟨hmain, ⟨n, hn, haddr, hwill⟩, h⟩, fun h => h.2.2⟩

/-- What a set of relays has to be. -/
structure IsMprSet (mainAddress : Ipv4Address) (neighbors : NeighborSet)
    (twoHops : TwoHopNeighborSet) (mprSet : MprSet) : Prop where
  relays : ∀ a ∈ mprSet, ∃ n ∈ neighbors.tuples, n.status = .sym ∧ n.neighborMainAddr = a ∧
    n.willingness ≠ willNever
  always : ∀ n ∈ neighbors.tuples, n.status = .sym → n.willingness = willAlways →
    n.neighborMainAddr ∈ mprSet
  covers : ∀ a, a ≠ mainAddress →
    (∀ n ∈ neighbors.tuples, n.status = .sym → n.neighborMainAddr ≠ a) →
    (∃ t ∈ twoHops.tuples, t.twoHopNeighborAddr = a ∧ ∃ n ∈ neighbors.tuples, n.status = .sym ∧
      n.neighborMainAddr = t.neighborMainAddr ∧ n.willingness ≠ willNever) →
    ∃ t ∈ twoHops.tuples, t.twoHopNeighborAddr = a ∧ t.neighborMainAddr ∈ mprSet

/-- What step 4 begins with covers all of `N2`, and has the relays of step 1. -/
theorem covers_beforeGreedy (mainAddress : Ipv4Address) (neighbors : NeighborSet)
    (twoHops : TwoHopNeighborSet) :
    Willing (symNeighbors neighbors)
      (twoHops.tuples.filter (isN2 mainAddress (symNeighbors neighbors))) ∧
    Covers (symNeighbors neighbors)
      (twoHops.tuples.filter (isN2 mainAddress (symNeighbors neighbors)))
      (beforeGreedy mainAddress neighbors twoHops) ∧
    ∀ n ∈ symNeighbors neighbors, n.willingness = willAlways →
      n.neighborMainAddr ∈ (beforeGreedy mainAddress neighbors twoHops).1 := by
  have hwilling : Willing (symNeighbors neighbors)
      (twoHops.tuples.filter (isN2 mainAddress (symNeighbors neighbors))) :=
    fun t ht => ((isN2_iff t).mp (List.mem_filter.mp ht).2).2.1
  have hstart : Covers (symNeighbors neighbors)
      (twoHops.tuples.filter (isN2 mainAddress (symNeighbors neighbors)))
      (∅, twoHops.tuples.filter (isN2 mainAddress (symNeighbors neighbors))) :=
    ⟨fun a ha => absurd ha (Finset.notMem_empty a), List.Sublist.refl _, fun t ht => .inl ht⟩
  obtain ⟨halways, -, hall⟩ := hstart.addAlways fun n hn => hn
  obtain ⟨honly, hsub⟩ := halways.selectOnly hwilling
  exact ⟨hwilling, honly, fun n hn hwill => hsub (hall n hn hwill)⟩

end Ns3.Olsr
