import Ns3.Ferry2.PrecalculationSpec
import Ns3.Lib.Fold

/-!
# The route that is stored

Shelters that are out of reach stay among the candidates, at the distance
`inf`. So with fewer than three shelters within reach the draw may hit one of
the others, and no path is stored. The pair `(-1, -1)` stands for no parent and
the longitude `-1` for no shelter, although places may have them.
-/

namespace Ns3.Ferry2

open Ns3.Lib PairSearch

namespace UavMap

def Reaches (nodes : UavMap) (u v : Pos) : Prop := ∃ p d, PathTo nodes.edge u p v d

/-- The distance from `u`, with `inf` for what is out of reach. -/
noncomputable def distance (nodes : UavMap) (u v : Pos) : ℚ := distBelow nodes.edge u maxWeight v

/-- As many turns as any loop of the precalculation takes. -/
def turns (nodes : UavMap) : ℕ := pending nodes [] + nodes.size + 2

end UavMap

section Search

variable {nodes : UavMap} {s u v : Pos} {st : PairSearch} {done : List Pos} {k : ℕ}

theorem mem_of_pathTo {p : List Pos} {d : ℚ} (hs : nodes.find s ≠ none)
    (h : PathTo nodes.edge s p v d) : ∀ x ∈ p, x ∈ nodes.keys := by
  have hon : ∀ x, nodes.find x ≠ none → x ∈ nodes.keys := fun x hx =>
    StdMap.mem_keys.mpr (Option.ne_none_iff_exists'.mp hx)
  induction h with
  | start =>
    intro x hx
    rw [List.mem_singleton.mp hx]
    exact hon s hs
  | @step p u v d w _ hedge ih =>
    intro x hx
    rcases List.mem_append.mp hx with hx | hx
    · exact ih x hx
    · rw [List.mem_singleton.mp hx]
      obtain ⟨node, hnode, -⟩ := Option.bind_eq_some_iff.mp hedge
      exact hon v ((edge_eq_some hnode).mp hedge).2

theorem UavMap.Reaches.on_map (hs : nodes.find s ≠ none) (h : nodes.Reaches s v) :
    nodes.find v ≠ none := by
  obtain ⟨p, d, hp⟩ := h
  obtain ⟨q, rfl⟩ := hp.exists_concat
  obtain ⟨node, hnode⟩ := StdMap.mem_keys.mp (mem_of_pathTo hs hp v (by simp))
  rw [hnode]
  exact Option.some_ne_none _

/-- What a search from `s` leaves. -/
structure PairSearched (nodes : UavMap) (s : Pos) (st : PairSearch) : Prop where
  dist : ∀ v, nodes.find v ≠ none → st.dist.find v = some (nodes.distance s v)
  off : ∀ v, nodes.find v = none → st.dist.find v = none
  traced : ∀ v, nodes.distance s v < maxWeight → ∃ p, Traced st.parent s p v ∧
    PathTo nodes.edge s p v (nodes.distance s v) ∧ p.length ≤ nodes.size
  untraced : ∀ v, maxWeight ≤ nodes.distance s v → nodes.find v ≠ none →
    st.parent.find v = some dummyParent

theorem searched_of_nonneg (hpos : nodes.Nonneg) (hs : nodes.find s ≠ none) :
    ∃ st, (∀ k, nodes.turns ≤ k → dijkstraPair k nodes s = some st) ∧ PairSearched nodes s st := by
  obtain ⟨st, done, hloop, h, hleft⟩ := dijkstraPair_spec hpos hs
  have hlabel : ∀ v, st.label v = nodes.distance s v := h.labelled.eq_distBelow hpos hleft
  refine ⟨st, fun k hk => hloop k ?_, fun v hv => ?_, fun v hv => (h.keys v).mpr hv,
    fun v hv => ?_, fun v hv hon => ?_⟩
  · have hsize : 0 < nodes.size := by
      obtain ⟨node, hnode⟩ := Option.ne_none_iff_exists'.mp hs
      exact List.length_pos_of_mem (StdMap.mem_entries.mpr hnode)
    unfold UavMap.turns at hk
    omega
  · obtain ⟨d, hd⟩ := Option.ne_none_iff_exists'.mp fun hnone => hv ((h.keys v).mp hnone)
    rw [← hlabel, label_of_find hd, hd]
  · rw [← hlabel] at hv ⊢
    obtain ⟨p, htrace, hpath, hnodup, -⟩ := h.traced v hv
    refine ⟨p, htrace, hpath, ?_⟩
    have hle := hnodup.length_le_of_subset (mem_of_pathTo hs hpath)
    rwa [StdMap.keys, List.length_map] at hle
  · rw [← hlabel] at hv
    exact h.untraced v hv hon

end Search

/-! ## The claims on the search -/

/-- `dijkstra_pair` finds the distance of every node in reach, and `inf` for the others, and
`reconstruct_path_pair` a shortest path to every node in reach. -/
def ExactSearch (k : ℕ) (nodes : UavMap) (u : Pos) : Prop :=
  ∃ st, dijkstraPair k nodes u = some st ∧
    (∀ v, nodes.Reaches u v → ∃ d path, st.dist.find v = some d ∧ d < maxWeight ∧
      IsDist nodes.edge u v d ∧ reconstructPathPair k u v st.parent = some path ∧
        PathTo nodes.edge u path v d) ∧
      ∀ v, nodes.find v ≠ none → ¬ nodes.Reaches u v → st.dist.find v = some maxWeight

/-- Nothing in reach is as far as `inf`, and no other node in reach is the one that stands for no
parent. -/
def Representable (nodes : UavMap) (u : Pos) : Prop :=
  (∀ v, nodes.Reaches u v → nodes.distance u v < maxWeight) ∧
    (nodes.Reaches u dummyParent → u = dummyParent)

section Exact

variable {nodes : UavMap} {u v : Pos} {st : PairSearch} {k : ℕ}

/-- The way back from a node in reach. -/
theorem PairSearched.reconstruct (h : PairSearched nodes u st)
    (hdummy : nodes.Reaches u dummyParent → u = dummyParent) (hk : nodes.size ≤ k)
    (hlt : nodes.distance u v < maxWeight) :
    ∃ path, reconstructPathPair k u v st.parent = some path ∧
      PathTo nodes.edge u path v (nodes.distance u v) := by
  obtain ⟨p, htrace, hpath, hlen⟩ := h.traced v hlt
  have hp : ∀ x ∈ p, x ≠ u → x ≠ dummyParent := by
    rintro x hx hne rfl
    obtain ⟨pre, post, rfl⟩ := List.append_of_mem hx
    obtain ⟨d₁, -, hd, -⟩ := hpath.split
    exact hne (hdummy ⟨_, d₁, hd⟩).symm
  refine ⟨p, ?_, hpath⟩
  unfold reconstructPathPair
  rw [traceBack_of_traced htrace hp (hlen.trans hk), List.reverse_nil, List.append_nil]

theorem exactSearch_iff (hpos : nodes.Nonneg) (hu : nodes.find u ≠ none) (hk : nodes.turns ≤ k) :
    ExactSearch k nodes u ↔ Representable nodes u := by
  obtain ⟨st, hst, h⟩ := searched_of_nonneg hpos hu
  have hst := hst k hk
  have hsize : nodes.size ≤ k := by
    unfold UavMap.turns at hk
    omega
  constructor
  · rintro ⟨st', hst', hreach, -⟩
    rw [hst] at hst'
    cases hst'
    refine ⟨fun v hv => ?_, fun hd => ?_⟩
    · obtain ⟨d, path, -, hlt, hdist, -⟩ := hreach v hv
      unfold UavMap.distance
      rw [distBelow_of_isDist hdist hlt]
      exact hlt
    · obtain ⟨d, path, -, -, -, hback, hpath⟩ := hreach dummyParent hd
      by_contra hne
      obtain ⟨q, rfl⟩ := hpath.exists_cons
      obtain ⟨j, rfl⟩ : ∃ j, k = j + 1 := ⟨k - 1, by unfold UavMap.turns at hk; omega⟩
      unfold reconstructPathPair at hback
      rw [traceBack, if_neg fun hgo => hgo.1 rfl, if_neg (Ne.symm hne)] at hback
      cases hback
  · rintro ⟨hnear, hdummy⟩
    refine ⟨st, hst, fun v hv => ?_, fun v hon hv => ?_⟩
    · have hlt := hnear v hv
      obtain ⟨path, hback, hpath⟩ := h.reconstruct hdummy hsize hlt
      exact ⟨_, path, h.dist v (hv.on_map hu), hlt, isDist_of_distBelow_lt hlt, hback, hpath⟩
    · rw [h.dist v hon]
      congr 1
      unfold UavMap.distance distBelow
      rw [dif_neg]
      rintro ⟨d, ⟨⟨p, hp⟩, -⟩, -⟩
      exact hv ⟨p, d, hp⟩

end Exact

/-! ## The draw -/

/-- `std::sort`, by the distances alone. -/
structure SortsByDistance (sort : List (ℚ × Pos) → List (ℚ × Pos)) : Prop where
  perm : ∀ l, (sort l).Perm l
  sorted : ∀ l, (sort l).Pairwise fun a b => a.1 ≤ b.1

/-- In a sorted list no more elements are less than one than stand before it. -/
theorem countP_lt_le {l : List (ℚ × Pos)} (hsorted : l.Pairwise fun a b => a.1 ≤ b.1) {i : ℕ}
    {t : ℚ × Pos} (ht : l[i]? = some t) : l.countP (fun x => decide (x.1 < t.1)) ≤ i := by
  obtain ⟨hi, hget⟩ := List.getElem?_eq_some_iff.mp ht
  have hsplit : l = l.take i ++ t :: l.drop (i + 1) := by
    rw [← hget, List.cons_getElem_drop_succ, List.take_append_drop]
  rw [hsplit, List.pairwise_append] at hsorted
  obtain ⟨-, htail, -⟩ := hsorted
  have hlate : (t :: l.drop (i + 1)).countP (fun x => decide (x.1 < t.1)) = 0 := by
    rw [List.countP_eq_zero]
    intro x hx
    rw [decide_eq_true_eq, not_lt]
    rcases List.mem_cons.mp hx with rfl | hx
    · exact le_rfl
    · exact List.rel_of_pairwise_cons htail hx
  calc l.countP (fun x => decide (x.1 < t.1))
      = (l.take i).countP (fun x => decide (x.1 < t.1)) := by
        conv_lhs => rw [hsplit]
        rw [List.countP_append, hlate, Nat.add_zero]
    _ ≤ (l.take i).length := List.countP_le_length
    _ ≤ i := by
        rw [List.length_take]
        exact Nat.min_le_left _ _

section Draw

variable {nodes : UavMap} {u : Pos} {exit : List Pos} {sort : List (ℚ × Pos) → List (ℚ × Pos)}
  {rand k : ℕ} {st : PairSearch} {t : ℚ × Pos}

/-- The shelters on the map, with their distances. -/
noncomputable def candidateShelters (nodes : UavMap) (u : Pos) (exit : List Pos) : List (ℚ × Pos) :=
  exit.filterMap fun s => if nodes.contains s then some (nodes.distance u s, s) else none

/-- The shelter that is drawn, at its distance. -/
def Drawn (sort : List (ℚ × Pos) → List (ℚ × Pos)) (rand : ℕ) (nodes : UavMap) (u : Pos)
    (exit : List Pos) (t : ℚ × Pos) : Prop :=
  (sort (candidateShelters nodes u exit))[rand % min 3 (candidateShelters nodes u exit).length]? =
    some t

theorem mem_candidateShelters : t ∈ candidateShelters nodes u exit ↔
    t.2 ∈ exit ∧ nodes.find t.2 ≠ none ∧ t.1 = nodes.distance u t.2 := by
  unfold candidateShelters
  rw [List.mem_filterMap]
  constructor
  · rintro ⟨s, hs, h⟩
    obtain ⟨hon, h⟩ := Option.ite_none_right_eq_some.mp h
    cases h
    exact ⟨hs, Option.isSome_iff_ne_none.mp hon, rfl⟩
  · rintro ⟨hs, hon, hd⟩
    refine ⟨t.2, hs, ?_⟩
    have hcontains : nodes.contains t.2 = true := Option.isSome_iff_ne_none.mpr hon
    rw [if_pos hcontains, ← hd]

theorem PairSearched.candidates_eq (h : PairSearched nodes u st) :
    shelterCandidates st.dist exit = candidateShelters nodes u exit := by
  unfold shelterCandidates candidateShelters
  refine List.filterMap_congr fun s _ => ?_
  by_cases hon : nodes.find s = none
  · have hcontains : nodes.contains s = false := by
      rw [StdMap.contains, hon]
      rfl
    rw [h.off s hon, hcontains]
    rfl
  · have hcontains : nodes.contains s = true := Option.isSome_iff_ne_none.mpr hon
    rw [h.dist s hon, if_pos hcontains]
    rfl

theorem Drawn.mem (hsort : SortsByDistance sort) (h : Drawn sort rand nodes u exit t) :
    t ∈ candidateShelters nodes u exit :=
  (hsort.perm _).mem_iff.mp (List.mem_of_getElem? h)

theorem Drawn.unique {t' : ℚ × Pos} (h : Drawn sort rand nodes u exit t)
    (h' : Drawn sort rand nodes u exit t') : t = t' :=
  Option.some.inj (h.symm.trans h')

/-- Fewer than three shelters are nearer than the one drawn. -/
theorem Drawn.among_three (hsort : SortsByDistance sort) (h : Drawn sort rand nodes u exit t) :
    (candidateShelters nodes u exit).countP (fun x => decide (x.1 < t.1)) < 3 := by
  have hlen : 0 < (candidateShelters nodes u exit).length :=
    List.length_pos_of_mem (h.mem hsort)
  rw [← (hsort.perm _).countP_eq]
  refine (countP_lt_le (hsort.sorted _) h).trans_lt ?_
  exact (Nat.mod_lt _ (by omega)).trans_le (Nat.min_le_left _ _)

end Draw

/-! ## What is stored for a crossing -/

/-- With a shelter in reach, the path stored is a shortest one from `u` to the shelter stored, and
fewer than three shelters are nearer. -/
def StoredRight (nodes : UavMap) (u : Pos) (exit : List Pos) (stored : List Pos × Pos) : Prop :=
  (∃ s ∈ exit, nodes.Reaches u s) → ∃ d, stored.2 ∈ exit ∧ IsDist nodes.edge u stored.2 d ∧
    PathTo nodes.edge u stored.1 stored.2 d ∧
      exit.countP (fun x => decide (nodes.distance u x < d)) < 3

/-- The shelter drawn is in reach, and its longitude is not the one that stands for no shelter. -/
def GoodDraw (sort : List (ℚ × Pos) → List (ℚ × Pos)) (rand : ℕ) (nodes : UavMap) (u : Pos)
    (exit : List Pos) : Prop :=
  (∃ s ∈ exit, nodes.Reaches u s) →
    ∃ t, Drawn sort rand nodes u exit t ∧ t.1 < maxWeight ∧ (ofLex t.2).1 ≠ -1

section Stored

variable {nodes : UavMap} {u : Pos} {exit : List Pos} {sort : List (ℚ × Pos) → List (ℚ × Pos)}
  {rand k : ℕ} {st : PairSearch}

theorem traceBack_isSome {parent : StdMap Pos Pos} {s v : Pos} {p acc : List Pos}
    (h : Traced parent s p v) (hk : p.length ≤ k) : ∃ path, traceBack s parent k v acc = some path := by
  induction h generalizing k acc with
  | start =>
    obtain ⟨k, rfl⟩ : ∃ j, k = j + 1 := ⟨k - 1, by rw [List.length_singleton] at hk; omega⟩
    rw [traceBack, if_neg fun hne => hne.2 rfl, if_pos rfl]
    exact ⟨_, rfl⟩
  | @step p u v hne hu _ ih =>
    rw [List.length_append, List.length_singleton] at hk
    obtain ⟨k, rfl⟩ : ∃ j, k = j + 1 := ⟨k - 1, by omega⟩
    rw [traceBack]
    split_ifs
    · rw [hu]
      exact ih (by omega)
    · exact ⟨_, rfl⟩

theorem PairSearched.reconstruct_isSome (h : PairSearched nodes u st) (hk : nodes.turns ≤ k)
    {v : Pos} (hon : nodes.find v ≠ none) :
    ∃ path, reconstructPathPair k u v st.parent = some path := by
  unfold UavMap.turns at hk
  unfold reconstructPathPair
  by_cases hlt : nodes.distance u v < maxWeight
  · obtain ⟨p, htrace, -, hlen⟩ := h.traced v hlt
    exact traceBack_isSome htrace (by omega)
  · exact traceBack_untraced (h.untraced v (not_lt.mp hlt) hon) (by omega)

theorem targetShelter_of_drawn (h : PairSearched nodes u st) {t : ℚ × Pos}
    (ht : Drawn sort rand nodes u exit t) :
    targetShelter sort rand (shelterCandidates st.dist exit) = t.2 := by
  unfold targetShelter
  rw [h.candidates_eq]
  unfold Drawn at ht
  rw [ht]

theorem targetShelter_of_none (h : PairSearched nodes u st)
    (ht : ¬ ∃ t, Drawn sort rand nodes u exit t) :
    targetShelter sort rand (shelterCandidates st.dist exit) = dummyParent := by
  unfold targetShelter
  rw [h.candidates_eq]
  cases hget : (sort (candidateShelters nodes u exit))[rand %
      min 3 (candidateShelters nodes u exit).length]? with
  | none => rfl
  | some t => exact absurd ⟨t, hget⟩ ht

/-- What is stored: the way back from the shelter drawn, or nothing. -/
theorem precalculateFrom_spec (rand : ℕ) (exit : List Pos) (hsort : SortsByDistance sort)
    (hpos : nodes.Nonneg) (hu : nodes.find u ≠ none) (hk : nodes.turns ≤ k) :
    ∃ stored, precalculateFrom k sort rand exit nodes u = some stored ∧
      ((∃ t st, Drawn sort rand nodes u exit t ∧ (ofLex t.2).1 ≠ -1 ∧ PairSearched nodes u st ∧
          reconstructPathPair k u t.2 st.parent = some stored.1 ∧ stored.2 = t.2) ∨
        stored.1 = [] ∧ ∀ t, Drawn sort rand nodes u exit t → (ofLex t.2).1 = -1) := by
  obtain ⟨st, hst, h⟩ := searched_of_nonneg hpos hu
  unfold precalculateFrom
  rw [hst k hk, Option.bind_eq_bind, Option.bind_some]
  dsimp only
  by_cases hdrawn : ∃ t, Drawn sort rand nodes u exit t
  · obtain ⟨t, ht⟩ := hdrawn
    rw [targetShelter_of_drawn h ht]
    by_cases hlon : (ofLex t.2).1 = -1
    · rw [if_neg fun hne => hne hlon]
      refine ⟨_, rfl, .inr ⟨rfl, fun t' ht' => ?_⟩⟩
      rwa [ht'.unique ht]
    · rw [if_pos hlon]
      obtain ⟨-, hon, -⟩ := mem_candidateShelters.mp (ht.mem hsort)
      obtain ⟨path, hpath⟩ := h.reconstruct_isSome hk hon
      rw [hpath, Option.bind_eq_bind, Option.bind_some]
      exact ⟨_, rfl, .inl ⟨t, st, ht, hlon, h, hpath, rfl⟩⟩
  · rw [targetShelter_of_none h hdrawn, if_neg fun hne => hne rfl]
    exact ⟨_, rfl, .inr ⟨rfl, fun t ht => absurd ⟨t, ht⟩ hdrawn⟩⟩

/-- Shelters that are nearer are on the map. -/
theorem countP_exit (hu : nodes.find u ≠ none) {d : ℚ} (hd : d ≤ maxWeight) :
    exit.countP (fun x => decide (nodes.distance u x < d)) =
      (candidateShelters nodes u exit).countP (fun x => decide (x.1 < d)) := by
  unfold candidateShelters
  rw [List.countP_filterMap]
  refine List.countP_congr fun x _ => ?_
  by_cases hon : nodes.find x = none
  · have hcontains : nodes.contains x = false := by
      rw [StdMap.contains, hon]
      rfl
    have hfar : ¬ nodes.distance u x < d := by
      intro hlt
      have hdist := isDist_of_distBelow_lt (hlt.trans_le hd)
      obtain ⟨p, hp⟩ := hdist.1
      exact UavMap.Reaches.on_map hu ⟨p, _, hp⟩ hon
    simp [hcontains, hfar]
  · have hcontains : nodes.contains x = true := Option.isSome_iff_ne_none.mpr hon
    simp [hcontains]

theorem storedRight_iff (hsort : SortsByDistance sort) (hpos : nodes.Nonneg)
    (hu : nodes.find u ≠ none) (hk : nodes.turns ≤ k) (hrep : Representable nodes u)
    {stored : List Pos × Pos} (hstored : precalculateFrom k sort rand exit nodes u = some stored) :
    StoredRight nodes u exit stored ↔ GoodDraw sort rand nodes u exit := by
  obtain ⟨stored', hstored', hcases⟩ :=
    precalculateFrom_spec rand exit hsort hpos hu hk
  rw [hstored] at hstored'
  cases hstored'
  refine forall_congr' fun _ => ?_
  constructor
  · rintro ⟨d, -, hdist, hpath, -⟩
    obtain ⟨q, hq⟩ := hpath.exists_cons
    rcases hcases with ⟨t, st, ht, hlon, -, -, hsame⟩ | ⟨hnil, -⟩
    · refine ⟨t, ht, ?_, hlon⟩
      obtain ⟨-, -, hd⟩ := mem_candidateShelters.mp (ht.mem hsort)
      rw [hd, ← hsame]
      exact hrep.1 _ ⟨_, d, hpath⟩
    · rw [hnil] at hq
      cases hq
  · rintro ⟨t, ht, hlt, hlon⟩
    rcases hcases with ⟨t', st, ht', -, h, hback, hsame⟩ | ⟨-, hnone⟩
    · obtain rfl := ht'.unique ht
      obtain ⟨hexit, hon, hd⟩ := mem_candidateShelters.mp (ht.mem hsort)
      have hsize : nodes.size ≤ k := by
        unfold UavMap.turns at hk
        omega
      rw [hd] at hlt
      obtain ⟨path, hpath', hpath⟩ := h.reconstruct hrep.2 hsize hlt
      rw [hback] at hpath'
      cases hpath'
      rw [hsame]
      refine ⟨nodes.distance u t'.2, hexit, isDist_of_distBelow_lt hlt, hpath, ?_⟩
      have hthree := ht.among_three hsort
      rw [hd] at hthree
      rwa [countP_exit hu (le_of_lt hlt)]
    · exact absurd (hnone t ht) hlon

end Stored

/-! ## The loop over the nodes -/

section AllNodes

variable {nodes nodes' : UavMap} {u : Pos} {exit : List Pos}
  {sort : List (ℚ × Pos) → List (ℚ × Pos)} {rand : ℕ} {k : ℕ}

/-- The two maps have the same nodes and edges. -/
def SameRoads (nodes nodes' : UavMap) : Prop :=
  ∀ v, (nodes'.find v).map UavNode.neighborNodesforUAV =
    (nodes.find v).map UavNode.neighborNodesforUAV

theorem visit_sameRoads (h : SameRoads nodes nodes') (st : PairSearch) (d : ℚ) (u : Pos) :
    visit nodes' st d u = visit nodes st d u := by
  have hu := h u
  unfold visit
  cases st.dist.find u with
  | none => rfl
  | some du =>
    dsimp only
    split_ifs
    · rfl
    · cases hn : nodes.find u with
      | none =>
        rw [hn, Option.map_none, Option.map_eq_none_iff] at hu
        rw [hu]
      | some node =>
        rw [hn, Option.map_some, Option.map_eq_some_iff] at hu
        obtain ⟨node', hn', hsame⟩ := hu
        rw [hn', Option.bind_eq_bind, Option.bind_some, Option.bind_some, hsame]

theorem loop_sameRoads (h : SameRoads nodes nodes') (k : ℕ) (st : PairSearch) :
    PairSearch.loop nodes' k st = PairSearch.loop nodes k st := by
  induction k generalizing st with
  | zero => rfl
  | succ k ih =>
    rw [PairSearch.loop, PairSearch.loop]
    cases st.pq with
    | nil => rfl
    | cons top rest =>
      dsimp only
      rw [visit_sameRoads h]
      exact congrArg _ (funext fun st => ih st)

theorem start_sameRoads (h : SameRoads nodes nodes') (s : Pos) : start nodes' s = start nodes s := by
  have hmap : ∀ {α : Type} (a : α), nodes'.filterMap (fun _ _ => some a) =
      nodes.filterMap fun _ _ => some a := by
    intro α a
    refine StdMap.ext fun v => ?_
    have hv := h v
    rw [StdMap.find_filterMap, StdMap.find_filterMap]
    cases hn : nodes.find v with
    | none =>
      rw [hn, Option.map_none, Option.map_eq_none_iff] at hv
      rw [hv]
    | some node =>
      rw [hn, Option.map_some, Option.map_eq_some_iff] at hv
      obtain ⟨node', hn', -⟩ := hv
      rw [hn']
      rfl
  unfold start
  rw [hmap, hmap]

theorem precalculateFrom_sameRoads (h : SameRoads nodes nodes') (u : Pos) :
    precalculateFrom k sort rand exit nodes' u = precalculateFrom k sort rand exit nodes u := by
  unfold precalculateFrom dijkstraPair
  rw [loop_sameRoads h, start_sameRoads h]

theorem foldlM_storeRoute {rand : Pos → ℕ} {es : List (Pos × UavNode)}
    (hes : es.Pairwise fun a b => a.1 < b.1) (hon : ∀ e ∈ es, nodes.find e.1 ≠ none)
    (hall : ∀ e ∈ es, ∃ stored, precalculateFrom k sort (rand e.1) exit nodes e.1 = some stored)
    (h : SameRoads nodes nodes') :
    ∃ nodes'', es.foldlM (storeRoute k sort rand exit) nodes' = some nodes'' ∧
      SameRoads nodes nodes'' ∧ (∀ v, (∀ e ∈ es, e.1 ≠ v) → nodes''.find v = nodes'.find v) ∧
        ∀ e ∈ es, ∃ node, nodes''.find e.1 = some node ∧
          precalculateFrom k sort (rand e.1) exit nodes e.1 =
            some (node.shortestPath, node.nearestShelter) := by
  induction es generalizing nodes' with
  | nil => exact ⟨nodes', rfl, h, fun _ _ => rfl, fun e he => absurd he (by simp)⟩
  | cons e es ih =>
    obtain ⟨hnew, hes⟩ := List.pairwise_cons.mp hes
    obtain ⟨stored, hstored⟩ := hall e (by simp)
    have hnode : nodes'.find e.1 ≠ none := by
      intro hnone
      have he := h e.1
      rw [hnone, Option.map_none, eq_comm, Option.map_eq_none_iff] at he
      exact hon e (by simp) he
    obtain ⟨node, hnode⟩ := Option.ne_none_iff_exists'.mp hnode
    let node' : UavNode := { node with shortestPath := stored.1, nearestShelter := stored.2 }
    have hstep : storeRoute k sort rand exit nodes' e = some (nodes'.assign e.1 node') := by
      unfold storeRoute
      rw [precalculateFrom_sameRoads h, hstored, Option.bind_eq_bind, Option.bind_some, hnode]
      rfl
    have hsame : SameRoads nodes (nodes'.assign e.1 node') := by
      intro v
      rw [StdMap.find_assign]
      split_ifs with hv
      · rw [hv, ← h e.1, hnode]
        rfl
      · exact h v
    obtain ⟨nodes'', hfold, hroads, hkept, hdone⟩ := ih hes
      (fun e he => hon e (List.mem_cons_of_mem _ he))
      (fun e he => hall e (List.mem_cons_of_mem _ he)) hsame
    refine ⟨nodes'', ?_, hroads, fun v hv => ?_, fun e' he' => ?_⟩
    · rw [List.foldlM_cons, hstep, Option.bind_eq_bind, Option.bind_some, hfold]
    · rw [hkept v fun e he => hv e (List.mem_cons_of_mem _ he), StdMap.find_assign,
        if_neg (hv e (by simp)).symm]
    · rcases List.mem_cons.mp he' with rfl | he'
      · refine ⟨node', ?_, hstored⟩
        rw [hkept e'.1 fun e he => (hnew e he).ne', StdMap.find_assign, if_pos rfl]
      · exact hdone e' he'

/-- The precalculation is right for `u` exactly if nothing in reach of it is as far as `inf` or is
the node that stands for no parent, and, with a shelter in reach, the one drawn is in reach and not
at the longitude that stands for no shelter. -/
theorem precalculated_iff {rand : Pos → ℕ} (hsort : SortsByDistance sort) (hpos : nodes.Nonneg)
    (hu : nodes.find u ≠ none) (hk : nodes.turns ≤ k) :
    ∃ nodes' node, precalculateShortestPaths k sort rand exit nodes = some nodes' ∧
      nodes'.find u = some node ∧
        (ExactSearch k nodes u ∧
            StoredRight nodes u exit (node.shortestPath, node.nearestShelter) ↔
          Representable nodes u ∧ GoodDraw sort (rand u) nodes u exit) := by
  obtain ⟨node₀, hnode₀⟩ := Option.ne_none_iff_exists'.mp hu
  have hmem := StdMap.mem_entries.mpr hnode₀
  have hne : nodes.entries ≠ [] := List.ne_nil_of_mem hmem
  unfold precalculateShortestPaths
  by_cases hexit : exit = []
  · rw [if_pos (.inr hexit)]
    refine ⟨nodes, node₀, rfl, hnode₀, and_congr (exactSearch_iff hpos hu hk) ?_⟩
    have hnone : ¬ ∃ s ∈ exit, nodes.Reaches u s := by
      rintro ⟨s, hs, -⟩
      rw [hexit] at hs
      cases hs
    exact iff_of_true (fun h => absurd h hnone) fun h => absurd h hnone
  · rw [if_neg (not_or.mpr ⟨hne, hexit⟩)]
    have hon : ∀ e ∈ nodes.entries, nodes.find e.1 ≠ none := by
      intro e he
      rw [StdMap.mem_entries.mp he]
      exact Option.some_ne_none _
    have hall : ∀ e ∈ nodes.entries, ∃ stored,
        precalculateFrom k sort (rand e.1) exit nodes e.1 = some stored := by
      intro e he
      obtain ⟨stored, hstored, -⟩ := precalculateFrom_spec (rand e.1) exit hsort hpos (hon e he) hk
      exact ⟨stored, hstored⟩
    obtain ⟨nodes', hfold, -, -, hdone⟩ := foldlM_storeRoute nodes.sorted hon hall fun _ => rfl
    obtain ⟨node, hnode, hstored⟩ := hdone _ hmem
    refine ⟨nodes', node, hfold, hnode, ?_⟩
    rw [exactSearch_iff hpos hu hk]
    exact and_congr_right fun hrep => storedRight_iff hsort hpos hu hk hrep hstored

end AllNodes

/-! ## Two shelters, one of them out of reach -/

def sampleSort : List (ℚ × Pos) → List (ℚ × Pos) := List.insertionSort fun a b => a.1 ≤ b.1

theorem sampleSort_sorts : SortsByDistance sampleSort where
  perm l := List.perm_insertionSort _ l
  sorted l := by
    have : Std.Total fun a b : ℚ × Pos => a.1 ≤ b.1 := ⟨fun a b => le_total a.1 b.1⟩
    have : IsTrans (ℚ × Pos) fun a b => a.1 ≤ b.1 := ⟨fun _ _ _ => le_trans⟩
    exact List.pairwise_insertionSort _ l

def sampleUavNode (neighbors : List (Pos × ℚ)) : UavNode := ⟨.ofList neighbors, [], dummyParent⟩

/-- A crossing, a shelter five away from it, and one that no road leads to. -/
def sampleIsland : UavMap :=
  .ofList [(mkPos 0 0, sampleUavNode [(mkPos 1 0, 5)]), (mkPos 1 0, sampleUavNode [(mkPos 0 0, 5)]),
    (mkPos 2 0, sampleUavNode [])]

def sampleRefuges : List Pos := [mkPos 1 0, mkPos 2 0]

theorem sampleIsland_edge {u v : Pos} {w : ℚ} (h : sampleIsland.edge u v = some w) : w = 5 := by
  obtain ⟨node, hu, h⟩ := Option.bind_eq_some_iff.mp h
  obtain ⟨w', hw, h⟩ := Option.bind_eq_some_iff.mp h
  obtain ⟨-, h⟩ := Option.ite_none_right_eq_some.mp h
  cases h
  have hall : ∀ e ∈ sampleIsland.entries, ∀ x ∈ e.2.neighborNodesforUAV.entries, x.2 = 5 := by
    decide +kernel
  exact hall (u, node) (StdMap.mem_entries.mpr hu) (v, w) (StdMap.mem_entries.mpr hw)

theorem sampleIsland_nonneg : sampleIsland.Nonneg := by
  intro u v w h
  rw [sampleIsland_edge h]
  exact (by decide +kernel : (0 : ℚ) ≤ 5)

theorem precalculated_iff_sample : ∃ nodes' node,
    precalculateShortestPaths 10 sampleSort (fun _ => 0) sampleRefuges sampleIsland = some nodes' ∧
      nodes'.find (mkPos 0 0) = some node ∧
        (ExactSearch 10 sampleIsland (mkPos 0 0) ∧ StoredRight sampleIsland (mkPos 0 0) sampleRefuges
            (node.shortestPath, node.nearestShelter) ↔
          Representable sampleIsland (mkPos 0 0) ∧
            GoodDraw sampleSort 0 sampleIsland (mkPos 0 0) sampleRefuges) :=
  precalculated_iff sampleSort_sorts sampleIsland_nonneg (by decide +kernel)
    (by decide +kernel)

/-- The second of the two is drawn, and nothing is stored. -/
theorem unreachable_drawn : sampleIsland.Nonneg ∧ sampleIsland.Reaches (mkPos 0 0) (mkPos 1 0) ∧
    ∃ nodes' node, precalculateShortestPaths 10 sampleSort (fun _ => 1) sampleRefuges sampleIsland =
        some nodes' ∧ nodes'.find (mkPos 0 0) = some node ∧ node.shortestPath = [] ∧
          ¬ StoredRight sampleIsland (mkPos 0 0) sampleRefuges
            (node.shortestPath, node.nearestShelter) := by
  have hedge : sampleIsland.edge (mkPos 0 0) (mkPos 1 0) = some 5 := by decide +kernel
  have hreach : sampleIsland.Reaches (mkPos 0 0) (mkPos 1 0) := ⟨_, _, PathTo.start.step hedge⟩
  have hrun : (precalculateShortestPaths 10 sampleSort (fun _ => 1) sampleRefuges sampleIsland).bind
      (fun nodes => (nodes.find (mkPos 0 0)).map UavNode.shortestPath) = some [] := by decide +kernel
  obtain ⟨nodes', hnodes, hrun⟩ := Option.bind_eq_some_iff.mp hrun
  obtain ⟨node, hnode, hnil⟩ := Option.map_eq_some_iff.mp hrun
  refine ⟨sampleIsland_nonneg, hreach, nodes', node, hnodes, hnode, hnil, fun h => ?_⟩
  obtain ⟨d, -, -, hpath, -⟩ := h ⟨mkPos 1 0, by decide +kernel, hreach⟩
  obtain ⟨q, hq⟩ := hpath.exists_cons
  rw [hnil] at hq
  cases hq

end Ns3.Ferry2
