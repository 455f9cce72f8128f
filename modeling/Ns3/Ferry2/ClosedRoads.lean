import Ns3.Ferry2.Evacuation
import Ns3.Ferry2.RouteSearchSpec

/-!
# Notices of blocked crossings and roads

What `MyUser::UpdateGraphInfoReceivedPacket` does to the graph of a user that is
told of one blocked crossing or road after the other, and the routes that the
search finds afterwards.
-/

namespace Ns3.Ferry2

open Ns3.Lib

variable {C : Type} [LinearOrder C]

/-! ## Routes keep to the roads -/

/-- A route leads from crossing to crossing of the graph along its roads. -/
structure OnRoads (g : Graph C) (route : List C) : Prop where
  inside : ∀ v ∈ route, g.find v ≠ none
  chain : route.IsChain fun u v => g.edge u v ≠ none

variable {g : Graph C} {no u v : C}

theorem onRoads_singleton (hv : g.find v ≠ none) : OnRoads g [v] where
  inside w hw := by rwa [List.mem_singleton.mp hw]
  chain := List.isChain_singleton v

/-- A route goes on by a road. -/
theorem OnRoads.concat {route : List C} (h : OnRoads g (route ++ [u])) (hv : g.edge u v ≠ none) :
    OnRoads g (route ++ [u] ++ [v]) where
  inside w hw := by
    rcases List.mem_append.mp hw with hw | hw
    · exact h.inside w hw
    · rw [List.mem_singleton.mp hw]
      intro hnone
      exact hv (Graph.edge_of_find_none hnone)
  chain := by
    refine List.isChain_append.mpr ⟨h.chain, List.isChain_singleton v, ?_⟩
    intro a ha b hb
    rw [List.getLast?_concat, Option.mem_some_iff] at ha
    rw [List.head?_singleton, Option.mem_some_iff] at hb
    subst ha hb
    exact hv

variable [Zero C] {m : RoadMap C} {s s' : SearchState C}

/-- What the inner loop updates gets the route to the node just settled. -/
theorem relaxNodes_route {c : ℚ} {r : List C} {nb : StdMap C ℚ} {es : List (C × DijkstraInfo C)}
    {acc upd : StdMap String ℚ × StdMap C (DijkstraInfo C)}
    (h : es.foldlM (relaxNode m c r nb) acc = some upd) {i : DijkstraInfo C}
    (hv : upd.2.find v = some i) :
    acc.2.find v = some i ∨ i.route = r ∧ nb.find v ≠ none ∧ ∃ j, (v, j) ∈ es := by
  induction es generalizing acc with
  | nil =>
    cases h
    exact .inl hv
  | cons e es ih =>
    rw [List.foldlM_cons, Option.bind_eq_bind, Option.bind_eq_some_iff] at h
    obtain ⟨acc', hstep, h⟩ := h
    rcases ih h with hacc | hnew
    · unfold relaxNode at hstep
      split at hstep
      · cases hstep
        exact .inl hacc
      · rename_i weight hweight
        dsimp only at hstep
        split_ifs at hstep
        · obtain ⟨id, -, hstep⟩ := Option.bind_eq_some_iff.mp hstep
          cases hstep
          dsimp only at hacc
          rw [StdMap.find_insert] at hacc
          split_ifs at hacc with hve
          · subst hve
            cases hold : acc.2.find e.1 with
            | some j =>
              rw [hold] at hacc
              exact .inl hacc
            | none =>
              rw [hold] at hacc
              cases hacc
              exact .inr ⟨rfl, by rw [hweight]; exact Option.some_ne_none _, e.2, by simp⟩
          · exact .inl hacc
        · cases hstep
          exact .inl hacc
    · obtain ⟨hroute, hnb, j, hj⟩ := hnew
      exact .inr ⟨hroute, hnb, j, List.mem_cons_of_mem e hj⟩

theorem relaxNodes_isSome (c : ℚ) (r : List C) (nb : StdMap C ℚ) {es : List (C × DijkstraInfo C)}
    (hid : ∀ e ∈ es, m.getIDfromCoordinate e.1 ≠ none)
    (acc : StdMap String ℚ × StdMap C (DijkstraInfo C)) :
    ∃ upd, es.foldlM (relaxNode m c r nb) acc = some upd := by
  induction es generalizing acc with
  | nil => exact ⟨acc, rfl⟩
  | cons e es ih =>
    have hstep : ∃ acc', relaxNode m c r nb acc e = some acc' := by
      obtain ⟨id, hid⟩ := Option.ne_none_iff_exists'.mp (hid e (by simp))
      unfold relaxNode
      split
      · exact ⟨acc, rfl⟩
      · dsimp only
        split_ifs
        · exact ⟨_, by rw [hid]; rfl⟩
        · exact ⟨acc, rfl⟩
    obtain ⟨acc', hstep⟩ := hstep
    obtain ⟨upd, hupd⟩ := ih (fun a ha => hid a (List.mem_cons_of_mem e ha)) acc'
    exact ⟨upd, by rw [List.foldlM_cons, hstep]; exact hupd⟩

/-- A turn stops, or it settles a node. -/
theorem settle_cases {n : ℕ} (h : settle m g (n + 1) s = some s') :
    (s'.nodes = s.nodes ∧ s'.pNodes = s.pNodes) ∨
      ∃ u i node upd, s.pNodes.find u = some i ∧ g.find u = some node ∧
        (s.pNodes.erase u).entries.foldlM
          (relaxNode m (selectNearest s.pNodes s.selectNode).1 (i.route ++ [u])
            node.neighborNodes) (s.exitDistanceMap, .empty) = some upd ∧
        settle m g n (s.settle u i upd) = some s' := by
  rw [settle] at h
  dsimp only at h
  split_ifs at h
  · cases h
    exact .inl ⟨rfl, rfl⟩
  split at h
  · cases h
    exact .inl ⟨rfl, rfl⟩
  · rename_i i hi
    obtain ⟨node, hnode, h⟩ := Option.bind_eq_some_iff.mp h
    obtain ⟨upd, hupd, h⟩ := Option.bind_eq_some_iff.mp h
    exact .inr ⟨_, i, node, upd, hi, hnode, hupd, h⟩

/-- What the search has found leads along the roads. -/
def Routed (g : Graph C) (s : SearchState C) : Prop :=
  ∀ v i, s.nodes.find v = some i ∨ s.pNodes.find v = some i → OnRoads g (i.route ++ [v])

omit [Zero C] in
theorem mem_erase_entries {p : StdMap C (DijkstraInfo C)} {e : C × DijkstraInfo C}
    (he : e ∈ (p.erase u).entries) : p.find e.1 = some e.2 := by
  have he := StdMap.mem_entries.mp he
  rw [StdMap.find_erase] at he
  split_ifs at he
  exact he

theorem Routed.turn (h : Routed g s) {i : DijkstraInfo C} {node : WayNode C} {c : ℚ}
    {upd : StdMap String ℚ × StdMap C (DijkstraInfo C)} (hu : s.pNodes.find u = some i)
    (hnode : g.find u = some node)
    (hupd : (s.pNodes.erase u).entries.foldlM (relaxNode m c (i.route ++ [u]) node.neighborNodes)
      (s.exitDistanceMap, .empty) = some upd) : Routed g (s.settle u i upd) := by
  intro v j hv
  rcases hv with hv | hv
  · have hv : (s.nodes.insert u i).find v = some j := hv
    rw [StdMap.find_insert] at hv
    split_ifs at hv with hvu
    · subst hvu
      cases hold : s.nodes.find v with
      | some k =>
        rw [hold] at hv
        cases hv
        exact h v k (.inl hold)
      | none =>
        rw [hold] at hv
        cases hv
        exact h v i (.inr hu)
    · exact h v j (.inl hv)
  · rw [Searching.find_settle_pNodes, ← StdMap.find_erase, Option.or_eq_some_iff] at hv
    rcases hv with hv | ⟨-, hv⟩
    · -- the route goes on from the node just settled
      rcases relaxNodes_route hupd hv with hv | ⟨hroute, hnb, k, hk⟩
      · cases hv
      · have hin := (h v k (.inr (mem_erase_entries hk))).inside v (by simp)
        obtain ⟨node', hnode'⟩ := Option.ne_none_iff_exists'.mp hin
        rw [hroute]
        refine (h u i (.inr hu)).concat ?_
        rw [Graph.edge_of_find hnode hnode']
        exact hnb
    · exact h v j (.inr (mem_erase_entries (StdMap.mem_entries.mpr hv)))

theorem Routed.settle {n : ℕ} (h : Routed g s) (hs : settle m g n s = some s') : Routed g s' := by
  induction n generalizing s with
  | zero =>
    cases hs
    exact h
  | succ n ih =>
    rcases settle_cases hs with ⟨hnodes, hp⟩ | ⟨u, i, node, upd, hu, hnode, hupd, hs⟩
    · intro v i hv
      rw [hnodes, hp] at hv
      exact h v i hv
    · exact ih (h.turn hu hnode hupd) hs

theorem routed_start : Routed g (.start g no) := by
  intro v i hv
  rcases hv with hv | hv
  · cases hv
  · rw [find_start] at hv
    obtain ⟨node, hnode, rfl⟩ := Option.map_eq_some_iff.mp hv
    exact onRoads_singleton (by rw [hnode]; exact Option.some_ne_none _)

/-- The route that a search from `no` finds to `target`. -/
def RouteFound (m : RoadMap C) (g : Graph C) (no target : C) (route : List C) : Prop :=
  ∃ s i, settleFrom m g no = some s ∧ s.nodes.find target = some i ∧ route = i.route ++ [target]

theorem RouteFound.onRoads {target : C} {route : List C} (h : RouteFound m g no target route) :
    OnRoads g route := by
  obtain ⟨s, i, hs, hi, rfl⟩ := h
  exact routed_start.settle hs target i (.inl hi)

/-! ## The route to the place itself -/

/-- Nothing is unsettled that is not in the graph. -/
def Pending (g : Graph C) (s : SearchState C) : Prop :=
  ∀ v i, s.pNodes.find v = some i → g.find v ≠ none

theorem Pending.turn (h : Pending g s) (hmap : g.OnMap m) {i : DijkstraInfo C}
    (hu : s.pNodes.find u = some i) (c : ℚ) : ∃ node upd, g.find u = some node ∧
      (s.pNodes.erase u).entries.foldlM (relaxNode m c (i.route ++ [u]) node.neighborNodes)
        (s.exitDistanceMap, .empty) = some upd ∧ Pending g (s.settle u i upd) := by
  obtain ⟨node, hnode⟩ := Option.ne_none_iff_exists'.mp (h u i hu)
  have hid : ∀ a ∈ (s.pNodes.erase u).entries, m.getIDfromCoordinate a.1 ≠ none := by
    intro a ha
    obtain ⟨node', hnode'⟩ := Option.ne_none_iff_exists'.mp (h _ _ (mem_erase_entries ha))
    obtain ⟨id, hid, -⟩ := hmap _ node' hnode'
    rw [hid]
    exact Option.some_ne_none id
  obtain ⟨upd, hupd⟩ := relaxNodes_isSome c (i.route ++ [u]) node.neighborNodes hid
    (s.exitDistanceMap, .empty)
  refine ⟨node, upd, hnode, hupd, fun v j hv => ?_⟩
  rw [Searching.find_settle_pNodes, ← StdMap.find_erase, Option.or_eq_some_iff] at hv
  rcases hv with hv | ⟨-, hv⟩
  · rcases relaxNodes_route hupd hv with hv | ⟨-, -, k, hk⟩
    · cases hv
    · exact h v k (mem_erase_entries hk)
  · exact h v j (mem_erase_entries (StdMap.mem_entries.mpr hv))

/-- The loop comes to its end, and what is settled stays settled. -/
theorem settle_total (h : Pending g s) (hmap : g.OnMap m) (n : ℕ) :
    ∃ s', settle m g n s = some s' ∧ ∀ v i, s.nodes.find v = some i → s'.nodes.find v = some i := by
  induction n generalizing s with
  | zero => exact ⟨s, rfl, fun v i hv => hv⟩
  | succ n ih =>
    rw [settle]
    dsimp only
    split_ifs
    · exact ⟨s, rfl, fun v i hv => hv⟩
    split
    · exact ⟨_, rfl, fun v i hv => hv⟩
    · rename_i i hi
      obtain ⟨node, upd, hnode, hupd, hnext⟩ :=
        h.turn hmap hi (selectNearest s.pNodes s.selectNode).1
      obtain ⟨s', hs', hkeep⟩ := ih hnext
      refine ⟨s', ?_, fun v j hv => hkeep v j ?_⟩
      · rw [hnode, Option.bind_eq_bind, Option.bind_some, hupd]
        exact hs'
      · show (s.nodes.insert _ i).find v = some j
        rw [StdMap.find_insert]
        split_ifs with hvu
        · rw [← hvu, hv]
          rfl
        · exact hv

theorem found_self (hmap : g.OnMap m) (hno : g.find no ≠ none) : RouteFound m g no no [no] := by
  have hstart (v : C) : (SearchState.start g no).pNodes.find v =
      (g.find v).map fun _ => ⟨if v = no then 0 else inf, []⟩ := find_start v
  obtain ⟨node, hnode⟩ := Option.ne_none_iff_exists'.mp hno
  have hpending : Pending g (.start g no) := by
    intro v i hv hnone
    rw [hstart, hnone] at hv
    cases hv
  have hfirst : (SearchState.start g no).pNodes.find no = some ⟨0, []⟩ := by
    rw [hstart, hnode, Option.map_some, if_pos rfl]
  have hnear : (0 : ℚ) < inf := by norm_num [inf]
  -- the start is nearest
  have hsel : selectNearest (SearchState.start g no).pNodes (SearchState.start g no).selectNode =
      (0, no) := by
    rcases selectNearest_spec (SearchState.start g no).pNodes
      (SearchState.start g no).selectNode with ⟨-, hfar⟩ | ⟨u, i, hu, hsel, hlt, -⟩
    · exact absurd (hfar no _ hfirst) (not_le.mpr hnear)
    · rw [hstart] at hu
      obtain ⟨node', -, rfl⟩ := Option.map_eq_some_iff.mp hu
      dsimp only at hlt hsel
      split_ifs at hlt hsel with huno
      · rw [hsel, huno]
      · exact absurd hlt (lt_irrefl _)
  obtain ⟨node', upd, hnode', hupd, hnext⟩ := hpending.turn hmap hfirst 0
  have hsize : (StdMap.empty : StdMap C ℚ).size < g.size :=
    StdMap.size_lt_of_find hno fun k hk => absurd rfl hk
  obtain ⟨n, hn⟩ := Nat.exists_eq_succ_of_ne_zero (Nat.ne_of_gt hsize)
  obtain ⟨s', hs', hkeep⟩ := settle_total hnext hmap n
  refine ⟨s', ⟨0, []⟩, ?_, hkeep no _ ?_, rfl⟩
  · rw [settleFrom, hn, settle_turn hfirst hsel hnode' hupd]
    exact hs'
  · show (StdMap.empty.insert no _).find no = _
    rw [StdMap.find_insert, if_pos rfl]
    rfl

/-! ## Closing a crossing or a road -/

/-- The crossings are stored under their coordinates. -/
def Graph.Keyed (g : Graph C) : Prop := ∀ c node, g.find c = some node → node.coordinate = c

/-- Of the first graph the second one has the crossings that are not gone, and no other roads. -/
structure Graph.Leaves (g g' : Graph C) (gone : C → Prop) : Prop where
  keyed : g'.Keyed
  kept : ∀ c, g'.find c ≠ none ↔ g.find c ≠ none ∧ ¬ gone c
  roads : ∀ u v, g'.edge u v ≠ none → g.edge u v ≠ none

namespace Graph

variable {g' g'' : Graph C} {gone gone' : C → Prop} {x k : C}

omit [Zero C]

theorem leaves_self (hg : g.Keyed) : g.Leaves g fun _ => False :=
  ⟨hg, fun _ => (and_iff_left not_false).symm, fun _ _ h => h⟩

theorem Leaves.trans (h : g.Leaves g' gone) (h' : g'.Leaves g'' gone') :
    g.Leaves g'' fun c => gone c ∨ gone' c where
  keyed := h'.keyed
  kept c := by rw [h'.kept, h.kept, and_assoc, not_or]
  roads u v hv := h.roads u v (h'.roads u v hv)

theorem Leaves.congr (h : g.Leaves g' gone) (hiff : ∀ c, gone c ↔ gone' c) : g.Leaves g' gone' where
  keyed := h.keyed
  kept c := by rw [h.kept, hiff]
  roads := h.roads

theorem leaves_erase (hg : g.Keyed) (x : C) : g.Leaves (g.erase x) (· = x) where
  keyed c node hc := by
    rw [StdMap.find_erase] at hc
    split_ifs at hc
    exact hg c node hc
  kept c := by
    rw [StdMap.find_erase]
    split_ifs with hc
    · simp [hc]
    · exact (and_iff_left hc).symm
  roads u v hv := by
    obtain ⟨w, hw⟩ := Option.ne_none_iff_exists'.mp hv
    obtain ⟨node, node', hu, hv, hnb⟩ := find_of_edge hw
    rw [StdMap.find_erase] at hu hv
    split_ifs at hu hv
    rw [edge_of_find hu hv, hnb]
    exact Option.some_ne_none w

/-- A crossing is replaced by one with fewer roads. -/
theorem leaves_assign {node : WayNode C} (hg : g.Keyed) (hx : g.find x = some node)
    (node' : WayNode C) (hkey : node'.coordinate = x)
    (hless : ∀ v, node'.neighborNodes.find v ≠ none → node.neighborNodes.find v ≠ none) :
    g.Leaves (g.assign x node') fun _ => False where
  keyed c n hc := by
    rw [StdMap.find_assign] at hc
    split_ifs at hc with hcx
    · cases hc
      rw [hkey, hcx]
    · exact hg c n hc
  kept c := by
    rw [StdMap.find_assign, and_iff_left not_false]
    split_ifs with hcx
    · rw [hcx, hx]
      exact iff_of_true (Option.some_ne_none _) (Option.some_ne_none _)
    · rfl
  roads u v hv := by
    obtain ⟨w, hw⟩ := Option.ne_none_iff_exists'.mp hv
    obtain ⟨n, n', hu, hv, hnb⟩ := find_of_edge hw
    have hin : ∃ n', g.find v = some n' := by
      rw [StdMap.find_assign] at hv
      split_ifs at hv with hvx
      · exact ⟨node, by rw [hvx, hx]⟩
      · exact ⟨n', hv⟩
    obtain ⟨n', hv⟩ := hin
    rw [StdMap.find_assign] at hu
    split_ifs at hu with hux
    · cases hu
      rw [hux, edge_of_find hx hv]
      exact hless v (by rw [hnb]; exact Option.some_ne_none w)
    · rw [edge_of_find hu hv, hnb]
      exact Option.some_ne_none w

/-! ### A crossing -/

theorem find_of_erase {nb : StdMap C ℚ} (h : (nb.erase x).find v ≠ none) : nb.find v ≠ none := by
  intro hnone
  rw [StdMap.find_erase, hnone, ite_self] at h
  exact h rfl

/-- One turn of the loop of `UpdateGraphInfo` over the neighbours of a crossing. -/
def forgetNeighbor (x : C) (g : Graph C) (k : C) : Option (Graph C) := do
  let node ← g.find k
  let node := { node with neighborNodes := node.neighborNodes.erase x }
  return (g.erase x).insert node.coordinate node

theorem forgetCrossing_eq (ni : WayNode C) :
    g.forgetCrossing ni = ni.neighborNodes.keys.foldlM (forgetNeighbor ni.coordinate) g := rfl

/-- The neighbour is still there and stays as it is, unless it is the crossing itself. -/
theorem forgetNeighbor_spec (hg : g.Keyed) (h : forgetNeighbor x g k = some g') :
    g.find k ≠ none ∧ g.Leaves g' fun c => c = x ∧ k ≠ x := by
  obtain ⟨node, hk, h⟩ := Option.bind_eq_some_iff.mp h
  cases h
  have hkey := hg k node hk
  refine ⟨by rw [hk]; exact Option.some_ne_none _, ?_⟩
  dsimp only
  rw [hkey]
  by_cases hkx : k = x
  · subst hkx
    rw [StdMap.insert_erase]
    exact (leaves_assign hg hk _ rfl fun _ => find_of_erase).congr fun c => by simp
  · have hfind : (g.erase x).find k = some node := by rw [StdMap.find_erase, if_neg hkx, hk]
    rw [StdMap.insert_of_find_some hfind]
    exact (leaves_erase hg x).congr fun c => (and_iff_left hkx).symm

theorem forgetNeighbor_isSome (hk : g.find k ≠ none) : ∃ g', forgetNeighbor x g k = some g' := by
  obtain ⟨node, hk⟩ := Option.ne_none_iff_exists'.mp hk
  exact ⟨_, by rw [forgetNeighbor, hk]; rfl⟩

/-- The loop needs all of the neighbours, and the crossing itself only as the first of them. -/
theorem forgetNeighbors_spec {l : List C} (hg : g.Keyed) (hl : l.Nodup)
    (h : l.foldlM (forgetNeighbor x) g = some g') :
    (∀ k ∈ l, g.find k ≠ none) ∧ x ∉ l.tail ∧ g.Leaves g' fun c => c = x ∧ ∃ k ∈ l, k ≠ x := by
  induction l generalizing g with
  | nil =>
    cases h
    exact ⟨by simp, List.not_mem_nil, (leaves_self hg).congr fun c => by simp⟩
  | cons k l ih =>
    obtain ⟨hkl, hl⟩ := List.nodup_cons.mp hl
    rw [List.foldlM_cons] at h
    obtain ⟨g₁, h₁, h⟩ := Option.bind_eq_some_iff.mp h
    obtain ⟨hk, hleaves⟩ := forgetNeighbor_spec hg h₁
    obtain ⟨hin, -, hrest⟩ := ih hleaves.keyed hl h
    refine ⟨?_, fun hx => ?_, (hleaves.trans hrest).congr fun c => ?_⟩
    · exact List.forall_mem_cons.mpr ⟨hk, fun k' hk' => ((hleaves.kept k').mp (hin k' hk')).1⟩
    · have hx : x ∈ l := hx
      refine ((hleaves.kept x).mp (hin x hx)).2 ⟨rfl, ?_⟩
      rintro rfl
      exact hkl hx
    · simp only [List.exists_mem_cons_iff, and_or_left]

theorem forgetNeighbors_isSome {l : List C} (hg : g.Keyed) (hin : ∀ k ∈ l, g.find k ≠ none)
    (hx : x ∉ l.tail) : ∃ g', l.foldlM (forgetNeighbor x) g = some g' := by
  induction l generalizing g with
  | nil => exact ⟨g, rfl⟩
  | cons k l ih =>
    obtain ⟨hk, hin⟩ := List.forall_mem_cons.mp hin
    obtain ⟨g₁, h₁⟩ := forgetNeighbor_isSome (x := x) hk
    have hleaves := (forgetNeighbor_spec hg h₁).2
    have hx : x ∉ l := hx
    obtain ⟨g', h'⟩ := ih hleaves.keyed
      (fun k' hk' => (hleaves.kept k').mpr ⟨hin k' hk', fun hgone => hx (hgone.1 ▸ hk')⟩)
      (fun hmem => hx (List.mem_of_mem_tail hmem))
    exact ⟨g', by rw [List.foldlM_cons, h₁]; exact h'⟩

/-! ### A road -/

theorem replace_eq (node : WayNode C) (neighbors : StdMap C ℚ) : g.replace node neighbors =
    g.assign node.coordinate { node with neighborNodes := neighbors } :=
  StdMap.insert_erase g node.coordinate _

theorem edge_assign_self (node : WayNode C) (h : node.neighborNodes.find v = none) :
    Graph.edge (g.assign u node) u v = none := by
  unfold edge
  rw [StdMap.find_assign_self, Option.bind_eq_bind, Option.bind_some, h]
  cases (StdMap.assign g u node).find v <;> rfl

theorem cutRoad_spec {s e : WayNode C} (hg : g.Keyed) (h : g.cutRoad s e = some g') :
    g.find s.coordinate ≠ none ∧ g.find e.coordinate ≠ none ∧ (g.Leaves g' fun _ => False) ∧
      g'.edge s.coordinate e.coordinate = none ∧ g'.edge e.coordinate s.coordinate = none := by
  obtain ⟨ns, hs, h⟩ := Option.bind_eq_some_iff.mp h
  obtain ⟨ne, he, h⟩ := Option.bind_eq_some_iff.mp h
  cases h
  rw [replace_eq] at he
  rw [replace_eq, replace_eq]
  have hself (nb : StdMap C ℚ) (x : C) : (nb.erase x).find x = none := by
    rw [StdMap.find_erase, if_pos rfl]
  have hfirst := leaves_assign hg hs
    { s with neighborNodes := ns.neighborNodes.erase e.coordinate } rfl fun _ => find_of_erase
  have hsecond := leaves_assign hfirst.keyed he
    { e with neighborNodes := ne.neighborNodes.erase s.coordinate } rfl fun _ => find_of_erase
  have hin := (hfirst.kept e.coordinate).mp (by rw [he]; exact Option.some_ne_none _)
  refine ⟨by rw [hs]; exact Option.some_ne_none _, hin.1,
    (hfirst.trans hsecond).congr fun c => or_self_iff, ?_, edge_assign_self _ (hself ..)⟩
  by_contra hroad
  exact hsecond.roads _ _ hroad (edge_assign_self _ (hself ..))

theorem cutRoad_isSome {s e : WayNode C} (hg : g.Keyed) (hs : g.find s.coordinate ≠ none)
    (he : g.find e.coordinate ≠ none) : ∃ g', g.cutRoad s e = some g' := by
  obtain ⟨ns, hs⟩ := Option.ne_none_iff_exists'.mp hs
  have hfirst := leaves_assign hg hs
    { s with neighborNodes := ns.neighborNodes.erase e.coordinate } rfl fun _ => find_of_erase
  obtain ⟨ne, he⟩ := Option.ne_none_iff_exists'.mp ((hfirst.kept e.coordinate).mpr ⟨he, not_false⟩)
  rw [← replace_eq] at he
  exact ⟨_, Option.bind_eq_some_iff.mpr ⟨ns, hs, Option.bind_eq_some_iff.mpr ⟨ne, he, rfl⟩⟩⟩

end Graph

/-! ## Notices -/

namespace RoadMap

/-- `GetCoordinatefromID`, then `nodes.at`. -/
def nodeOf (m : RoadMap C) (id : String) : Option (WayNode C) :=
  (m.idToCoordinate.find id).bind m.nodes.find

/-- `linestrings.at (ni.GetWayIDs ().front ())`. -/
def wayOf (m : RoadMap C) (ni : WayNode C) : Option (WayInfo C) :=
  ni.wayIDs.head?.bind m.linestrings.find

/-- The crossings before and after a node on its way. -/
def roadEnds (m : RoadMap C) (ni : WayNode C) : Option (C × C) := do
  let wi ← m.wayOf ni
  let s ← crossingAfter ni.coordinate wi.nodes
  let e ← crossingAfter ni.coordinate wi.nodes.reverse
  return (s.coordinate, e.coordinate)

/-- The route passes the node: the crossing itself, or the road it is on. -/
def Passes (m : RoadMap C) (route : List C) (id : String) : Prop :=
  ∃ ni, m.nodeOf id = some ni ∧
    if ni.isCrossing then ni.coordinate ∈ route
    else ∃ s e, m.roadEnds ni = some (s, e) ∧ ([s, e] <:+: route ∨ [e, s] <:+: route)

/-- The id is that of the crossing at `c`. -/
def Closes (m : RoadMap C) (id : String) (c : C) : Prop :=
  ∃ ni, m.nodeOf id = some ni ∧ ni.isCrossing = true ∧ ni.coordinate = c

/-- The ways of the node are on the map, and the crossings around it are there. -/
def Blockable (m : RoadMap C) (way : WayInfo C) (ni : WayNode C) (here : C → Prop) : Prop :=
  m.wayOf ni ≠ none ∧
    if ni.isCrossing then
      m.linestrings.find way.id ≠ none ∧ (∀ k ∈ ni.neighborNodes.keys, here k) ∧
        ni.coordinate ∉ ni.neighborNodes.keys.tail
    else ∃ s e, m.roadEnds ni = some (s, e) ∧ here s ∧ here e

theorem Blockable.mono {way : WayInfo C} {ni : WayNode C} {here here' : C → Prop}
    (h : m.Blockable way ni here) (himp : ∀ c, here c → here' c) : m.Blockable way ni here' := by
  refine ⟨h.1, ?_⟩
  have h := h.2
  split_ifs at h ⊢
  · exact ⟨h.1, fun k hk => himp k (h.2.1 k hk), h.2.2⟩
  · obtain ⟨s, e, hends, hs, he⟩ := h
    exact ⟨s, e, hends, himp s hs, himp e he⟩

end RoadMap

/-- The crossing is next to another one. -/
def WayNode.HasNeighbor (ni : WayNode C) : Prop := ∃ k ∈ ni.neighborNodes.keys, k ≠ ni.coordinate

section Update

variable {way : WayInfo C} {ni : WayNode C} {g' : Graph C}

theorem updateGraphInfo_isSome (hg : g.Keyed) (h : m.Blockable way ni (g.find · ≠ none)) :
    ∃ g', updateGraphInfo m way.id g ni = some g' := by
  obtain ⟨hway, h⟩ := h
  obtain ⟨wi, hwi⟩ := Option.ne_none_iff_exists'.mp hway
  have hwi' : ni.wayIDs.head?.bind m.linestrings.find = some wi := hwi
  rw [updateGraphInfo, hwi', Option.bind_eq_bind, Option.bind_some]
  split_ifs at h ⊢
  · obtain ⟨hon, hin, hself⟩ := h
    obtain ⟨w, hw⟩ := Option.ne_none_iff_exists'.mp hon
    rw [hw, Option.bind_some, Graph.forgetCrossing_eq]
    exact Graph.forgetNeighbors_isSome hg hin hself
  · obtain ⟨s, e, hends, hs, he⟩ := h
    rw [RoadMap.roadEnds, hwi, Option.bind_eq_bind, Option.bind_some] at hends
    obtain ⟨sn, hsn, hends⟩ := Option.bind_eq_some_iff.mp hends
    obtain ⟨en, hen, hends⟩ := Option.bind_eq_some_iff.mp hends
    cases hends
    rw [hsn, hen]
    exact Graph.cutRoad_isSome hg hs he

/-- An update takes a crossing with a neighbour out of the graph, and the road of another node. -/
theorem updateGraphInfo_spec (hg : g.Keyed) (hzero : g.find 0 = none)
    (h : updateGraphInfo m way.id g ni = some g') :
    m.Blockable way ni (g.find · ≠ none) ∧
      (g.Leaves g' fun c => ni.isCrossing = true ∧ c = ni.coordinate ∧ ni.HasNeighbor) ∧
      (ni.isCrossing = false → ∀ s e, m.roadEnds ni = some (s, e) →
        g'.edge s e = none ∧ g'.edge e s = none) := by
  obtain ⟨wi, hwi, h⟩ := Option.bind_eq_some_iff.mp h
  have hwi : m.wayOf ni = some wi := hwi
  have hway : m.wayOf ni ≠ none := by
    rw [hwi]
    exact Option.some_ne_none wi
  cases hcross : ni.isCrossing with
  | true =>
    rw [hcross, if_pos rfl] at h
    obtain ⟨w, hw, h⟩ := Option.bind_eq_some_iff.mp h
    rw [Graph.forgetCrossing_eq] at h
    obtain ⟨hin, hself, hleaves⟩ := Graph.forgetNeighbors_spec hg ni.neighborNodes.keys_nodup h
    refine ⟨⟨hway, ?_⟩, hleaves.congr fun c => ?_, fun hfalse => absurd hfalse (by decide)⟩
    · rw [hcross, if_pos rfl]
      exact ⟨by rw [hw]; exact Option.some_ne_none w, hin, hself⟩
    · exact (and_iff_right rfl).symm
  | false =>
    rw [hcross, if_neg Bool.false_ne_true] at h
    obtain ⟨hs, he, hleaves, hse, hes⟩ := Graph.cutRoad_spec hg h
    cases hsn : crossingAfter ni.coordinate wi.nodes with
    | none =>
      rw [hsn] at hs
      exact absurd hzero hs
    | some sn =>
    cases hen : crossingAfter ni.coordinate wi.nodes.reverse with
    | none =>
      rw [hen] at he
      exact absurd hzero he
    | some en =>
    rw [hsn, hen, Option.getD_some, Option.getD_some] at hse hes
    rw [hsn, Option.getD_some] at hs
    rw [hen, Option.getD_some] at he
    have hends : m.roadEnds ni = some (sn.coordinate, en.coordinate) :=
      Option.bind_eq_some_iff.mpr ⟨wi, hwi, Option.bind_eq_some_iff.mpr ⟨sn, hsn,
        Option.bind_eq_some_iff.mpr ⟨en, hen, rfl⟩⟩⟩
    refine ⟨⟨hway, ?_⟩, hleaves.congr fun c => ?_, fun _ s e hse' => ?_⟩
    · rw [hcross, if_neg Bool.false_ne_true]
      exact ⟨_, _, hends, hs, he⟩
    · simp
    · rw [hends] at hse'
      cases hse'
      exact ⟨hse, hes⟩

end Update

/-! ## One notice after the other -/

/-- The user is on the way `e.1` when it is told of the id `e.2`. -/
def receive (m : RoadMap C) (n : MyUser C) (e : WayInfo C × String) : Option (MyUser C) :=
  updateGraphInfoReceivedPacket (userOps m)
    { n with user := { n.user with currentway := e.1 } } e.2

def receiveAll (m : RoadMap C) (n : MyUser C) (l : List (WayInfo C × String)) :
    Option (MyUser C) := l.foldlM (receive m) n

/-- All notices go through, and no route passes a node that one of them is about. -/
def Heeded (m : RoadMap C) (n : MyUser C) (l : List (WayInfo C × String)) : Prop :=
  ∃ n', receiveAll m n l = some n' ∧ ∀ no target route, RouteFound m n'.user.graph no target route →
    ∀ e ∈ l, ¬ m.Passes route e.2

/-- The graph has the crossing, and no notice has been about it. -/
def StillOpen (m : RoadMap C) (g : Graph C) (before : List (WayInfo C × String)) (c : C) : Prop :=
  g.find c ≠ none ∧ ∀ e ∈ before, ¬ m.Closes e.2 c

/-- The notice takes the crossing out of the graph. -/
def Removes (m : RoadMap C) (id : String) (c : C) : Prop :=
  ∃ ni, m.nodeOf id = some ni ∧ ni.isCrossing = true ∧ c = ni.coordinate ∧ ni.HasNeighbor

/-- Every notice comes while the crossings around its node are open. -/
def Heedable (m : RoadMap C) (g : Graph C) (l : List (WayInfo C × String)) : Prop :=
  ∀ before e after, l = before ++ e :: after → ∃ ni, m.nodeOf e.2 = some ni ∧
    m.Blockable e.1 ni (StillOpen m g before) ∧
    (ni.isCrossing = true → g.find ni.coordinate ≠ none → ni.HasNeighbor)

variable {n n' : MyUser C} {e : WayInfo C × String} {l : List (WayInfo C × String)}

theorem Graph.OnMap.find_zero (h : g.OnMap m) : g.find 0 = none := by
  by_contra hne
  obtain ⟨node, hnode⟩ := Option.ne_none_iff_exists'.mp hne
  obtain ⟨id, hid, -⟩ := h 0 node hnode
  rw [RoadMap.getIDfromCoordinate_zero] at hid
  cases hid

theorem Graph.OnMap.leaves {g' : Graph C} {gone : C → Prop} (h : g.OnMap m)
    (hleaves : g.Leaves g' gone) : g'.OnMap m := by
  intro pos node' hnode'
  have hin := ((hleaves.kept pos).mp (by rw [hnode']; exact Option.some_ne_none _)).1
  obtain ⟨node, hnode⟩ := Option.ne_none_iff_exists'.mp hin
  exact h pos node hnode

theorem receive_eq (hn : n.nodeType ≠ .ferryNode) : receive m n e = do
    let ni ← m.nodeOf e.2
    let graph ← updateGraphInfo m e.1.id n.user.graph ni
    return { n with
      user := { n.user with currentway := e.1, graph := graph }
      isDijkstra := true } := by
  unfold receive updateGraphInfoReceivedPacket userOps RoadMap.nodeOf
  simp only [if_neg hn, Option.bind_eq_bind, Option.bind_assoc, Option.pure_def, Option.bind_some]

/-- What one notice does. -/
theorem receive_spec (hn : n.nodeType ≠ .ferryNode) (hg : n.user.graph.Keyed)
    (hmap : n.user.graph.OnMap m) (h : receive m n e = some n') :
    n'.nodeType ≠ .ferryNode ∧ (∃ ni, m.nodeOf e.2 = some ni ∧
      m.Blockable e.1 ni (n.user.graph.find · ≠ none)) ∧
      n.user.graph.Leaves n'.user.graph (Removes m e.2) ∧
      ∀ ni s t, m.nodeOf e.2 = some ni → ni.isCrossing = false → m.roadEnds ni = some (s, t) →
        n'.user.graph.edge s t = none ∧ n'.user.graph.edge t s = none := by
  rw [receive_eq hn] at h
  obtain ⟨ni, hni, h⟩ := Option.bind_eq_some_iff.mp h
  obtain ⟨graph, hgraph, h⟩ := Option.bind_eq_some_iff.mp h
  cases h
  obtain ⟨hblock, hleaves, hcut⟩ := updateGraphInfo_spec hg hmap.find_zero hgraph
  refine ⟨hn, ⟨ni, hni, hblock⟩, hleaves.congr fun c => ?_, fun ni' s t hni' hroad hends => ?_⟩
  · unfold Removes
    rw [hni]
    simp
  · rw [hni] at hni'
    cases hni'
    exact hcut hroad s t hends

theorem receive_isSome (hn : n.nodeType ≠ .ferryNode) (hg : n.user.graph.Keyed) {ni : WayNode C}
    (hni : m.nodeOf e.2 = some ni) (h : m.Blockable e.1 ni (n.user.graph.find · ≠ none)) :
    ∃ n', receive m n e = some n' := by
  obtain ⟨g', hg'⟩ := updateGraphInfo_isSome hg h
  exact ⟨_, by rw [receive_eq hn, hni, Option.bind_eq_bind, Option.bind_some, hg']; rfl⟩

/-- What a run of notices does: no road that was cut comes back. -/
theorem receiveAll_spec (hn : n.nodeType ≠ .ferryNode) (hg : n.user.graph.Keyed)
    (hmap : n.user.graph.OnMap m) (h : receiveAll m n l = some n') :
    n'.nodeType ≠ .ferryNode ∧
      (n.user.graph.Leaves n'.user.graph fun c => ∃ e ∈ l, Removes m e.2 c) ∧
      ∀ e ∈ l, ∀ ni s t, m.nodeOf e.2 = some ni → ni.isCrossing = false →
        m.roadEnds ni = some (s, t) →
        n'.user.graph.edge s t = none ∧ n'.user.graph.edge t s = none := by
  induction l generalizing n with
  | nil =>
    cases h
    exact ⟨hn, (Graph.leaves_self hg).congr fun c => by simp, by simp⟩
  | cons e l ih =>
    obtain ⟨n₁, h₁, h⟩ := Option.bind_eq_some_iff.mp h
    obtain ⟨hn₁, -, hfirst, hcut⟩ := receive_spec hn hg hmap h₁
    obtain ⟨hn', hrest, hcuts⟩ := ih hn₁ hfirst.keyed (hmap.leaves hfirst) h
    refine ⟨hn', (hfirst.trans hrest).congr fun c => ?_, ?_⟩
    · rw [List.exists_mem_cons_iff]
    · refine List.forall_mem_cons.mpr ⟨fun ni s t hni hroad hends => ?_, hcuts⟩
      obtain ⟨hst, hts⟩ := hcut ni s t hni hroad hends
      exact ⟨by_contra fun hne => hrest.roads s t hne hst,
        by_contra fun hne => hrest.roads t s hne hts⟩

/-! ## When the notices are heeded -/

/-- Two ids of one crossing are those of one node. -/
theorem nodeOf_unique (hkey : Graph.Keyed m.nodes) {id id' : String} {ni ni' : WayNode C}
    (h : m.nodeOf id = some ni) (h' : m.nodeOf id' = some ni')
    (hc : ni'.coordinate = ni.coordinate) : ni' = ni := by
  obtain ⟨pos, -, hpos⟩ := Option.bind_eq_some_iff.mp h
  obtain ⟨pos', -, hpos'⟩ := Option.bind_eq_some_iff.mp h'
  have hsame : pos' = pos := by rw [← hkey pos ni hpos, ← hkey pos' ni' hpos', hc]
  rw [hsame, hpos] at hpos'
  exact (Option.some.inj hpos').symm

theorem Heedable.receives (hn : n.nodeType ≠ .ferryNode) (hg : n.user.graph.Keyed)
    (hmap : n.user.graph.OnMap m) (h : Heedable m n.user.graph l) :
    ∃ n', receiveAll m n l = some n' := by
  induction l using List.reverseRecOn with
  | nil => exact ⟨n, rfl⟩
  | append_singleton l e ih =>
    obtain ⟨n₁, h₁⟩ := ih fun before e' after heq => h before e' (after ++ [e]) (by rw [heq]; simp)
    obtain ⟨ni, hni, hblock, -⟩ := h l e [] rfl
    obtain ⟨hn₁, hleaves, -⟩ := receiveAll_spec hn hg hmap h₁
    obtain ⟨n', h'⟩ := receive_isSome hn₁ hleaves.keyed hni (hblock.mono fun c hc => by
      refine (hleaves.kept c).mpr ⟨hc.1, ?_⟩
      rintro ⟨e', he', ni', hni', hcross, hcoord, -⟩
      exact hc.2 e' he' ⟨ni', hni', hcross, hcoord.symm⟩)
    exact ⟨n', by
      rw [receiveAll, List.foldlM_append]
      exact Option.bind_eq_some_iff.mpr ⟨n₁, h₁, by rw [List.foldlM_cons, h']; rfl⟩⟩

/-- Afterwards no route passes a crossing or a road that a notice was about. -/
theorem Heedable.avoids (hn : n.nodeType ≠ .ferryNode) (hg : n.user.graph.Keyed)
    (hmap : n.user.graph.OnMap m) (h : Heedable m n.user.graph l)
    (hrun : receiveAll m n l = some n') {route : List C} (hroute : OnRoads n'.user.graph route)
    (he : e ∈ l) : ¬ m.Passes route e.2 := by
  obtain ⟨-, hleaves, hcut⟩ := receiveAll_spec hn hg hmap hrun
  rintro ⟨ni, hni, hpass⟩
  split_ifs at hpass with hcross
  · -- the crossing is gone
    obtain ⟨hin, hgone⟩ := (hleaves.kept _).mp (hroute.inside _ hpass)
    obtain ⟨before, after, heq⟩ := List.append_of_mem he
    obtain ⟨ni', hni', -, hjoined⟩ := h before e after heq
    rw [hni] at hni'
    cases hni'
    exact hgone ⟨e, he, ni, hni, hcross, rfl, hjoined hcross hin⟩
  · -- the road is cut
    obtain ⟨s, t, hends, hpass⟩ := hpass
    obtain ⟨hst, hts⟩ := hcut e he ni s t hni (Bool.not_eq_true _ ▸ hcross) hends
    rcases hpass with hpass | hpass
    · have hroad := hroute.chain.infix hpass
      exact List.isChain_pair.mp hroad hst
    · have hroad := hroute.chain.infix hpass
      exact List.isChain_pair.mp hroad hts

/-- A notified crossing of the graph that no route passes is next to another one. -/
theorem Heeded.hasNeighbor (hn : n.nodeType ≠ .ferryNode) (hg : n.user.graph.Keyed)
    (hmap : n.user.graph.OnMap m) (hkey : Graph.Keyed m.nodes) (hrun : receiveAll m n l = some n')
    (havoid : ∀ no target route, RouteFound m n'.user.graph no target route →
      ∀ e ∈ l, ¬ m.Passes route e.2) (he : e ∈ l) {ni : WayNode C} (hni : m.nodeOf e.2 = some ni)
    (hcross : ni.isCrossing = true) (hin : n.user.graph.find ni.coordinate ≠ none) :
    ni.HasNeighbor := by
  obtain ⟨-, hleaves, -⟩ := receiveAll_spec hn hg hmap hrun
  by_contra hnone
  -- a route to the crossing itself is left
  have hstill : n'.user.graph.find ni.coordinate ≠ none := by
    refine (hleaves.kept _).mpr ⟨hin, ?_⟩
    rintro ⟨e', -, ni', hni', -, hcoord, hjoined⟩
    rw [nodeOf_unique hkey hni hni' hcoord.symm] at hjoined
    exact hnone hjoined
  refine havoid _ _ _ (found_self (hmap.leaves hleaves) hstill) e he ⟨ni, hni, ?_⟩
  rw [if_pos hcross]
  exact List.mem_singleton_self _

/-- The notices go through and are heeded exactly if each of them is about a node of the map whose
ways are known and comes while the crossings around the node are open, none of them a crossing that
is next to no other one. -/
theorem heeded_iff (hn : n.nodeType ≠ .ferryNode) (hg : n.user.graph.Keyed)
    (hmap : n.user.graph.OnMap m) (hkey : Graph.Keyed m.nodes) :
    Heeded m n l ↔ Heedable m n.user.graph l := by
  constructor
  · rintro ⟨n', hrun, havoid⟩ before e after heq
    have hjoined {e : WayInfo C × String} (he : e ∈ l) {ni : WayNode C}
        (hni : m.nodeOf e.2 = some ni) (hcross : ni.isCrossing = true)
        (hin : n.user.graph.find ni.coordinate ≠ none) : ni.HasNeighbor :=
      Heeded.hasNeighbor hn hg hmap hkey hrun havoid he hni hcross hin
    have hsplit := hrun
    rw [heq, receiveAll, List.foldlM_append] at hsplit
    obtain ⟨n₁, h₁, hsplit⟩ := Option.bind_eq_some_iff.mp hsplit
    obtain ⟨n₂, h₂, -⟩ := Option.bind_eq_some_iff.mp hsplit
    obtain ⟨hn₁, hleaves, -⟩ := receiveAll_spec hn hg hmap h₁
    obtain ⟨-, ⟨ni, hni, hblock⟩, -, -⟩ := receive_spec hn₁ hleaves.keyed (hmap.leaves hleaves) h₂
    refine ⟨ni, hni, hblock.mono fun c hc => ?_, hjoined (by rw [heq]; simp) hni⟩
    obtain ⟨hin, hgone⟩ := (hleaves.kept c).mp hc
    refine ⟨hin, ?_⟩
    rintro e' he' ⟨ni', hni', hcross, rfl⟩
    exact hgone ⟨e', he', ni', hni', hcross, rfl,
      hjoined (by rw [heq]; exact List.mem_append_left _ he') hni' hcross hin⟩
  · intro h
    obtain ⟨n', hrun⟩ := h.receives hn hg hmap
    exact ⟨n', hrun, fun no target route hfound e he =>
      h.avoids hn hg hmap hrun hfound.onRoads he⟩

/-! ## In the small town -/

def sampleNotice (id : ℕ) : WayInfo ℕ × String := ((sampleWay "way/1" [1, 2]).2, nodeID id)

theorem sampleRoads_keyed : Graph.Keyed sampleRoads := by
  intro c node hc
  have hall : ∀ e ∈ sampleRoads.entries, e.2.coordinate = e.1 := by decide
  exact hall (c, node) (StdMap.mem_entries.mpr hc)

/-- A user that is told of the crossing at the near shelter. -/
theorem heeded_iff_sample : Heeded sampleTown (samplePerson 0) [sampleNotice 2] := by
  refine (heeded_iff (by decide) sampleRoads_keyed sampleRoads_onMap sampleRoads_keyed).mpr ?_
  intro before e after heq
  obtain ⟨rfl, rfl, rfl⟩ : before = [] ∧ e = sampleNotice 2 ∧ after = [] := by
    cases before with
    | nil => exact ⟨rfl, (List.cons.inj heq).1.symm, (List.cons.inj heq).2.symm⟩
    | cons b before => simp at heq
  have hopen : StillOpen sampleTown (samplePerson 0).user.graph [] 1 :=
    ⟨by decide, fun e he => absurd he List.not_mem_nil⟩
  refine ⟨sampleCrossing 2 ["way/1"] [(1, 10)], rfl, ⟨by decide, ?_⟩, fun _ _ => ?_⟩
  · refine (if_pos (by decide)).mpr ⟨by decide, fun k hk => ?_, by decide⟩
    obtain rfl : k = 1 := List.mem_singleton.mp hk
    exact hopen
  · exact ⟨1, by decide, by decide⟩

/-- The second of two adjacent crossings is looked for next to the first one, which is gone. -/
theorem adjacent_notices :
    ¬ Heeded sampleTown (samplePerson 0) [sampleNotice 1, sampleNotice 2] := by
  rintro ⟨n', hrun, -⟩
  have hnone : (receiveAll sampleTown (samplePerson 0) [sampleNotice 1, sampleNotice 2]).isNone =
      true := by decide +kernel
  rw [hrun] at hnone
  cases hnone

end Ns3.Ferry2
