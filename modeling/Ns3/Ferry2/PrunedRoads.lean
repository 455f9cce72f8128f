import Ns3.Ferry2.LargestComponent

/-!
# What is left of the roads

The two loops of `JSON_Data::json_input` that find the ways to erase and erase
them. A way stays exactly if its junctions are in the graph that is kept, and a
node that is on a way stays with its ways.
-/

namespace Ns3.Ferry2

open Ns3.Lib Relation

variable {C : Type} [LinearOrder C] {g : Geodesic C} {d : MapData C} {graph : Graph C}

/-! ## `unique` -/

theorem mem_unique {id : String} {ids : List String} : id ∈ unique ids ↔ id ∈ ids := by
  induction ids using unique.induct with
  | case1 => rfl
  | case2 id' => rfl
  | case3 id' ids ih =>
    rw [unique, if_pos rfl, ih]
    simp
  | case4 id₁ id₂ ids hne ih =>
    rw [unique, if_neg hne, List.mem_cons, ih, ← List.mem_cons]

theorem unique_nodup {ids : List String} (h : ids.Pairwise (· ≤ ·)) : (unique ids).Nodup := by
  induction ids using unique.induct with
  | case1 => exact List.nodup_nil
  | case2 id' => exact List.nodup_singleton id'
  | case3 id' ids ih =>
    rw [unique, if_pos rfl]
    exact ih h.of_cons
  | case4 id₁ id₂ ids hne ih =>
    rw [unique, if_neg hne]
    obtain ⟨hle, hrest⟩ := List.pairwise_cons.mp h
    refine List.nodup_cons.mpr ⟨fun hmem => ?_, ih hrest⟩
    -- an equal one further on would stand behind `id₂`, which is greater
    have hlt : id₁ < id₂ := lt_of_le_of_ne (hle id₂ (by simp)) hne
    rcases List.mem_cons.mp (mem_unique.mp hmem) with he | hmem
    · exact hne he
    · exact absurd (List.rel_of_pairwise_cons hrest hmem) (not_le.mpr hlt)

/-! ## Which ways are erased -/

/-- One of the junctions of the way is in the graph. -/
def WayInfo.Inside (nodes : StdMap C (WayNode C)) (graph : Graph C) (wi : WayInfo C) : Prop :=
  ∃ c, wi.Junction nodes c ∧ c ∈ graph.vertices

/-- The graph that is kept. -/
def Kept (d : MapData C) (graph : Graph C) : Prop :=
  (graph = .empty ∧ ∀ c, ¬ IsCrossing d.nodes c) ∨ ∃ c, FirstLargest d c ∧ IsGraphOf d c graph

theorem Kept.closed (h : Kept d graph) {a b : C} (ha : a ∈ graph.vertices)
    (hab : ReflTransGen (Adjacent d.nodes) a b) : b ∈ graph.vertices := by
  rcases h with ⟨rfl, -⟩ | ⟨c, -, -, hgraph⟩
  · rw [Graph.vertices_empty] at ha
    exact ha.elim
  · rw [hgraph] at ha ⊢
    exact ReflTransGen.trans ha hab

theorem Kept.inside (h : Kept d graph) (hd : Joined d) {id : String} {wi : WayInfo C}
    (hwi : d.linestrings.find id = some wi) (hin : wi.Inside d.nodes graph) {c : C}
    (hc : wi.Junction d.nodes c) : c ∈ graph.vertices := by
  obtain ⟨a, ha, hmem⟩ := hin
  exact h.closed hmem (hd.together id wi a c hwi ha hc)

/-- Without a crossing nobody leaves a way. -/
theorem Joined.passes_of_reach (hd : Joined d) {id : String} {wi : WayInfo C}
    (hwi : d.linestrings.find id = some wi) (hnone : ∀ c, wi.Passes c → ¬ IsCrossing d.nodes c)
    {a b : C} (ha : wi.Passes a) (hab : ReflTransGen (Adjacent d.nodes) a b) : wi.Passes b := by
  induction hab with
  | refl => exact ha
  | tail _ hstep ih =>
    obtain ⟨id', wi', hwi', hu, hv⟩ := hd.onWay _ _ hstep
    by_cases he : id = id'
    · subst he
      rw [hwi] at hwi'
      cases hwi'
      exact hv.1
    · exact absurd (hd.shared id id' wi wi' _ hwi hwi' he ih hu.1) (hnone _ ih)

/-- A way that is in the graph has a crossing. -/
theorem Kept.crossing (h : Kept d graph) (hd : Joined d) {id : String} {wi : WayInfo C}
    (hwi : d.linestrings.find id = some wi) (hin : wi.Inside d.nodes graph) :
    ∃ c, wi.Passes c ∧ IsCrossing d.nodes c := by
  by_contra hno
  have hnone : ∀ c, wi.Passes c → ¬ IsCrossing d.nodes c := fun c hc hcross => hno ⟨c, hc, hcross⟩
  obtain ⟨a, ha, hmem⟩ := hin
  rcases h with ⟨rfl, -⟩ | ⟨c, hc, -, hgraph⟩
  · rw [Graph.vertices_empty] at hmem
    exact hmem.elim
  · rw [hgraph] at hmem
    have hback := reflTransGen_symm hd.symm hmem
    exact hnone c (hd.passes_of_reach hwi hnone ha.1 hback) hc.crossing

/-- Once a crossing has been seen, nothing is added at the end; a crossing in the graph ends the
loop, and one that is not adds the way. -/
theorem eraseWays_spec {nodes : StdMap C (WayNode C)} (id : String) {q : Prop} (flag : Bool)
    {l : List (WayNode C)} (hon : ∀ it ∈ l, nodes.find it.coordinate ≠ none)
    (hq : ∀ it ∈ l, IsCrossing nodes it.coordinate → (it.coordinate ∈ graph.vertices ↔ q)) :
    ∃ m, eraseWays nodes graph id flag l = some (List.replicate m id) ∧
      (m = 0 ↔ (flag = true ∧ ∀ it ∈ l, ¬ IsCrossing nodes it.coordinate) ∨
        q ∧ ∃ it ∈ l, IsCrossing nodes it.coordinate) := by
  induction l generalizing flag with
  | nil => cases flag <;> [exact ⟨1, rfl, by simp⟩; exact ⟨0, rfl, by simp⟩]
  | cons it2 rest ih =>
    obtain ⟨node, hnode⟩ := Option.ne_none_iff_exists'.mp (hon it2 (by simp))
    have hrest := fun flag => ih flag (fun it hit => hon it (by simp [hit]))
      fun it hit => hq it (by simp [hit])
    unfold eraseWays
    rw [hnode, Option.bind_eq_bind, Option.bind_some]
    by_cases hc : node.isCrossing = true
    · have hcross : IsCrossing nodes it2.coordinate := ⟨node, hnode, hc⟩
      have hiff := hq it2 (by simp) hcross
      rw [if_pos hc]
      by_cases hin : it2.coordinate ∈ graph.vertices
      · rw [if_pos (show graph.contains it2.coordinate = true from Option.isSome_iff_ne_none.mpr hin)]
        exact ⟨0, rfl, iff_of_true rfl (.inr ⟨hiff.mp hin, it2, by simp, hcross⟩)⟩
      · rw [if_neg (show ¬ graph.contains it2.coordinate = true from
          fun hs => hin (Option.isSome_iff_ne_none.mp hs))]
        obtain ⟨m, hm, -⟩ := hrest true
        rw [hm, Option.bind_eq_bind, Option.bind_some]
        refine ⟨m + 1, rfl, iff_of_false (Nat.succ_ne_zero m) ?_⟩
        rintro (⟨-, hno⟩ | ⟨hq', -⟩)
        · exact hno it2 (by simp) hcross
        · exact hin (hiff.mpr hq')
    · have hno : ¬ IsCrossing nodes it2.coordinate := by
        rintro ⟨node', hnode', hc'⟩
        rw [hnode] at hnode'
        cases hnode'
        exact hc hc'
      rw [if_neg hc]
      obtain ⟨m, hm, hzero⟩ := hrest flag
      refine ⟨m, hm, hzero.trans ?_⟩
      simp only [List.forall_mem_cons, List.exists_mem_cons_iff, hno, not_false_eq_true, true_and,
        false_or]

theorem eraseIds_spec {nodes : StdMap C (WayNode C)} {keep : WayInfo C → Prop}
    (es : List (String × WayInfo C)) (acc : List String)
    (hes : ∀ e ∈ es, ∃ m, eraseWays nodes graph e.1 false e.2.nodes = some (List.replicate m e.1) ∧
      (m = 0 ↔ keep e.2))
    (hsorted : es.Pairwise fun a b => a.1 < b.1) (hacc : acc.Pairwise (· ≤ ·))
    (hlt : ∀ a ∈ acc, ∀ e ∈ es, a ≤ e.1) :
    ∃ ids, es.foldlM (fun ids e => do
        let ids' ← eraseWays nodes graph e.1 false e.2.nodes
        return ids ++ ids') acc = some ids ∧ ids.Pairwise (· ≤ ·) ∧
      ∀ id, id ∈ ids ↔ id ∈ acc ∨ ∃ e ∈ es, e.1 = id ∧ ¬ keep e.2 := by
  induction es generalizing acc with
  | nil => exact ⟨acc, rfl, hacc, fun id => by simp⟩
  | cons e es ih =>
    obtain ⟨m, hm, hzero⟩ := hes e (by simp)
    obtain ⟨hnext, hsorted⟩ := List.pairwise_cons.mp hsorted
    have hacc' : (acc ++ List.replicate m e.1).Pairwise (· ≤ ·) := by
      refine List.pairwise_append.mpr ⟨hacc, List.pairwise_replicate.mpr (.inr le_rfl), ?_⟩
      intro a ha b hb
      rw [List.eq_of_mem_replicate hb]
      exact hlt a ha e (by simp)
    obtain ⟨ids, hrun, hpair, hmem⟩ := ih (acc ++ List.replicate m e.1)
      (fun e' he' => hes e' (by simp [he'])) hsorted hacc' fun a ha e' he' => by
        rcases List.mem_append.mp ha with ha | ha
        · exact hlt a ha e' (by simp [he'])
        · rw [List.eq_of_mem_replicate ha]
          exact (hnext e' he').le
    refine ⟨ids, ?_, hpair, fun id => ?_⟩
    · rw [List.foldlM_cons, hm]
      exact hrun
    · rw [hmem, List.mem_append, List.mem_replicate, or_assoc]
      refine or_congr_right ?_
      rw [List.exists_mem_cons_iff, ← hzero]
      exact or_congr_left ⟨fun h => ⟨h.2.symm, h.1⟩, fun h => ⟨h.2, h.1.symm⟩⟩

/-! ## Erasing them -/

theorem find_eraseNodes (l : List (WayNode C)) (nodes : StdMap C (WayNode C)) (c : C) :
    (l.foldl (fun nodes it2 => nodes.erase it2.coordinate) nodes).find c =
      if c ∈ l.map WayNode.coordinate then none else nodes.find c := by
  induction l generalizing nodes with
  | nil => rfl
  | cons it2 rest ih =>
    rw [List.foldl_cons, ih, StdMap.find_erase, List.map_cons]
    by_cases h : c = it2.coordinate
    · simp [h]
    · simp [h]

theorem eraseAll_spec {ids : List String} {d : MapData C} (hnodup : ids.Nodup)
    (hids : ∀ id ∈ ids, d.linestrings.find id ≠ none) :
    ∃ d', ids.foldlM eraseWay d = some d' ∧
      (∀ id, d'.linestrings.find id = if id ∈ ids then none else d.linestrings.find id) ∧
      ∀ c, ((∃ id ∈ ids, ∃ wi, d.linestrings.find id = some wi ∧ wi.Passes c) →
          d'.nodes.find c = none) ∧
        ((¬ ∃ id ∈ ids, ∃ wi, d.linestrings.find id = some wi ∧ wi.Passes c) →
          d'.nodes.find c = d.nodes.find c) := by
  induction ids generalizing d with
  | nil => exact ⟨d, rfl, fun id => by simp, fun c => by simp⟩
  | cons id ids ih =>
    obtain ⟨hnew, hnodup⟩ := List.nodup_cons.mp hnodup
    obtain ⟨wi, hwi⟩ := Option.ne_none_iff_exists'.mp (hids id (by simp))
    have hfind : ∀ id', (d.linestrings.erase id).find id' =
        if id' = id then none else d.linestrings.find id' := fun id' => StdMap.find_erase ..
    have hother : ∀ id' ∈ ids, (d.linestrings.erase id).find id' = d.linestrings.find id' := by
      intro id' hid'
      rw [hfind, if_neg]
      rintro rfl
      exact hnew hid'
    obtain ⟨d', hrun, hways, hnodes⟩ := ih (d := ⟨wi.nodes.foldl
        (fun nodes it2 => nodes.erase it2.coordinate) d.nodes, d.linestrings.erase id⟩) hnodup
      fun id' hid' => by
        dsimp only
        rw [hother id' hid']
        exact hids id' (by simp [hid'])
    refine ⟨d', ?_, fun id' => ?_, fun c => ?_⟩
    · rw [List.foldlM_cons, eraseWay, hwi]
      exact hrun
    · rw [hways]
      dsimp only
      rw [hfind]
      by_cases h : id' = id
      · simp [h]
      · simp [h]
    · have hsame : (∃ id' ∈ ids, ∃ wi, (d.linestrings.erase id).find id' = some wi ∧ wi.Passes c) ↔
          ∃ id' ∈ ids, ∃ wi, d.linestrings.find id' = some wi ∧ wi.Passes c := by
        refine exists_congr fun id' => and_congr_right fun hid' => ?_
        rw [hother id' hid']
      obtain ⟨herased, hkept⟩ := hnodes c
      dsimp only at herased hkept
      rw [hsame] at herased hkept
      rw [find_eraseNodes] at hkept
      rw [List.exists_mem_cons_iff]
      constructor
      · rintro (⟨wi', hwi', hc⟩ | hrest)
        · rw [hwi] at hwi'
          cases hwi'
          by_cases h : ∃ id' ∈ ids, ∃ wi, d.linestrings.find id' = some wi ∧ wi.Passes c
          · exact herased h
          · rw [hkept h]
            exact if_pos hc
        · exact herased hrest
      · intro hno
        rw [not_or] at hno
        rw [hkept hno.2]
        exact if_neg fun hc => hno.1 ⟨wi, hwi, hc⟩

/-! ## The map that is left -/

/-- A largest component with a crossing is kept, with its ways and their nodes, and nothing else. -/
structure Pruned (d : MapData C) (graph : Graph C) (d' : MapData C) : Prop where
  largest : (graph = .empty ∧ ∀ c, ¬ IsCrossing d.nodes c) ∨
    ∃ c, IsCrossing d.nodes c ∧ IsGraphOf d c graph ∧
      ∀ c', IsCrossing d.nodes c' → (component d c').ncard ≤ (component d c).ncard
  graph_kept : ∀ c ∈ graph.vertices, d'.nodes.find c ≠ none
  way_inside : ∀ id wi', d'.linestrings.find id = some wi' →
    (∃ wi, d.linestrings.find id = some wi ∧
      wi'.nodes.map WayNode.coordinate = wi.nodes.map WayNode.coordinate) ∧
    (∀ c, wi'.Junction d.nodes c → c ∈ graph.vertices) ∧ ∀ c, wi'.Passes c → d'.nodes.find c ≠ none
  way_kept : ∀ id wi, d.linestrings.find id = some wi →
    (∀ c, wi.Junction d.nodes c → c ∈ graph.vertices) → d'.linestrings.find id ≠ none
  node_inside : ∀ c node, d'.nodes.find c = some node → d.nodes.find c = some node ∧
    (c ∈ graph.vertices ∨ ∃ id wi, d'.linestrings.find id = some wi ∧ wi.Passes c)

/-- The node at `c` is on a way. -/
def OnSomeWay (d : MapData C) (c : C) : Prop := ∃ id wi, d.linestrings.find id = some wi ∧ wi.Passes c

theorem WayInfo.junction_congr {nodes : StdMap C (WayNode C)} {wi wi' : WayInfo C} {c : C}
    (h : wi'.nodes.map WayNode.coordinate = wi.nodes.map WayNode.coordinate) :
    wi'.Junction nodes c ↔ wi.Junction nodes c := by
  unfold WayInfo.Junction WayInfo.Passes
  rw [h]

theorem WayInfo.passes_congr {wi wi' : WayInfo C} {c : C}
    (h : wi'.nodes.map WayNode.coordinate = wi.nodes.map WayNode.coordinate) :
    wi'.Passes c ↔ wi.Passes c := by
  unfold WayInfo.Passes
  rw [h]

theorem WayInfo.inside_congr {nodes : StdMap C (WayNode C)} {wi wi' : WayInfo C}
    (h : wi'.nodes.map WayNode.coordinate = wi.nodes.map WayNode.coordinate) :
    wi'.Inside nodes graph ↔ wi.Inside nodes graph :=
  exists_congr fun _ => and_congr_left fun _ => WayInfo.junction_congr h

/-- The first node of a way. -/
theorem Joined.exists_junction (hd : Joined d) {id : String} {wi : WayInfo C}
    (hwi : d.linestrings.find id = some wi) : ∃ c, wi.Junction d.nodes c := by
  cases hnodes : wi.nodes with
  | nil => exact absurd hnodes (hd.nonempty id wi hwi)
  | cons wn rest =>
    refine ⟨wn.coordinate, ?_, .inr (.inl ?_)⟩
    · unfold WayInfo.Passes
      rw [hnodes]
      simp
    · rw [hnodes]
      rfl

/-- The ways that are erased are those outside the graph. -/
theorem pruneRoads_spec (hd : Joined d) {k : ℕ} (hk : d.nodes.size < k) :
    ∃ graph d', pruneRoads k d = some (graph, d') ∧ Kept d graph ∧
      (∀ id wi', d'.linestrings.find id = some wi' → ∃ wi, d.linestrings.find id = some wi ∧
        wi'.nodes.map WayNode.coordinate = wi.nodes.map WayNode.coordinate) ∧
      (∀ id wi, d.linestrings.find id = some wi →
        (d'.linestrings.find id ≠ none ↔ wi.Inside d.nodes graph)) ∧
      ∀ c, ((∃ id wi, d.linestrings.find id = some wi ∧ ¬ wi.Inside d.nodes graph ∧ wi.Passes c) →
          d'.nodes.find c = none) ∧
        ((¬ ∃ id wi, d.linestrings.find id = some wi ∧ ¬ wi.Inside d.nodes graph ∧ wi.Passes c) →
          d'.nodes.find c = d.nodes.find c) := by
  obtain ⟨linestrings, graph, hsurvey, hways, hgraph⟩ := survey_all hd hk
  have hkept : Kept d graph := hgraph
  have hscan : ∀ e ∈ linestrings.entries, ∃ m,
      eraseWays d.nodes graph e.1 false e.2.nodes = some (List.replicate m e.1) ∧
        (m = 0 ↔ e.2.Inside d.nodes graph) := by
    rintro ⟨id, wi'⟩ he
    obtain ⟨wi, hwi, hcoords⟩ := hways.symm.exists (StdMap.mem_entries.mp he)
    have hpass : ∀ it ∈ wi'.nodes, wi.Passes it.coordinate := by
      intro it hit
      unfold WayInfo.Passes
      rw [hcoords]
      exact List.mem_map.mpr ⟨it, hit, rfl⟩
    obtain ⟨m, hm, hzero⟩ := eraseWays_spec id false (q := wi.Inside d.nodes graph) (l := wi'.nodes)
      (fun it hit => hd.onMap id wi _ hwi (hpass it hit))
      fun it hit hcross => ⟨fun hmem => ⟨it.coordinate, ⟨hpass it hit, .inl hcross⟩, hmem⟩,
        fun hin => hkept.inside hd hwi hin ⟨hpass it hit, .inl hcross⟩⟩
    refine ⟨m, hm, hzero.trans ?_⟩
    rw [WayInfo.inside_congr hcoords.symm]
    constructor
    · rintro (⟨hflag, -⟩ | ⟨hin, -⟩)
      · cases hflag
      · exact hin
    · intro hin
      obtain ⟨c, hc, hcross⟩ := hkept.crossing hd hwi hin
      unfold WayInfo.Passes at hc
      rw [hcoords] at hc
      obtain ⟨it, hit, rfl⟩ := List.mem_map.mp hc
      exact .inr ⟨hin, it, hit, hcross⟩
  obtain ⟨ids, hids, hpair, hmem⟩ := eraseIds_spec linestrings.entries [] hscan linestrings.sorted
    .nil fun a ha => by cases ha
  have hout : ∀ id, id ∈ unique ids ↔ ∃ wi, linestrings.find id = some wi ∧
      ¬ wi.Inside d.nodes graph := by
    intro id
    rw [mem_unique, hmem]
    constructor
    · rintro (ha | ⟨⟨id', wi⟩, he, rfl, hno⟩)
      · cases ha
      · exact ⟨wi, StdMap.mem_entries.mp he, hno⟩
    · rintro ⟨wi, hwi, hno⟩
      exact .inr ⟨(id, wi), StdMap.mem_entries.mpr hwi, rfl, hno⟩
  obtain ⟨d', hrun, hlines, hnodes⟩ := eraseAll_spec (d := ⟨d.nodes, linestrings⟩)
    (unique_nodup hpair) fun id hid => by
      obtain ⟨wi, hwi, -⟩ := (hout id).mp hid
      dsimp only
      rw [hwi]
      exact Option.some_ne_none _
  dsimp only at hlines hnodes
  have herased : ∀ c, (∃ id ∈ unique ids, ∃ wi, linestrings.find id = some wi ∧ wi.Passes c) ↔
      ∃ id wi, d.linestrings.find id = some wi ∧ ¬ wi.Inside d.nodes graph ∧ wi.Passes c := by
    intro c
    constructor
    · rintro ⟨id, hid, wi', hwi', hc⟩
      obtain ⟨wi'', hwi'', hno⟩ := (hout id).mp hid
      rw [hwi'] at hwi''
      cases hwi''
      obtain ⟨wi, hwi, he⟩ := hways.symm.exists hwi'
      exact ⟨id, wi, hwi, fun h => hno ((WayInfo.inside_congr he).mp h), (WayInfo.passes_congr he).mpr hc⟩
    · rintro ⟨id, wi, hwi, hno, hc⟩
      obtain ⟨wi', hwi', he⟩ := hways.exists hwi
      exact ⟨id, (hout id).mpr ⟨wi', hwi', fun h => hno ((WayInfo.inside_congr he).mp h)⟩, wi', hwi',
        (WayInfo.passes_congr he).mpr hc⟩
  refine ⟨graph, d', ?_, hkept, fun id wi' hwi' => ?_, fun id wi hwi => ?_, fun c => ?_⟩
  · unfold pruneRoads
    rw [hsurvey, Option.bind_eq_bind, Option.bind_some]
    dsimp only
    rw [hids, Option.bind_eq_bind, Option.bind_some, hrun]
    rfl
  · rw [hlines] at hwi'
    split_ifs at hwi' with hid
    obtain ⟨wi, hwi, he⟩ := hways.symm.exists hwi'
    exact ⟨wi, hwi, he.symm⟩
  · obtain ⟨wi', hwi', he⟩ := hways.exists hwi
    rw [hlines]
    split_ifs with hid
    · obtain ⟨wi'', hwi'', hno⟩ := (hout id).mp hid
      rw [hwi'] at hwi''
      cases hwi''
      exact iff_of_false (fun h => h rfl) fun h => hno ((WayInfo.inside_congr he).mpr h)
    · rw [hwi']
      refine iff_of_true (Option.some_ne_none _) ?_
      by_contra hno
      exact hid ((hout id).mpr ⟨wi', hwi', fun h => hno ((WayInfo.inside_congr he).mp h)⟩)
  · rw [← herased]
    exact hnodes c

theorem FirstLargest.unique {a b : C} (ha : FirstLargest d a) (hb : FirstLargest d b) : a = b := by
  rcases lt_trichotomy a b with h | h | h
  · exact absurd (hb.first a h ha.crossing) (not_lt.mpr (ha.largest b hb.crossing))
  · exact h
  · exact absurd (ha.first b h hb.crossing) (not_lt.mpr (hb.largest a ha.crossing))

/-- A vertex of the graph is the crossing that it was found from, or a junction of some way. -/
theorem Kept.vertex (h : Kept d graph) (hd : Joined d) {c : C} (hc : c ∈ graph.vertices) :
    FirstLargest d c ∨ ∃ id wi, d.linestrings.find id = some wi ∧ wi.Junction d.nodes c := by
  rcases h with ⟨rfl, -⟩ | ⟨c₀, hfirst, -, hgraph⟩
  · rw [Graph.vertices_empty] at hc
    exact hc.elim
  · rw [hgraph] at hc
    rcases ReflTransGen.cases_head (reflTransGen_symm hd.symm hc) with he | ⟨x, hstep, -⟩
    · exact .inl (he ▸ hfirst)
    · obtain ⟨id, wi, hwi, hj, -⟩ := hd.onWay c x hstep
      exact .inr ⟨id, wi, hwi, hj⟩

/-- No way outside the graph passes a vertex of it. -/
theorem Kept.not_passes (h : Kept d graph) (hd : Joined d) {c : C} (hc : c ∈ graph.vertices)
    {id : String} {wi : WayInfo C} (hwi : d.linestrings.find id = some wi)
    (hout : ¬ wi.Inside d.nodes graph) : ¬ wi.Passes c := by
  intro hpass
  rcases h.vertex hd hc with hfirst | ⟨id', wi', hwi', hj⟩
  · exact hout ⟨c, ⟨hpass, .inl hfirst.crossing⟩, hc⟩
  · by_cases he : id = id'
    · subst he
      rw [hwi] at hwi'
      cases hwi'
      exact hout ⟨c, hj, hc⟩
    · exact hout ⟨c, ⟨hpass, .inl (hd.shared id id' wi wi' c hwi hwi' he hpass hj.1)⟩, hc⟩

/-- Nor does it pass a node of a way inside. -/
theorem Kept.apart (h : Kept d graph) (hd : Joined d) {c : C} {id id' : String} {wi wi' : WayInfo C}
    (hwi : d.linestrings.find id = some wi) (hin : wi.Inside d.nodes graph) (hc : wi.Passes c)
    (hwi' : d.linestrings.find id' = some wi') (hout : ¬ wi'.Inside d.nodes graph) :
    ¬ wi'.Passes c := by
  intro hc'
  by_cases he : id = id'
  · subst he
    rw [hwi] at hwi'
    cases hwi'
    exact hout hin
  · have hcross := hd.shared id id' wi wi' c hwi hwi' he hc hc'
    exact h.not_passes hd (h.inside hd hwi hin ⟨hc, .inl hcross⟩) hwi' hout hc'

theorem Kept.find_of_vertex (h : Kept d graph) {c : C} (hc : c ∈ graph.vertices) :
    d.nodes.find c ≠ none := by
  rcases h with ⟨rfl, -⟩ | ⟨c₀, -, hfrom, -⟩
  · rw [Graph.vertices_empty] at hc
    exact hc.elim
  · obtain ⟨node, hnode⟩ := Option.ne_none_iff_exists'.mp hc
    rw [hfrom c node hnode]
    exact Option.some_ne_none _

theorem Kept.mem_of_firstLargest (h : Kept d graph) {c : C} (hc : FirstLargest d c) :
    c ∈ graph.vertices := by
  rcases h with ⟨-, hnone⟩ | ⟨c₀, hfirst, -, hgraph⟩
  · exact absurd hc.crossing (hnone c)
  · rw [hgraph, hc.unique hfirst]
    exact mem_component_self d c₀

/-- For every map file in which the line strings have coordinates, and a search as deep as there
are nodes. -/
theorem pruned_iff (g : Geodesic C) {features : List (Feature C)} (h : WellFormed features) {k : ℕ}
    (hk : (readFeatures features).nodes.size < k) :
    ∃ nodes graph d', linkRoads g (readFeatures features) = some nodes ∧
      jsonInput g k features = some (graph, d') ∧
      (Pruned ⟨nodes, (readFeatures features).linestrings⟩ graph d' ↔
        ∀ c node, nodes.find c = some node → OnSomeWay (readFeatures features) c ∨
          FirstLargest ⟨nodes, (readFeatures features).linestrings⟩ c) := by
  have hread := mapRead_readFeatures h
  obtain ⟨nodes, hlink, hsame, -⟩ := linkRoads_spec g hread
  have hd := joined_linkRoads hread hlink
  have hsize : nodes.size ≤ (readFeatures features).nodes.size := by
    refine StdMap.size_le_of_find fun c hc => ?_
    obtain ⟨node, hnode⟩ := Option.ne_none_iff_exists'.mp hc
    obtain ⟨node', hnode', -⟩ := hsame.symm.exists hnode
    rw [hnode']
    exact Option.some_ne_none _
  obtain ⟨graph, d', hprune, hkept, hsub, hstay, hnodes⟩ :=
    pruneRoads_spec hd (lt_of_le_of_lt hsize hk)
  refine ⟨nodes, graph, d', hlink, ?_, ?_⟩
  · unfold jsonInput
    dsimp only
    rw [hlink, Option.bind_eq_bind, Option.bind_some, hprune]
  constructor
  · intro hpruned c node hnode
    by_cases hon : OnSomeWay (readFeatures features) c
    · exact .inl hon
    · have hleft : d'.nodes.find c = some node := by
        rw [(hnodes c).2, hnode]
        rintro ⟨id, wi, hwi, -, hc⟩
        exact hon ⟨id, wi, hwi, hc⟩
      rcases (hpruned.node_inside c node hleft).2 with hc | ⟨id, wi', hwi', hc⟩
      · rcases hkept.vertex hd hc with hfirst | ⟨id, wi, hwi, hj⟩
        · exact .inr hfirst
        · exact absurd ⟨id, wi, hwi, hj.1⟩ hon
      · obtain ⟨wi, hwi, he⟩ := hsub id wi' hwi'
        exact absurd ⟨id, wi, hwi, (WayInfo.passes_congr he).mp hc⟩ hon
  · intro hcond
    refine ⟨?_, fun c hc => ?_, fun id wi' hwi' => ?_, fun id wi hwi hall => ?_,
      fun c node hnode => ?_⟩
    · exact hkept.imp_right fun ⟨c, hfirst, hgraph⟩ => ⟨c, hfirst.crossing, hgraph, hfirst.largest⟩
    · rw [(hnodes c).2]
      · exact hkept.find_of_vertex hc
      · rintro ⟨id, wi, hwi, hout, hpass⟩
        exact hkept.not_passes hd hc hwi hout hpass
    · obtain ⟨wi, hwi, he⟩ := hsub id wi' hwi'
      have hin := (hstay id wi hwi).mp (by rw [hwi']; exact Option.some_ne_none _)
      refine ⟨⟨wi, hwi, he⟩, fun c hc => ?_, fun c hc => ?_⟩
      · exact hkept.inside hd hwi hin ((WayInfo.junction_congr he).mp hc)
      · have hpass := (WayInfo.passes_congr he).mp hc
        rw [(hnodes c).2]
        · exact hd.onMap id wi c hwi hpass
        · rintro ⟨id₂, wi₂, hwi₂, hout, hc₂⟩
          exact hkept.apart hd hwi hin hpass hwi₂ hout hc₂
    · obtain ⟨c, hc⟩ := hd.exists_junction hwi
      exact (hstay id wi hwi).mpr ⟨c, hc, hall c hc⟩
    · have hno : ¬ ∃ id wi, (readFeatures features).linestrings.find id = some wi ∧
          ¬ wi.Inside nodes graph ∧ wi.Passes c := by
        intro hout
        rw [(hnodes c).1 hout] at hnode
        cases hnode
      have hold := (hnodes c).2 hno
      rw [hnode] at hold
      refine ⟨hold.symm, ?_⟩
      rcases hcond c node hold.symm with ⟨id, wi, hwi, hc⟩ | hfirst
      · have hin : wi.Inside nodes graph := by
          by_contra hout
          exact hno ⟨id, wi, hwi, hout, hc⟩
        obtain ⟨wi', hwi'⟩ := Option.ne_none_iff_exists'.mp ((hstay id wi hwi).mpr hin)
        obtain ⟨wi₂, hwi₂, he⟩ := hsub id wi' hwi'
        dsimp only at hwi₂
        rw [hwi] at hwi₂
        cases hwi₂
        exact .inr ⟨id, wi', hwi', (WayInfo.passes_congr he).mpr hc⟩
      · exact .inl (hkept.mem_of_firstLargest hfirst)

/-! ## A shelter beside the road -/

/-- Two ways that cross each other, and a point off the road. -/
def sampleSideways : List (Feature ℕ) :=
  [.point 9, .lineString "way/1" [1, 2, 3], .lineString "way/2" [4, 2, 5]]

theorem sampleSideways_wellFormed : WellFormed sampleSideways := by
  intro id
  simp [sampleSideways]

def sampleMetric : Geodesic ℕ := ⟨fun a b => |(a : ℚ) - b|, id⟩

theorem pruned_iff_sample : ∃ nodes graph d',
    linkRoads sampleMetric (readFeatures sampleSideways) = some nodes ∧
      jsonInput sampleMetric 10 sampleSideways = some (graph, d') ∧
      (Pruned ⟨nodes, (readFeatures sampleSideways).linestrings⟩ graph d' ↔
        ∀ c node, nodes.find c = some node → OnSomeWay (readFeatures sampleSideways) c ∨
          FirstLargest ⟨nodes, (readFeatures sampleSideways).linestrings⟩ c) :=
  pruned_iff sampleMetric sampleSideways_wellFormed (by decide +kernel)

/-- The point stays. -/
theorem sampleSideways_left : WellFormed sampleSideways ∧ ∃ nodes graph d',
    linkRoads sampleMetric (readFeatures sampleSideways) = some nodes ∧
      jsonInput sampleMetric 10 sampleSideways = some (graph, d') ∧
      graph.keys = [1, 2, 3, 4, 5] ∧ d'.nodes.keys = [1, 2, 3, 4, 5, 9] ∧
      ¬ Pruned ⟨nodes, (readFeatures sampleSideways).linestrings⟩ graph d' := by
  obtain ⟨nodes, hlink⟩ := Option.isSome_iff_exists.mp
    (show (linkRoads sampleMetric (readFeatures sampleSideways)).isSome = true by decide +kernel)
  obtain ⟨⟨graph, d'⟩, hrun⟩ := Option.isSome_iff_exists.mp
    (show (jsonInput sampleMetric 10 sampleSideways).isSome = true by decide +kernel)
  have hkeys : (jsonInput sampleMetric 10 sampleSideways).map (fun r => (r.1.keys, r.2.nodes.keys)) =
      some ([1, 2, 3, 4, 5], [1, 2, 3, 4, 5, 9]) := by decide +kernel
  have hlines : (jsonInput sampleMetric 10 sampleSideways).map (fun r =>
      r.2.linestrings.entries.map fun e => e.2.nodes.map WayNode.coordinate) =
      some [[1, 2, 3], [4, 2, 5]] := by decide +kernel
  rw [hrun] at hkeys hlines
  simp only [Option.map_some, Option.some_inj, Prod.mk.injEq] at hkeys
  obtain ⟨hgraph, hleft⟩ := hkeys
  have hways := Option.some_inj.mp hlines
  dsimp only at hways
  refine ⟨sampleSideways_wellFormed, nodes, graph, d', hlink, hrun, hgraph, hleft, fun hpruned => ?_⟩
  obtain ⟨node, hnode⟩ := StdMap.mem_keys.mp (show 9 ∈ d'.nodes.keys by rw [hleft]; simp)
  rcases (hpruned.node_inside 9 node hnode).2 with hc | ⟨id, wi, hwi, hc⟩
  · obtain ⟨v, hv⟩ := Option.ne_none_iff_exists'.mp hc
    have hmem := StdMap.mem_keys.mpr ⟨v, hv⟩
    rw [hgraph] at hmem
    simp at hmem
  · have hmem : wi.nodes.map WayNode.coordinate ∈
        d'.linestrings.entries.map fun e => e.2.nodes.map WayNode.coordinate :=
      List.mem_map.mpr ⟨(id, wi), StdMap.mem_entries.mpr hwi, rfl⟩
    unfold WayInfo.Passes at hc
    rw [hways] at hmem
    simp only [List.mem_cons, List.not_mem_nil, or_false] at hmem
    rcases hmem with he | he
    · rw [he] at hc
      simp at hc
    · rw [he] at hc
      simp at hc

end Ns3.Ferry2
