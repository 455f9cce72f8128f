import Ns3.Ferry2.RoadPruning

/-!
# The largest component

What `JSON_Data::json_input` leaves of a road map. The crossings and the ends of
a way are linked with one another, and two ways meet in crossings only, so that
a way is in the component that is kept with all of them or with none. The ways
are erased accordingly. Nodes are erased with their ways, and a node on no way
is left where it is.
-/

namespace Ns3.Ferry2

open Ns3.Lib Relation

variable {C : Type} [LinearOrder C] {g : Geodesic C} {d : MapData C}

/-- `v` is among the neighbours of `u`. -/
def Adjacent (nodes : StdMap C (WayNode C)) (u v : C) : Prop := neighborDist nodes u v ≠ none

/-- The way is `wi`, and `c` is one of its nodes. -/
def WayInfo.Passes (wi : WayInfo C) (c : C) : Prop := c ∈ wi.nodes.map WayNode.coordinate

/-- A node of a way where it may be left: a crossing, or one of its ends. -/
def WayInfo.Junction (nodes : StdMap C (WayNode C)) (wi : WayInfo C) (c : C) : Prop :=
  wi.Passes c ∧ (IsCrossing nodes c ∨ (wi.nodes.map WayNode.coordinate).head? = some c ∨
    (wi.nodes.map WayNode.coordinate).getLast? = some c)

/-- The map when its crossings have been joined. -/
structure Joined (d : MapData C) : Prop where
  coordinate : ∀ c node, d.nodes.find c = some node → node.coordinate = c
  known : ∀ c node, d.nodes.find c = some node → ∀ id ∈ node.wayIDs,
    d.linestrings.find id ≠ none
  onMap : ∀ id wi c, d.linestrings.find id = some wi → wi.Passes c → d.nodes.find c ≠ none
  shared : ∀ id₁ id₂ w₁ w₂ c, d.linestrings.find id₁ = some w₁ → d.linestrings.find id₂ = some w₂ →
    id₁ ≠ id₂ → w₁.Passes c → w₂.Passes c → IsCrossing d.nodes c
  symm : ∀ u v, Adjacent d.nodes u v → Adjacent d.nodes v u
  nonempty : ∀ id wi, d.linestrings.find id = some wi → wi.nodes ≠ []
  onWay : ∀ u v, Adjacent d.nodes u v → ∃ id wi, d.linestrings.find id = some wi ∧
    wi.Junction d.nodes u ∧ wi.Junction d.nodes v
  together : ∀ id wi a b, d.linestrings.find id = some wi → wi.Junction d.nodes a →
    wi.Junction d.nodes b → ReflTransGen (Adjacent d.nodes) a b

/-- Whoever follows a way comes by the nodes where it is cut. -/
theorem reach_of_cutWay {nodes : StdMap C (WayNode C)} {wn p : C} {dist : ℚ} {l : List (WayNode C)}
    {it : WayNode C} (h : ∀ s ∈ cutWay g wn p dist l, Adjacent nodes s.start s.stop)
    (hit : CutAt l it) : ReflTransGen (Adjacent nodes) wn it.coordinate := by
  induction l generalizing wn p dist with
  | nil => cases hit.1
  | cons it' rest ih =>
    obtain ⟨hmem, hstop⟩ := hit
    unfold cutWay at h
    dsimp only at h
    split_ifs at h with hcut
    · have hstep : Adjacent nodes wn it'.coordinate := h _ (List.mem_cons_self ..)
      rcases List.mem_cons.mp hmem with rfl | hmem
      · exact .single hstep
      · refine .head hstep (ih (fun s hs => h s (List.mem_cons_of_mem _ hs)) ⟨hmem, ?_⟩)
        refine hstop.imp_right fun hlast => ?_
        rwa [List.getLast?_cons_of_ne_nil (List.ne_nil_of_mem hmem)] at hlast
    · rw [not_or] at hcut
      rw [List.getLast?_cons_of_ne_nil hcut.2] at hstop
      rcases List.mem_cons.mp hmem with rfl | hmem
      · rcases hstop with hmark | hlast
        · exact absurd hmark hcut.1
        · exact ih h ⟨List.mem_of_getLast? hlast, .inr hlast⟩
      · exact ih h ⟨hmem, hstop⟩

theorem joined_linkRoads {nodes : StdMap C (WayNode C)} (h : MapRead d)
    (hlink : linkRoads g d = some nodes) : Joined ⟨nodes, d.linestrings⟩ := by
  obtain ⟨nodes', hlink', hsame, hdist⟩ := linkRoads_spec g h
  rw [hlink] at hlink'
  cases hlink'
  have hold : ∀ {c node}, nodes.find c = some node →
      ∃ node', d.nodes.find c = some node' ∧ node'.unlink = node.unlink := hsame.symm.exists
  have hpass : ∀ {id wi c}, d.linestrings.find id = some wi → wi.Passes c →
      ∃ it ∈ wi.nodes, it.coordinate = c ∧ ∃ node, d.nodes.find c = some node ∧
        (node.isCrossing = true → ∃ it' ∈ wi.nodes, it'.coordinate = c ∧ it'.isCrossing = true) := by
    intro id wi c hwi hc
    obtain ⟨it, hit, rfl⟩ := List.mem_map.mp hc
    obtain ⟨node, hnode, -, -, hcopy⟩ := h.stored id wi hwi it hit
    exact ⟨it, hit, rfl, node, hnode, hcopy⟩
  have hadj : ∀ {u v}, Adjacent nodes u v ↔ ∃ s ∈ d.stretches g, s.Joins u v := by
    intro u v
    unfold Adjacent
    rw [hdist, firstLength_ne_none]
  -- every junction is reached from the front of its way
  have hsymm : ∀ {u v}, Adjacent nodes u v → Adjacent nodes v u := by
    intro u v huv
    obtain ⟨s, hs, hj⟩ := hadj.mp huv
    exact hadj.mpr ⟨s, hs, Stretch.joins_comm.mp hj⟩
  have hfront : ∀ {id wi wn rest c}, d.linestrings.find id = some wi → wi.nodes = wn :: rest →
      wi.Junction nodes c → ReflTransGen (Adjacent nodes) wn.coordinate c := by
    intro id wi wn rest c hwi hnodes hc
    have hreach : ∀ {it}, CutAt rest it →
        ReflTransGen (Adjacent nodes) wn.coordinate it.coordinate := by
      refine reach_of_cutWay fun s (hs : s ∈ cutWay g wn.coordinate wn.coordinate 0 rest) => ?_
      refine hadj.mpr ⟨s, List.mem_flatMap.mpr ⟨(id, wi), StdMap.mem_entries.mpr hwi, ?_⟩, ?_⟩
      · unfold WayInfo.stretches
        dsimp only
        rw [hnodes]
        exact hs
      · exact .inl ⟨rfl, rfl⟩
    obtain ⟨hpc, hc⟩ := hc
    rcases hc with hc | hc | hc
    · obtain ⟨node, hnode, hmark⟩ := hsame.isCrossing.mp hc
      obtain ⟨-, -, -, node', hnode', hcopy⟩ := hpass hwi hpc
      rw [hnode] at hnode'
      cases hnode'
      obtain ⟨it', hit', rfl, hm⟩ := hcopy hmark
      rw [hnodes] at hit'
      rcases List.mem_cons.mp hit' with rfl | hit'
      · exact .refl
      · exact hreach ⟨hit', .inl hm⟩
    · rw [hnodes] at hc
      cases hc
      exact .refl
    · rw [hnodes, List.getLast?_map] at hc
      obtain ⟨it, hit, rfl⟩ := Option.map_eq_some_iff.mp hc
      cases rest with
      | nil =>
        cases hit
        exact .refl
      | cons it' rest =>
        rw [List.getLast?_cons_of_ne_nil (List.cons_ne_nil _ _)] at hit
        exact hreach ⟨List.mem_of_getLast? hit, .inr hit⟩
  refine ⟨fun c node hnode => ?_, fun c node hnode id hid => ?_, fun id wi c hwi hc => ?_,
    fun id₁ id₂ w₁ w₂ c hw₁ hw₂ hne hc₁ hc₂ => ?_, fun u v huv => hsymm huv, h.nonempty,
    fun u v huv => ?_, fun id wi a b hwi ha hb => ?_⟩
  · obtain ⟨node', hnode', he⟩ := hold hnode
    rw [← h.coordinate c node' hnode']
    exact (WayNode.of_unlink he).1.symm
  · obtain ⟨node', hnode', he⟩ := hold hnode
    have hids := (WayNode.of_unlink he).2.1
    obtain ⟨wi, hwi⟩ := h.known c node' hnode' id (hids ▸ hid)
    dsimp only
    rw [hwi]
    exact Option.some_ne_none _
  · obtain ⟨-, -, -, node, hnode, -⟩ := hpass hwi hc
    obtain ⟨node', hnode', -⟩ := hsame.exists hnode
    dsimp only
    rw [hnode']
    exact Option.some_ne_none _
  · obtain ⟨a, ha, rfl⟩ := List.mem_map.mp hc₁
    obtain ⟨b, hb, hab⟩ := List.mem_map.mp hc₂
    exact hsame.isCrossing.mpr (h.shared id₁ id₂ w₁ w₂ hw₁ hw₂ hne a ha b hb hab.symm)
  · obtain ⟨s, hs, hj⟩ := hadj.mp huv
    obtain ⟨id, wi, hwi, a, b, ha, hb, hstart, hstop⟩ := MapData.mem_stretches hs
    have hcut : ∀ {it}, CutAt wi.nodes it → wi.Junction nodes it.coordinate := by
      rintro it ⟨hmem, hstop⟩
      refine ⟨List.mem_map.mpr ⟨it, hmem, rfl⟩, ?_⟩
      rcases hstop with hmark | hlast
      · obtain ⟨node, hnode, -, hmarked, -⟩ := h.stored id wi hwi it hmem
        exact .inl (hsame.isCrossing.mpr ⟨node, hnode, hmarked hmark⟩)
      · exact .inr (.inr (by rw [List.getLast?_map, hlast]; rfl))
    have hja : wi.Junction nodes a.coordinate := by
      rcases ha with hhead | ha
      · refine ⟨List.mem_map.mpr ⟨a, List.mem_of_head? hhead, rfl⟩, .inr (.inl ?_)⟩
        rw [List.head?_map, hhead]
        rfl
      · exact hcut ha
    have hjb := hcut hb
    rw [hstart] at hja
    rw [hstop] at hjb
    rcases hj with ⟨rfl, rfl⟩ | ⟨rfl, rfl⟩
    · exact ⟨id, wi, hwi, hja, hjb⟩
    · exact ⟨id, wi, hwi, hjb, hja⟩
  · cases hnodes : wi.nodes with
    | nil => exact absurd hnodes (h.nonempty id wi hwi)
    | cons wn rest =>
      have hback : ReflTransGen (Adjacent nodes) a wn.coordinate :=
        reflTransGen_symm (fun _ _ => hsymm) (hfront hwi hnodes ha)
      exact hback.trans (hfront hwi hnodes hb)

/-! ## `SetGraph` -/

theorem mem_keys_iff_adjacent {nodes : StdMap C (WayNode C)} {u v : C} {node : WayNode C}
    (hu : nodes.find u = some node) : v ∈ node.neighborNodes.keys ↔ Adjacent nodes u v := by
  unfold Adjacent neighborDist
  rw [hu, Option.bind_some, StdMap.mem_keys, Option.ne_none_iff_exists']

/-- Every entry of the graph is the node of the map. -/
def Graph.From (nodes : StdMap C (WayNode C)) (graph : Graph C) : Prop :=
  ∀ c node, graph.find c = some node → nodes.find c = some node

def Graph.vertices (graph : Graph C) : Set C := {c | graph.find c ≠ none}

theorem Graph.vertices_empty : Graph.vertices (.empty : Graph C) = ∅ := by
  ext c
  simp [Graph.vertices]

theorem Graph.vertices_insert (graph : Graph C) (c : C) (node : WayNode C) :
    Graph.vertices (graph.insert c node) = insert c (Graph.vertices graph) := by
  ext v
  unfold Graph.vertices
  rw [Set.mem_ofPred_eq, StdMap.find_insert, Set.mem_insert_iff, Set.mem_ofPred_eq]
  split_ifs with hv
  · simp [hv]
  · simp [hv]

theorem Graph.size_eq_ncard (graph : Graph C) : graph.size = (Graph.vertices graph).ncard := by
  have hset : Graph.vertices graph = ↑graph.keys.toFinset := by
    ext v
    rw [List.coe_toFinset, Set.mem_ofPred_eq, StdMap.mem_keys, ← Option.ne_none_iff_exists']
    rfl
  rw [hset, Set.ncard_coe_finset, List.toFinset_card_of_nodup graph.keys_nodup]
  exact (List.length_map _).symm

/-- With as many calls left as nodes are not visited yet, a search comes back. -/
def Searches (d : MapData C) (k : ℕ) : Prop :=
  ∀ (sGraph : Graph C) (c : C), sGraph.From d.nodes → d.nodes.find c ≠ none →
    d.nodes.size < sGraph.size + k →
      ∃ sGraph', setGraph d.nodes k sGraph c = some sGraph' ∧ sGraph'.From d.nodes ∧
        Explored (Adjacent d.nodes) sGraph.vertices sGraph'.vertices fun b => b = c

theorem Joined.find_of_adjacent (h : Joined d) {u v : C} (huv : Adjacent d.nodes u v) :
    ∃ node, d.nodes.find v = some node := by
  have hvu := h.symm u v huv
  unfold Adjacent neighborDist at hvu
  cases hnode : d.nodes.find v with
  | none =>
    rw [hnode] at hvu
    exact absurd rfl hvu
  | some node => exact ⟨node, rfl⟩

/-- The neighbours of `c` one after the other. -/
theorem Searches.neighbors {k : ℕ} (hk : Searches d k) (h : Joined d) {c : C} (vs : List C)
    {graph : Graph C} (hvs : ∀ v ∈ vs, Adjacent d.nodes c v) (hfrom : graph.From d.nodes)
    (hsize : d.nodes.size < graph.size + k) :
    ∃ graph', vs.foldlM (fun sGraph it2 => do
        let nWno ← d.nodes.find it2
        setGraph d.nodes k sGraph nWno.coordinate) graph = some graph' ∧ graph'.From d.nodes ∧
      Explored (Adjacent d.nodes) graph.vertices graph'.vertices fun b => b ∈ vs := by
  induction vs generalizing graph with
  | nil => exact ⟨graph, rfl, hfrom, Explored.nowhere.congr fun a => by simp⟩
  | cons v vs ih =>
    obtain ⟨node, hnode⟩ := h.find_of_adjacent (hvs v (by simp))
    obtain ⟨graph₁, hrun₁, hfrom₁, hexp₁⟩ :=
      hk graph v hfrom (by rw [hnode]; exact Option.some_ne_none _) hsize
    have hgrow : graph.size ≤ graph₁.size := StdMap.size_le_of_find fun v hv => hexp₁.mono hv
    obtain ⟨graph₂, hrun₂, hfrom₂, hexp₂⟩ :=
      ih (fun w hw => hvs w (by simp [hw])) hfrom₁ (by omega)
    refine ⟨graph₂, ?_, hfrom₂, (hexp₁.append hexp₂).congr fun a => List.mem_cons⟩
    rw [List.foldlM_cons, hnode]
    simp only [Option.bind_eq_bind, Option.bind_some]
    rw [h.coordinate v node hnode, hrun₁, Option.bind_some]
    exact hrun₂

theorem setGraph_spec (h : Joined d) (k : ℕ) : Searches d k := by
  induction k with
  | zero =>
    intro sGraph c hfrom _ hk
    have hle : sGraph.size ≤ d.nodes.size := by
      refine StdMap.size_le_of_find fun v hv => ?_
      obtain ⟨node, hnode⟩ := Option.ne_none_iff_exists'.mp hv
      rw [hfrom v node hnode]
      exact Option.some_ne_none _
    omega
  | succ k ih =>
    intro sGraph c hfrom hc hk
    obtain ⟨wno, hwno⟩ := Option.ne_none_iff_exists'.mp hc
    unfold setGraph
    rw [hwno, Option.bind_eq_bind, Option.bind_some]
    cases hin : sGraph.find c with
    | some node =>
      rw [if_pos (by rw [StdMap.contains, hin]; rfl)]
      refine ⟨sGraph, rfl, hfrom, Explored.visited ?_⟩
      show sGraph.find c ≠ none
      rw [hin]
      exact Option.some_ne_none _
    | none =>
      rw [if_neg (by rw [StdMap.contains, hin]; exact Bool.false_ne_true)]
      have hfind : ∀ v, (sGraph.insert c wno).find v = if v = c then some wno else sGraph.find v := by
        intro v
        rw [StdMap.find_insert, hin]
        rfl
      have hlt : sGraph.size < (sGraph.insert c wno).size := by
        apply StdMap.size_lt_of_find (a := c)
        · rw [hfind, if_pos rfl]
          exact Option.some_ne_none _
        · intro v hv
          have hne : v ≠ c := by
            rintro rfl
            exact hv hin
          rw [hfind, if_neg hne]
          exact ⟨hne, hv⟩
      have hfrom' : Graph.From d.nodes (sGraph.insert c wno) := by
        intro v node hnode
        rw [hfind] at hnode
        split_ifs at hnode with hv
        · rw [hv, hwno, hnode]
        · exact hfrom v node hnode
      obtain ⟨graph', hrun, hgraph', hexp⟩ := ih.neighbors h wno.neighborNodes.keys
        (fun v hv => (mem_keys_iff_adjacent hwno).mp hv) hfrom' (by omega)
      rw [Graph.vertices_insert] at hexp
      exact ⟨graph', hrun, hgraph',
        (hexp.congr fun v => (mem_keys_iff_adjacent hwno).symm).enter⟩

/-- The nodes in reach of `c`. -/
def component (d : MapData C) (c : C) : Set C := {v | ReflTransGen (Adjacent d.nodes) c v}

/-- The graph of a component, with the nodes of the map. -/
def IsGraphOf (d : MapData C) (c : C) (graph : Graph C) : Prop :=
  graph.From d.nodes ∧ Graph.vertices graph = component d c

theorem setGraph_component (h : Joined d) {k : ℕ} {c : C} (hc : d.nodes.find c ≠ none)
    (hk : d.nodes.size < k) : ∃ sGraph, setGraph d.nodes k .empty c = some sGraph ∧
      IsGraphOf d c sGraph := by
  have hempty : Graph.From d.nodes (.empty : Graph C) := by
    intro v node hnode
    cases hnode
  obtain ⟨sGraph, hrun, hfrom, hexp⟩ := setGraph_spec h k .empty c hempty hc (by omega)
  rw [Graph.vertices_empty] at hexp
  exact ⟨sGraph, hrun, hfrom, Set.ext fun v => hexp.mem_iff⟩

/-! ## The loop over the nodes -/

/-- The same ways, through the same places. -/
def SameWays (linestrings linestrings' : StdMap String (WayInfo C)) : Prop :=
  ∀ id, (linestrings'.find id).map (fun wi => wi.nodes.map WayNode.coordinate) =
    (linestrings.find id).map (fun wi => wi.nodes.map WayNode.coordinate)

theorem SameWays.exists {linestrings linestrings' : StdMap String (WayInfo C)}
    (h : SameWays linestrings linestrings') {id : String} {wi : WayInfo C}
    (hwi : linestrings.find id = some wi) : ∃ wi', linestrings'.find id = some wi' ∧
      wi'.nodes.map WayNode.coordinate = wi.nodes.map WayNode.coordinate := by
  have := h id
  rw [hwi] at this
  exact Option.map_eq_some_iff.mp this

theorem SameWays.symm {linestrings linestrings' : StdMap String (WayInfo C)}
    (h : SameWays linestrings linestrings') : SameWays linestrings' linestrings := fun id => (h id).symm

theorem SameWays.trans {ls₁ ls₂ ls₃ : StdMap String (WayInfo C)} (h₁ : SameWays ls₁ ls₂)
    (h₂ : SameWays ls₂ ls₃) : SameWays ls₁ ls₃ := fun id => (h₂ id).trans (h₁ id)

theorem map_coordinate_putFirst (wno : WayNode C) (l : List (WayNode C)) :
    (putFirst wno l).map WayNode.coordinate = l.map WayNode.coordinate := by
  induction l with
  | nil => rfl
  | cons it3 rest ih =>
    unfold putFirst
    split_ifs with h
    · rw [List.map_cons, List.map_cons, h]
    · rw [List.map_cons, List.map_cons, ih]

theorem updateWays_spec (wno : WayNode C) (linestrings : StdMap String (WayInfo C))
    (h : ∀ id ∈ wno.wayIDs, linestrings.find id ≠ none) :
    ∃ linestrings', updateWays wno linestrings = some linestrings' ∧
      SameWays linestrings linestrings' := by
  unfold updateWays
  revert h
  generalize wno.wayIDs = ids
  intro h
  induction ids generalizing linestrings with
  | nil => exact ⟨linestrings, rfl, fun _ => rfl⟩
  | cons id ids ih =>
    obtain ⟨it2, hit2⟩ := Option.ne_none_iff_exists'.mp (h id (by simp))
    have hsame : SameWays linestrings
        (linestrings.assign id { it2 with nodes := putFirst wno it2.nodes }) := by
      intro id'
      rw [StdMap.find_assign]
      split_ifs with he
      · rw [he, hit2, Option.map_some, Option.map_some, map_coordinate_putFirst]
      · rfl
    obtain ⟨linestrings', hrun, hsame'⟩ := ih _ fun id' hid' => by
      obtain ⟨wi, hwi⟩ := Option.ne_none_iff_exists'.mp (h id' (by simp [hid']))
      obtain ⟨wi', hwi', -⟩ := hsame.exists hwi
      rw [hwi']
      exact Option.some_ne_none _
    refine ⟨linestrings', ?_, hsame.trans hsame'⟩
    rw [List.foldlM_cons, hit2]
    exact hrun

/-- The first of the crossings whose components are the largest. -/
structure FirstLargest (d : MapData C) (c : C) : Prop where
  crossing : IsCrossing d.nodes c
  largest : ∀ c', IsCrossing d.nodes c' → (component d c').ncard ≤ (component d c).ncard
  first : ∀ c' < c, IsCrossing d.nodes c' → (component d c').ncard < (component d c).ncard

/-- What `graph` is when the nodes `done` have been looked at. -/
def Surveyed (d : MapData C) (done : List C) (graph : Graph C) : Prop :=
  (graph = .empty ∧ ∀ c ∈ done, ¬ IsCrossing d.nodes c) ∨
    ∃ c ∈ done, IsCrossing d.nodes c ∧ IsGraphOf d c graph ∧ ∀ c' ∈ done, IsCrossing d.nodes c' →
      (component d c').ncard ≤ (component d c).ncard ∧
        (c' < c → (component d c').ncard < (component d c).ncard)

theorem mem_component_self (d : MapData C) (c : C) : c ∈ component d c := ReflTransGen.refl

theorem IsGraphOf.size {c : C} {graph : Graph C} (h : IsGraphOf d c graph) :
    graph.size = (component d c).ncard := by
  rw [Graph.size_eq_ncard, h.2]

theorem IsGraphOf.entries_ne_nil {c : C} {graph : Graph C} (h : IsGraphOf d c graph) :
    graph.entries ≠ [] := by
  intro hnil
  have hc : c ∈ graph.vertices := h.2 ▸ mem_component_self d c
  obtain ⟨node, hnode⟩ := Option.ne_none_iff_exists'.mp hc
  have hmem := StdMap.mem_entries.mpr hnode
  rw [hnil] at hmem
  cases hmem

/-- One more crossing, behind those that have been looked at. -/
theorem Surveyed.largerGraph {done : List C} {graph sGraph : Graph C} {c : C}
    (h : Surveyed d done graph) (hc : IsCrossing d.nodes c) (hs : IsGraphOf d c sGraph)
    (hlt : ∀ c' ∈ done, c' < c) : Surveyed d (done ++ [c]) (Ferry2.largerGraph graph sGraph) := by
  have hmem : ∀ {c'}, c' ∈ done ++ [c] → c' ∈ done ∨ c' = c := by
    intro c' hc'
    simpa using hc'
  unfold Ferry2.largerGraph
  rcases h with ⟨rfl, hnone⟩ | ⟨c₀, hc₀, hcross, hgraph, hbest⟩
  · rw [if_pos (show (.empty : Graph C).entries = [] from rfl)]
    refine .inr ⟨c, by simp, hc, hs, fun c' hc' hcross => ?_⟩
    rcases hmem hc' with hc' | rfl
    · exact absurd hcross (hnone c' hc')
    · exact ⟨le_rfl, fun hcc => absurd hcc (lt_irrefl _)⟩
  · rw [if_neg hgraph.entries_ne_nil, hgraph.size, hs.size]
    split_ifs with hsize
    · refine .inr ⟨c, by simp, hc, hs, fun c' hc' hcross => ?_⟩
      rcases hmem hc' with hc' | rfl
      · have := (hbest c' hc' hcross).1
        exact ⟨by omega, fun _ => by omega⟩
      · exact ⟨le_rfl, fun hcc => absurd hcc (lt_irrefl _)⟩
    · refine .inr ⟨c₀, by simp [hc₀], hcross, hgraph, fun c' hc' hcross' => ?_⟩
      rcases hmem hc' with hc' | rfl
      · exact hbest c' hc' hcross'
      · exact ⟨by omega, fun hcc => absurd hcc (lt_asymm (hlt c₀ hc₀))⟩

theorem Surveyed.skip {done : List C} {graph : Graph C} {c : C} (h : Surveyed d done graph)
    (hc : ¬ IsCrossing d.nodes c) : Surveyed d (done ++ [c]) graph := by
  have hmem : ∀ {c'}, c' ∈ done ++ [c] → IsCrossing d.nodes c' → c' ∈ done := by
    intro c' hc' hcross
    rcases List.mem_append.mp hc' with hc' | hc'
    · exact hc'
    · rw [List.mem_singleton.mp hc'] at hcross
      exact absurd hcross hc
  rcases h with ⟨rfl, hnone⟩ | ⟨c₀, hc₀, hcross, hgraph, hbest⟩
  · exact .inl ⟨rfl, fun c' hc' hcross => hnone c' (hmem hc' hcross) hcross⟩
  · exact .inr ⟨c₀, by simp [hc₀], hcross, hgraph,
      fun c' hc' hcross' => hbest c' (hmem hc' hcross') hcross'⟩

theorem survey_spec (h : Joined d) {k : ℕ} (hk : d.nodes.size < k) (es : List (C × WayNode C))
    (done : List C) (st : StdMap String (WayInfo C) × Graph C)
    (hes : ∀ e ∈ es, d.nodes.find e.1 = some e.2) (hsorted : es.Pairwise fun a b => a.1 < b.1)
    (hlt : ∀ c ∈ done, ∀ e ∈ es, c < e.1) (hways : SameWays d.linestrings st.1)
    (hst : Surveyed d done st.2) :
    ∃ st', es.foldlM (surveyNode k d.nodes) st = some st' ∧ SameWays d.linestrings st'.1 ∧
      Surveyed d (done ++ es.map Prod.fst) st'.2 := by
  induction es generalizing done st with
  | nil => exact ⟨st, rfl, hways, by rwa [List.map_nil, List.append_nil]⟩
  | cons e es ih =>
    obtain ⟨c, node⟩ := e
    have hnode : d.nodes.find c = some node := hes (c, node) (by simp)
    obtain ⟨hnext, hsorted⟩ := List.pairwise_cons.mp hsorted
    obtain ⟨linestrings, hupdate, hsame⟩ := updateWays_spec node st.1
      fun id hid => by
        obtain ⟨wi, hwi⟩ := Option.ne_none_iff_exists'.mp (h.known c node hnode id hid)
        obtain ⟨wi', hwi', -⟩ := hways.exists hwi
        rw [hwi']
        exact Option.some_ne_none _
    have hstep : ∃ graph, surveyNode k d.nodes st (c, node) = some (linestrings, graph) ∧
        Surveyed d (done ++ [c]) graph := by
      unfold surveyNode
      dsimp only
      rw [hupdate, Option.bind_eq_bind, Option.bind_some, h.coordinate c node hnode]
      by_cases hcross : node.isCrossing = true
      · obtain ⟨sGraph, hrun, hgraph⟩ := setGraph_component h (c := c) (k := k)
          (by rw [hnode]; exact Option.some_ne_none _) hk
        rw [if_pos hcross, hrun, Option.bind_eq_bind, Option.bind_some]
        exact ⟨_, rfl, hst.largerGraph ⟨node, hnode, hcross⟩ hgraph
          fun c' hc' => hlt c' hc' (c, node) (by simp)⟩
      · rw [if_neg hcross]
        refine ⟨_, rfl, hst.skip ?_⟩
        rintro ⟨node', hnode', hcross'⟩
        rw [hnode] at hnode'
        cases hnode'
        exact hcross hcross'
    obtain ⟨graph, hstep, hsurveyed⟩ := hstep
    obtain ⟨st', hrun, hways', hst'⟩ := ih (done ++ [c]) (linestrings, graph)
      (fun e he => hes e (by simp [he])) hsorted
      (fun c' hc' e he => by
        rcases List.mem_append.mp hc' with hc' | hc'
        · exact hlt c' hc' e (by simp [he])
        · rw [List.mem_singleton.mp hc']
          exact hnext e he)
      (hways.trans hsame) hsurveyed
    refine ⟨st', ?_, hways', ?_⟩
    · rw [List.foldlM_cons, hstep]
      exact hrun
    · rwa [List.append_assoc] at hst'

/-- The graph that is kept when all nodes have been looked at. -/
theorem survey_all (h : Joined d) {k : ℕ} (hk : d.nodes.size < k) :
    ∃ linestrings graph, d.nodes.entries.foldlM (surveyNode k d.nodes) (d.linestrings, .empty) =
        some (linestrings, graph) ∧ SameWays d.linestrings linestrings ∧
      ((graph = .empty ∧ ∀ c, ¬ IsCrossing d.nodes c) ∨
        ∃ c, FirstLargest d c ∧ IsGraphOf d c graph) := by
  obtain ⟨⟨linestrings, graph⟩, hrun, hways, hst⟩ := survey_spec h hk d.nodes.entries []
    (d.linestrings, .empty) (fun e he => StdMap.mem_entries.mp he)
    d.nodes.sorted (fun c hc => by cases hc) (fun _ => rfl) (.inl ⟨rfl, fun c hc => by cases hc⟩)
  have hall : ∀ {c}, IsCrossing d.nodes c → c ∈ [] ++ d.nodes.entries.map Prod.fst := by
    rintro c ⟨node, hnode, -⟩
    exact List.mem_map.mpr ⟨(c, node), StdMap.mem_entries.mpr hnode, rfl⟩
  refine ⟨linestrings, graph, hrun, hways, ?_⟩
  rcases hst with ⟨hempty, hnone⟩ | ⟨c, -, hcross, hgraph, hbest⟩
  · exact .inl ⟨hempty, fun c hc => hnone c (hall hc) hc⟩
  · exact .inr ⟨c, ⟨hcross, fun c' hc' => (hbest c' (hall hc') hc').1,
      fun c' hlt hc' => (hbest c' (hall hc') hc').2 hlt⟩, hgraph⟩

end Ns3.Ferry2
