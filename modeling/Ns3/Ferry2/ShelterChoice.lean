import Ns3.Ferry2.Evacuation
import Ns3.Ferry2.RouteSearchSpec
import Mathlib.Tactic.Linarith

/-!
# The shelter a search chooses

The loop over the shelters a user knows ends the whole search at the first one
that was not settled, so that a shelter out of reach keeps the user from the
others. With all known shelters within reach it takes the first of the nearest
of those that have places left and are not in the set of full ones.
-/

namespace Ns3.Ferry2

open Ns3.Lib

variable {C : Type} [LinearOrder C] [Zero C]

/-- An entry of the list of shelters: its number, its capacity and its places left. -/
abbrev KnownExit := UInt32 × (UInt32 × UInt32)

def KnownExit.id (e : KnownExit) : String := nodeID e.1.toNat

/-- A shelter the loop may choose. -/
def Eligible (full : StdSet String) (e : KnownExit) : Prop :=
  e.2.2 ≠ 0 ∧ full.contains e.id = false

instance (full : StdSet String) (e : KnownExit) : Decidable (Eligible full e) :=
  inferInstanceAs (Decidable (_ ∧ _))

/-- The distance and the position of a settled shelter. -/
def shelterAt (m : RoadMap C) (nodes : StdMap C (DijkstraInfo C)) (e : KnownExit) :
    Option (ℚ × C) := do
  let pos ← m.idToCoordinate.find e.id
  let info ← nodes.find pos
  return (info.dst, pos)

def candidates (m : RoadMap C) (nodes : StdMap C (DijkstraInfo C)) (full : StdSet String)
    (es : List KnownExit) : List (ℚ × C) :=
  (es.filter fun e => decide (Eligible full e)).filterMap (shelterAt m nodes)

variable {m : RoadMap C} {nodes : StdMap C (DijkstraInfo C)} {full : StdSet String}
  {es : List KnownExit} {best t : ℚ × C}

theorem shelterAt_eq_some {e : KnownExit} :
    shelterAt m nodes e = some t ↔
      m.idToCoordinate.find e.id = some t.2 ∧ ∃ info, nodes.find t.2 = some info ∧ info.dst = t.1 := by
  unfold shelterAt
  constructor
  · intro h
    obtain ⟨pos, hpos, h⟩ := Option.bind_eq_some_iff.mp h
    obtain ⟨info, hinfo, h⟩ := Option.bind_eq_some_iff.mp h
    cases h
    exact ⟨hpos, info, hinfo, rfl⟩
  · rintro ⟨hpos, info, hinfo, hdst⟩
    rw [hpos, Option.bind_eq_bind, Option.bind_some, hinfo, Option.bind_eq_bind, Option.bind_some,
      hdst]
    rfl

/-- The loop over shelters that are all settled. -/
theorem chooseShelter_eq (h : ∀ e ∈ es, shelterAt m nodes e ≠ none) (best : ℚ × C) :
    chooseShelter m nodes full es best =
      some (some ((candidates m nodes full es).foldl nearer best)) := by
  induction es generalizing best with
  | nil => rfl
  | cons e es ih =>
    obtain ⟨⟨d, pos⟩, hc⟩ := Option.ne_none_iff_exists'.mp (h e (by simp))
    obtain ⟨hpos, info, hinfo, hdst⟩ := shelterAt_eq_some.mp hc
    cases hdst
    have hpos' : m.idToCoordinate.find (nodeID e.1.toNat) = some pos := hpos
    have hinfo' : nodes.find pos = some info := hinfo
    rw [chooseShelter, hpos', Option.bind_eq_bind, Option.bind_some, hinfo']
    dsimp only
    rw [ih fun a ha => h a (List.mem_cons_of_mem e ha)]
    refine congrArg (fun r => some (some r)) ?_
    unfold candidates
    by_cases he : Eligible full e
    · rw [List.filter_cons_of_pos (by simpa using he), List.filterMap_cons_some hc, List.foldl_cons]
      obtain ⟨hroom, hfull⟩ := id he
      have hfull' : full.contains (nodeID e.1.toNat) = false := hfull
      have hnext : (if info.dst < best.1 ∧ e.2.2 ≠ 0 ∧ !full.contains (nodeID e.1.toNat) then
          (info.dst, pos) else best) = nearer best (info.dst, pos) := by
        unfold nearer
        simp only [hroom, hfull', ne_eq, not_false_eq_true, Bool.not_false, and_self, and_true]
      rw [hnext]
    · rw [List.filter_cons_of_neg (by simpa using he), if_neg]
      rintro ⟨-, hroom, hfull⟩
      refine he ⟨hroom, ?_⟩
      rw [Bool.not_eq_true'] at hfull
      exact hfull

/-- A loop that runs to its end has found every shelter settled. -/
theorem settled_of_chooseShelter (h : chooseShelter m nodes full es best = some (some t)) :
    ∀ e ∈ es, shelterAt m nodes e ≠ none := by
  induction es generalizing best with
  | nil => exact fun e he => absurd he (by simp)
  | cons e es ih =>
    rw [chooseShelter] at h
    obtain ⟨pos, hpos, h⟩ := Option.bind_eq_some_iff.mp h
    cases hinfo : nodes.find pos with
    | none =>
      rw [hinfo] at h
      cases h
    | some info =>
      rw [hinfo] at h
      intro a ha
      rcases List.mem_cons.mp ha with rfl | ha
      · have hat : shelterAt m nodes a = some (info.dst, pos) :=
          shelterAt_eq_some.mpr ⟨hpos, info, hinfo, rfl⟩
        rw [hat]
        exact Option.some_ne_none _
      · exact ih h a ha

theorem mem_candidates : t ∈ candidates m nodes full es ↔
    ∃ e ∈ es, Eligible full e ∧ shelterAt m nodes e = some t := by
  unfold candidates
  simp only [List.mem_filterMap, List.mem_filter, decide_eq_true_eq]
  constructor
  · rintro ⟨e, ⟨he, hel⟩, ht⟩
    exact ⟨e, he, hel, ht⟩
  · rintro ⟨e, he, hel, ht⟩
    exact ⟨e, ⟨he, hel⟩, ht⟩

/-! ## After a search -/

section Search

variable {g : Graph C} {no : C} {s : SearchState C} {exits : StdMap UInt32 (UInt32 × UInt32)}

/-- What a search has settled is what is nearer than `INF`. -/
theorem shelterAt_settled (h : Searching m g no s) (hpos : g.Nonneg)
    (hleft : ∀ v, ¬ s.Done v → inf ≤ s.label v) {e : KnownExit} :
    shelterAt m s.nodes e = some t ↔
      m.idToCoordinate.find e.id = some t.2 ∧ IsDist g.edge no t.2 t.1 ∧ t.1 < inf := by
  rw [shelterAt_eq_some]
  refine and_congr_right fun _ => ?_
  constructor
  · rintro ⟨info, hinfo, hdst⟩
    have hlabel := SearchState.label_of_info (SearchState.info_of_nodes hinfo)
    have hsettled := h.labelled.settled t.2 ⟨info, hinfo⟩
    rw [hlabel, hdst] at hsettled
    exact ⟨hsettled, hdst ▸ h.near t.2 info hinfo⟩
  · rintro ⟨hdist, hlt⟩
    obtain ⟨⟨info, hinfo⟩, hlabel⟩ := h.labelled.dist_eq hpos hleft hdist hlt
    rw [SearchState.label_of_info (SearchState.info_of_nodes hinfo)] at hlabel
    exact ⟨info, hinfo, hlabel⟩

/-- The target of a search is none, or the first of the nearest shelters that are eligible. -/
theorem searchTarget_eq_some (h : searchTarget m exits full s = some (some t)) :
    (t = (inf, 0) ∧ ∀ c ∈ candidates m s.nodes full exits.entries, inf ≤ c.1) ∨
      t ∈ candidates m s.nodes full exits.entries ∧ t.1 < inf ∧
        ∀ c ∈ candidates m s.nodes full exits.entries, t.1 ≤ c.1 := by
  unfold searchTarget at h
  have hfound := settled_of_chooseShelter h
  rw [chooseShelter_eq hfound] at h
  cases h
  rcases foldl_nearer (candidates m s.nodes full exits.entries) (inf, 0) with
    ⟨hbest, hle⟩ | ⟨l₁, c, l₂, hsplit, hbest, hlt, h₁, h₂⟩
  · exact .inl ⟨hbest, hle⟩
  · rw [hbest]
    refine .inr ⟨?_, hlt, fun a ha => ?_⟩
    · rw [hsplit]
      exact List.mem_append_right _ (by simp)
    · rw [hsplit] at ha
      rcases List.mem_append.mp ha with ha | ha
      · exact (h₁ a ha).le
      · rcases List.mem_cons.mp ha with rfl | ha
        · exact le_rfl
        · exact h₂ a ha

/-- A search from a crossing of the user's graph comes to an end. Everything nearer than `INF` has
its distance and a shortest route, and the table of remaining distances has the length of the rest
of the chosen route for every crossing on it but the start, which has no entry. -/
theorem search_shortest (hrnd : ∀ q, m.rnd q = q) (hmap : g.OnMap m) (hpos : g.Nonneg)
    (hno : g.find no ≠ none) :
    ∃ s, (∀ k, g.size ≤ k → settle m g k (.start g no) = some s) ∧
      (∀ v d, IsDist g.edge no v d → d < inf → ∃ info, s.nodes.find v = some info ∧
        info.dst = d ∧ PathTo g.edge no (info.route ++ [v]) v d) ∧
      ∀ exits full target info, searchTarget m exits full s = some (some target) →
        s.nodes.find target.2 = some info →
        ∃ table, remainingDistances m target.1 s.exitDistanceMap (info.route ++ [target.2]) =
            some table ∧
          ∀ pre x post id, info.route ++ [target.2] = pre ++ x :: post →
            m.getIDfromCoordinate x = some id →
            if x = no then table.find id = none
            else ∃ d, table.find id = some d ∧ PathTo g.edge x (x :: post) target.2 d := by
  obtain ⟨s, hs, h, hleft⟩ := settleFrom_spec hrnd hmap hpos hno
  have hsettled : ∀ v i, s.nodes.find v = some i → IsDist g.edge no v i.dst ∧
      PathTo g.edge no (i.route ++ [v]) v i.dst := by
    intro v i hi
    have hinfo := SearchState.info_of_nodes hi
    have hdist := h.labelled.settled v ⟨i, hi⟩
    rw [SearchState.label_of_info hinfo] at hdist
    exact ⟨hdist, h.recorded v i hinfo (h.near v i hi)⟩
  refine ⟨s, hs, fun v d hd hlt => ?_, fun exits full target info htarget hinfo => ?_⟩
  · obtain ⟨⟨i, hi⟩, -⟩ := h.labelled.dist_eq hpos hleft hd hlt
    have heq : i.dst = d := (hsettled v i hi).1.unique hd
    exact ⟨i, hi, heq, heq ▸ (hsettled v i hi).2⟩
  · obtain ⟨hdist, hpath⟩ := hsettled target.2 info hinfo
    -- a target with a distance is one of the shelters
    have hdst : target.1 = info.dst := by
      rcases searchTarget_eq_some htarget with ⟨rfl, -⟩ | ⟨hmem, -⟩
      · obtain ⟨node, hnode⟩ := (h.keys 0).mpr ⟨info, SearchState.info_of_nodes hinfo⟩
        obtain ⟨id, hid, -⟩ := hmap 0 node hnode
        rw [RoadMap.getIDfromCoordinate_zero] at hid
        cases hid
      · obtain ⟨e, -, -, hat⟩ := mem_candidates.mp hmem
        obtain ⟨-, i, hi, hid⟩ := shelterAt_eq_some.mp hat
        rw [hinfo] at hi
        cases hi
        exact hid.symm
    -- what is on the route is nearer than the target
    have hon : ∀ pre x post, info.route ++ [target.2] = pre ++ x :: post →
        ∃ d₂, PathTo g.edge x (x :: post) target.2 d₂ ∧ s.label x = info.dst - d₂ ∧
          s.label x < inf ∧ ∃ node, g.find x = some node := by
      intro pre x post hsplit
      rw [hsplit] at hpath
      obtain ⟨d₁, d₂, hx, hrest, hsum⟩ := hdist.split hpath
      have hd₂ := hrest.nonneg hpos
      have hlt : d₁ < inf := by
        have := h.near target.2 info hinfo
        linarith
      obtain ⟨⟨i, hi⟩, hlabel⟩ := h.labelled.dist_eq hpos hleft hx hlt
      refine ⟨d₂, hrest, ?_, hlabel ▸ hlt, (h.keys x).mpr ⟨i, SearchState.info_of_nodes hi⟩⟩
      rw [hlabel, hsum]
      ring
    obtain ⟨table, htable, hfind⟩ := remainingDistances_spec hrnd target.1 s.exitDistanceMap
      (info.route ++ [target.2]) fun x hx => by
        obtain ⟨pre, post, hsplit⟩ := List.append_of_mem hx
        obtain ⟨-, -, -, -, node, hnode⟩ := hon pre x post hsplit
        obtain ⟨id, hid, -⟩ := hmap x node hnode
        exact ⟨id, hid⟩
    refine ⟨table, htable, fun pre x post id hsplit hid => ?_⟩
    obtain ⟨d₂, hrest, hlabel, hlt, node, hnode⟩ := hon pre x post hsplit
    have hx : x ∈ info.route ++ [target.2] := by
      rw [hsplit]
      exact List.mem_append_right _ (by simp)
    obtain ⟨id', hid', hback⟩ := hmap x node hnode
    rw [hid] at hid'
    cases hid'
    have hentry := hfind x hx id hid
    rw [h.noted x id hid hback] at hentry
    split_ifs with hstart
    · rw [hentry, if_pos (.inl hstart), Option.map_none]
    · rw [if_neg (not_or.mpr ⟨hstart, not_le.mpr hlt⟩), Option.map_some, hlabel, hdst] at hentry
      refine ⟨d₂, ?_, hrest⟩
      rw [hentry]
      congr 1
      ring

/-- A shelter that is reached on the roads of the graph. -/
def ReachedBy (m : RoadMap C) (g : Graph C) (no : C) (e : KnownExit) (pos : C) (d : ℚ) : Prop :=
  m.idToCoordinate.find e.id = some pos ∧ ∃ p, PathTo g.edge no p pos d

/-- The target is an eligible shelter, and no eligible one is nearer. -/
def TargetsNearest (m : RoadMap C) (g : Graph C) (no : C) (full : StdSet String)
    (exits : StdMap UInt32 (UInt32 × UInt32)) (s : SearchState C) : Prop :=
  ∃ e ∈ exits.entries, ∃ pos d, Eligible full e ∧ ReachedBy m g no e pos d ∧
    searchTarget m exits full s = some (some (d, pos)) ∧
      ∀ e' ∈ exits.entries, ∀ pos' d', Eligible full e' → ReachedBy m g no e' pos' d' → d ≤ d'

/-- With an eligible shelter within reach, a search finds a nearest one exactly if every shelter
the user knows is nearer than `INF`. -/
theorem targetsNearest_iff (hrnd : ∀ q, m.rnd q = q) (hmap : g.OnMap m) (hpos : g.Nonneg)
    (hs : settleFrom m g no = some s) (hno : g.find no ≠ none)
    (hsome : ∃ e ∈ exits.entries, ∃ pos d, Eligible full e ∧ ReachedBy m g no e pos d) :
    TargetsNearest m g no full exits s ↔ ∀ e ∈ exits.entries, ∃ pos d,
      m.idToCoordinate.find (KnownExit.id e) = some pos ∧ IsDist g.edge no pos d ∧ d < inf := by
  obtain ⟨s', hs', h, hleft⟩ := settleFrom_spec hrnd hmap hpos hno
  have hsame : settleFrom m g no = some s' := hs' g.size le_rfl
  rw [hs] at hsame
  cases hsame
  constructor
  · rintro ⟨e, -, pos, d, -, -, htarget, -⟩ e' he'
    obtain ⟨c, hc⟩ := Option.ne_none_iff_exists'.mp (settled_of_chooseShelter htarget e' he')
    exact ⟨c.2, c.1, (shelterAt_settled h hpos hleft).mp hc⟩
  · intro hall
    have hfound : ∀ e ∈ exits.entries, shelterAt m s.nodes e ≠ none := by
      intro e he
      obtain ⟨pos, d, hat⟩ := hall e he
      rw [(shelterAt_settled (t := (d, pos)) h hpos hleft).mpr hat]
      exact Option.some_ne_none _
    -- every eligible shelter is a candidate, with its distance
    have hcand : ∀ e ∈ exits.entries, ∀ pos d, Eligible full e → ReachedBy m g no e pos d →
        ∃ c ∈ candidates m s.nodes full exits.entries, c.1 ≤ d ∧ c.1 < inf := by
      rintro e he pos d hel ⟨hid, p, hp⟩
      obtain ⟨pos', d', hid', hdist, hlt⟩ := hall e he
      rw [hid] at hid'
      cases hid'
      exact ⟨(d', pos), mem_candidates.mpr ⟨e, he, hel,
        (shelterAt_settled h hpos hleft).mpr ⟨hid, hdist, hlt⟩⟩, hdist.2 p d hp, hlt⟩
    have htarget : searchTarget m exits full s = some (some _) := chooseShelter_eq hfound (inf, 0)
    rcases searchTarget_eq_some htarget with ⟨-, hfar⟩ | ⟨hmem, -, hleast⟩
    · obtain ⟨e, he, pos, d, hel, hat⟩ := hsome
      obtain ⟨c, hc, -, hlt⟩ := hcand e he pos d hel hat
      exact absurd (hfar c hc) (not_le.mpr hlt)
    · obtain ⟨e, he, hel, hat⟩ := mem_candidates.mp hmem
      obtain ⟨hid, ⟨hpath, -⟩, -⟩ := (shelterAt_settled h hpos hleft).mp hat
      refine ⟨e, he, _, _, hel, ⟨hid, hpath⟩, htarget, fun e' he' pos' d' hel' hat' => ?_⟩
      obtain ⟨c, hc, hle, -⟩ := hcand e' he' pos' d' hel' hat'
      exact (hleast c hc).trans hle

end Search

/-! ## In the small town -/

theorem sampleRoads_nonneg : sampleRoads.Nonneg := by
  intro u v w h
  obtain ⟨node, -, hu, -, hw⟩ := Graph.find_of_edge h
  have hall : ∀ e ∈ sampleRoads.entries, ∀ x ∈ e.2.neighborNodes.entries, 0 ≤ x.2 := by decide
  exact hall (u, node) (StdMap.mem_entries.mpr hu) (v, w) (StdMap.mem_entries.mpr hw)

theorem search_shortest_sample : ∃ s, settleFrom sampleTown sampleRoads 1 = some s ∧
    ∀ v d, IsDist sampleRoads.edge 1 v d → d < inf → ∃ info, s.nodes.find v = some info ∧
      info.dst = d := by
  obtain ⟨s, hs, hdist, -⟩ := search_shortest (m := sampleTown) (fun _ => rfl) sampleRoads_onMap
    sampleRoads_nonneg (by decide : sampleRoads.find 1 ≠ none)
  refine ⟨s, hs _ le_rfl, fun v d hd hlt => ?_⟩
  obtain ⟨info, hinfo, hdst, -⟩ := hdist v d hd hlt
  exact ⟨info, hinfo, hdst⟩

/-- What a search from the crossing leaves: the route, and the table at its two ends. -/
def sampleSearch (m : RoadMap ℕ) : Option (List ℕ × Option ℚ × Option ℚ) := do
  let s ← settleFrom m sampleRoads 1
  let target ← searchTarget m sampleExits .empty s
  let target ← target
  let info ← s.nodes.find target.2
  let table ← remainingDistances m target.1 s.exitDistanceMap (info.route ++ [target.2])
  return (info.route ++ [target.2], table.find (nodeID 1), table.find (nodeID 2))

/-- The route leads to a crossing that is blocked, and the start has no remaining distance. -/
theorem blocked_on_route : sampleSearch (sampleTown.setBlocked 2 true) = some ([1, 2], none, some 0) ∧
    ((sampleTown.setBlocked 2 true).nodes.find 2).map WayNode.isBlocked = some true ∧
      PathTo sampleRoads.edge 1 [1, 2] 2 10 := by
  refine ⟨by decide +kernel, by decide +kernel, ?_⟩
  have hedge : sampleRoads.edge 1 2 = some 10 := by decide +kernel
  have hpath := (PathTo.start (G := sampleRoads.edge) (s := 1)).step hedge
  rwa [zero_add] at hpath

/-- The two shelters of the town, for a user at the crossing. -/
theorem targetsNearest_iff_sample : ∃ s, settleFrom sampleTown sampleRoads 1 = some s ∧
    (TargetsNearest sampleTown sampleRoads 1 .empty sampleExits s ↔
      ∀ e ∈ sampleExits.entries, ∃ pos d, sampleTown.idToCoordinate.find (KnownExit.id e) = some pos ∧
        IsDist sampleRoads.edge 1 pos d ∧ d < inf) := by
  obtain ⟨s, hs, -⟩ := settleFrom_spec (m := sampleTown) (fun _ => rfl) sampleRoads_onMap
    sampleRoads_nonneg (by decide : sampleRoads.find 1 ≠ none)
  have hedge : sampleRoads.edge 1 2 = some 10 := by decide +kernel
  refine ⟨s, hs _ le_rfl, targetsNearest_iff (fun _ => rfl) sampleRoads_onMap sampleRoads_nonneg
    (hs _ le_rfl) (by decide) ⟨(2, (1, 1)), by decide, 2, _, by decide, by decide +kernel, [1, 2],
      PathTo.start.step hedge⟩⟩

/-- With the farther shelter cut off, the search ends without a target. -/
theorem unreachable_ends_search : ∃ s, settleFrom sampleTown (sampleRoads.erase 3) 1 = some s ∧
    (2, (1, 1)) ∈ sampleExits.entries ∧ Eligible .empty (2, (1, 1)) ∧
      (∃ d, ReachedBy sampleTown (sampleRoads.erase 3) 1 (2, (1, 1)) 2 d) ∧
        searchTarget sampleTown sampleExits .empty s = some none ∧
          ¬ TargetsNearest sampleTown (sampleRoads.erase 3) 1 .empty sampleExits s := by
  have hsearch : (settleFrom sampleTown (sampleRoads.erase 3) 1).bind
      (fun s => (searchTarget sampleTown sampleExits .empty s).map Option.isNone) = some true := by
    decide +kernel
  obtain ⟨s, hs, h⟩ := Option.bind_eq_some_iff.mp hsearch
  obtain ⟨target, htarget, hnone⟩ := Option.map_eq_some_iff.mp h
  rw [Option.isNone_iff_eq_none] at hnone
  subst hnone
  have hedge : Graph.edge (sampleRoads.erase 3) 1 2 = some 10 := by decide +kernel
  refine ⟨s, hs, by decide, by decide, ⟨_, by decide +kernel, [1, 2], PathTo.start.step hedge⟩,
    htarget, ?_⟩
  rintro ⟨e, -, pos, d, -, -, hsome, -⟩
  rw [htarget] at hsome
  cases hsome

end Ns3.Ferry2
