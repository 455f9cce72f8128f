import Ns3.Ferry2.RoadGraph
import Mathlib.Order.Bounds.Basic

/-!
# Segments

A segment is a part of a way between two crossings without a third one in
between. The neighbours that `JSON_Data::json_input` gives two crossings are
right exactly if, of the stretches that join the two, the first is as long as
the shortest segment. Where every crossing is marked in the ways that pass it,
the stretches are the segments, and what is asked is that none between the same
two crossings is shorter than the first.
-/

namespace Ns3.Ferry2

open Ns3.Lib

variable {C : Type} [LinearOrder C] {g : Geodesic C} {d : MapData C}

/-- How long the way is that goes on through `cs`, `dist` already gone and `p` the node before. -/
def walkLength (g : Geodesic C) (p : C) (dist : ℚ) : List C → ℚ
  | [] => dist
  | c :: cs => walkLength g c (g.advance dist p c) cs

/-- A part of a way from `u` to `v`, `e` long, without a crossing in between. -/
def IsSegment (g : Geodesic C) (d : MapData C) (u v : C) (e : ℚ) : Prop :=
  ∃ id wi pre mid post, d.linestrings.find id = some wi ∧
    wi.nodes.map WayNode.coordinate = pre ++ u :: (mid ++ v :: post) ∧
    (∀ c ∈ mid, ¬ IsCrossing d.nodes c) ∧ e = walkLength g u 0 (mid ++ [v])

/-- Some segment links `u` and `v`, in the one or the other direction. -/
def Linked (g : Geodesic C) (d : MapData C) (u v : C) (e : ℚ) : Prop :=
  IsSegment g d u v e ∨ IsSegment g d v u e

/-- The crossings that segments link, and they only, are neighbours of each other, as far apart as
the shortest segment between them is long. -/
structure RightRoads (g : Geodesic C) (d : MapData C) (nodes : StdMap C (WayNode C)) : Prop where
  symmetric : ∀ u v, IsCrossing d.nodes u → IsCrossing d.nodes v →
    neighborDist nodes u v = neighborDist nodes v u
  joined : ∀ u v, IsCrossing d.nodes u → IsCrossing d.nodes v →
    (neighborDist nodes u v ≠ none ↔ ∃ e, Linked g d u v e)
  shortest : ∀ u v e, IsCrossing d.nodes u → IsCrossing d.nodes v →
    neighborDist nodes u v = some e → IsLeast {e | Linked g d u v e} e

/-- Crossings that a segment links have a stretch between them, and the first stretch between two
crossings is as long as the shortest segment. -/
def FirstIsShortest (g : Geodesic C) (d : MapData C) : Prop :=
  ∀ u v, IsCrossing d.nodes u → IsCrossing d.nodes v →
    ((∃ e, Linked g d u v e) → ∃ s ∈ d.stretches g, s.Joins u v) ∧
      ∀ pre s post, d.stretches g = pre ++ s :: post → s.Joins u v → (∀ t ∈ pre, ¬ t.Joins u v) →
        IsLeast {e | Linked g d u v e} s.length

theorem firstLength_eq_some_iff {l : List (Stretch C)} {u v : C} {e : ℚ} :
    firstLength l u v = some e ↔ ∃ pre s post, l = pre ++ s :: post ∧ s.Joins u v ∧
      (∀ t ∈ pre, ¬ t.Joins u v) ∧ s.length = e := by
  unfold firstLength
  rw [Option.map_eq_some_iff]
  constructor
  · rintro ⟨s, hs, rfl⟩
    obtain ⟨hj, pre, post, rfl, hpre⟩ := List.find?_eq_some_iff_append.mp hs
    refine ⟨pre, s, post, rfl, of_decide_eq_true hj, fun t ht => ?_, rfl⟩
    simpa using hpre t ht
  · rintro ⟨pre, s, post, rfl, hj, hpre, rfl⟩
    refine ⟨s, List.find?_eq_some_iff_append.mpr ⟨decide_eq_true hj, pre, post, rfl, ?_⟩, rfl⟩
    intro t ht
    simpa using hpre t ht

/-! ## Where every crossing is marked -/

/-- Of the nodes of a way behind its first one, those that are crossings are marked. -/
def MapData.Marked (d : MapData C) : Prop :=
  ∀ id wi wn rest, d.linestrings.find id = some wi → wi.nodes = wn :: rest →
    ∀ it ∈ rest, IsCrossing d.nodes it.coordinate → it.isCrossing = true

/-- The stretches of a way, from the node behind which it has been followed on. -/
theorem mem_cutWay_iff {nodes : StdMap C (WayNode C)} {u v wn p : C} {dist e : ℚ}
    {l : List (WayNode C)} (hu : IsCrossing nodes u) (hv : IsCrossing nodes v)
    (hmark : ∀ it ∈ l, it.isCrossing = true ↔ IsCrossing nodes it.coordinate) :
    ⟨u, v, e⟩ ∈ cutWay g wn p dist l ↔
      (u = wn ∧ ∃ mid post, l.map WayNode.coordinate = mid ++ v :: post ∧
        (∀ c ∈ mid, ¬ IsCrossing nodes c) ∧ e = walkLength g p dist (mid ++ [v])) ∨
      ∃ pre mid post, l.map WayNode.coordinate = pre ++ u :: (mid ++ v :: post) ∧
        (∀ c ∈ mid, ¬ IsCrossing nodes c) ∧ e = walkLength g u 0 (mid ++ [v]) := by
  induction l generalizing wn p dist with
  | nil => simp [cutWay]
  | cons it rest ih =>
    have hrest := fun wn p dist => @ih wn p dist fun it' hit' => hmark it' (by simp [hit'])
    unfold cutWay
    dsimp only
    rw [List.map_cons]
    split_ifs with hcut
    · -- a stretch ends here
      rw [List.mem_cons, hrest, Stretch.mk.injEq]
      constructor
      · rintro (⟨rfl, rfl, rfl⟩ | ⟨rfl, mid, post, hl, hmid, he⟩ | ⟨pre, mid, post, hl, hmid, he⟩)
        · exact .inl ⟨rfl, [], _, rfl, by simp, rfl⟩
        · exact .inr ⟨[], mid, post, by rw [hl]; rfl, hmid, he⟩
        · exact .inr ⟨it.coordinate :: pre, mid, post, by rw [hl]; rfl, hmid, he⟩
      · rintro (⟨rfl, mid, post, hl, hmid, he⟩ | ⟨pre, mid, post, hl, hmid, he⟩)
        · cases mid with
          | nil =>
            obtain ⟨hv, -⟩ := List.cons.inj hl
            refine .inl ⟨rfl, hv.symm, ?_⟩
            rw [he, ← hv]
            rfl
          | cons c mid =>
            obtain ⟨hc, hl⟩ := List.cons.inj hl
            rcases hcut with hcut | hnil
            · exact absurd ((hmark it (by simp)).mp hcut) (hc ▸ hmid c (by simp))
            · rw [hnil] at hl
              exact absurd hl (by simp)
        · cases pre with
          | nil =>
            obtain ⟨hu, hl⟩ := List.cons.inj hl
            exact .inr (.inl ⟨hu.symm, mid, post, hl, hmid, by rw [he, hu]⟩)
          | cons c pre =>
            obtain ⟨-, hl⟩ := List.cons.inj hl
            exact .inr (.inr ⟨pre, mid, post, hl, hmid, he⟩)
    · have hno : ¬ IsCrossing nodes it.coordinate :=
        fun hc => hcut (.inl ((hmark it (by simp)).mpr hc))
      rw [hrest]
      constructor
      · rintro (⟨rfl, mid, post, hl, hmid, he⟩ | ⟨pre, mid, post, hl, hmid, he⟩)
        · refine .inl ⟨rfl, it.coordinate :: mid, post, by rw [hl]; rfl, fun c hc => ?_, he⟩
          rcases List.mem_cons.mp hc with rfl | hc
          · exact hno
          · exact hmid c hc
        · exact .inr ⟨it.coordinate :: pre, mid, post, by rw [hl]; rfl, hmid, he⟩
      · rintro (⟨rfl, mid, post, hl, hmid, he⟩ | ⟨pre, mid, post, hl, hmid, he⟩)
        · cases mid with
          | nil =>
            obtain ⟨hc, -⟩ := List.cons.inj hl
            exact absurd (hc ▸ hv) hno
          | cons c mid =>
            obtain ⟨rfl, htail⟩ := List.cons.inj hl
            exact .inl ⟨rfl, mid, post, htail, fun c hc => hmid c (by simp [hc]), he⟩
        · cases pre with
          | nil =>
            obtain ⟨hc, -⟩ := List.cons.inj hl
            exact absurd (hc ▸ hu) hno
          | cons c pre =>
            obtain ⟨-, hl⟩ := List.cons.inj hl
            exact .inr ⟨pre, mid, post, hl, hmid, he⟩

/-- Between crossings the stretches are the segments. -/
theorem isSegment_iff_of_marked (h : MapRead d) (hmark : d.Marked) {u v : C} {e : ℚ}
    (hu : IsCrossing d.nodes u) (hv : IsCrossing d.nodes v) :
    IsSegment g d u v e ↔ ⟨u, v, e⟩ ∈ d.stretches g := by
  have hway : ∀ id wi, d.linestrings.find id = some wi →
      (⟨u, v, e⟩ ∈ wi.stretches g ↔ ∃ pre mid post,
        wi.nodes.map WayNode.coordinate = pre ++ u :: (mid ++ v :: post) ∧
          (∀ c ∈ mid, ¬ IsCrossing d.nodes c) ∧ e = walkLength g u 0 (mid ++ [v])) := by
    intro id wi hwi
    unfold WayInfo.stretches
    cases hnodes : wi.nodes with
    | nil => simp
    | cons wn rest =>
      dsimp only
      rw [mem_cutWay_iff hu hv fun it hit => ⟨fun hm => ?_, hmark id wi wn rest hwi hnodes it hit⟩,
        List.map_cons]
      · constructor
        · rintro (⟨rfl, mid, post, hl, hrest⟩ | ⟨pre, mid, post, hl, hrest⟩)
          · exact ⟨[], mid, post, by rw [hl]; rfl, hrest⟩
          · exact ⟨wn.coordinate :: pre, mid, post, by rw [hl]; rfl, hrest⟩
        · rintro ⟨pre, mid, post, hl, hrest⟩
          cases pre with
          | nil =>
            obtain ⟨rfl, htail⟩ := List.cons.inj hl
            exact .inl ⟨rfl, mid, post, htail, hrest⟩
          | cons c pre =>
            obtain ⟨-, hl⟩ := List.cons.inj hl
            exact .inr ⟨pre, mid, post, hl, hrest⟩
      · obtain ⟨node, hnode, -, hmarked, -⟩ := h.stored id wi hwi it (by rw [hnodes]; simp [hit])
        exact ⟨node, hnode, hmarked hm⟩
  unfold IsSegment MapData.stretches
  rw [List.mem_flatMap]
  constructor
  · rintro ⟨id, wi, pre, mid, post, hwi, hl⟩
    exact ⟨(id, wi), StdMap.mem_entries.mpr hwi, (hway id wi hwi).mpr ⟨pre, mid, post, hl⟩⟩
  · rintro ⟨⟨id, wi⟩, hwi, hs⟩
    have hwi := StdMap.mem_entries.mp hwi
    obtain ⟨pre, mid, post, hl⟩ := (hway id wi hwi).mp hs
    exact ⟨id, wi, pre, mid, post, hwi, hl⟩

/-- No stretch between two crossings may be shorter than the first. -/
theorem firstIsShortest_iff_of_marked (h : MapRead d) (hmark : d.Marked) :
    FirstIsShortest g d ↔ ∀ u v, IsCrossing d.nodes u → IsCrossing d.nodes v →
      ∀ pre s post, d.stretches g = pre ++ s :: post → s.Joins u v → (∀ t ∈ pre, ¬ t.Joins u v) →
        ∀ t ∈ post, t.Joins u v → s.length ≤ t.length := by
  have hlinked : ∀ {u v e}, IsCrossing d.nodes u → IsCrossing d.nodes v →
      (Linked g d u v e ↔ ∃ s ∈ d.stretches g, s.Joins u v ∧ s.length = e) := by
    intro u v e hu hv
    unfold Linked
    rw [isSegment_iff_of_marked h hmark hu hv, isSegment_iff_of_marked h hmark hv hu]
    constructor
    · rintro (hs | hs)
      · exact ⟨_, hs, .inl ⟨rfl, rfl⟩, rfl⟩
      · exact ⟨_, hs, .inr ⟨rfl, rfl⟩, rfl⟩
    · rintro ⟨⟨a, b, e'⟩, hs, ⟨rfl, rfl⟩ | ⟨rfl, rfl⟩, rfl⟩
      · exact .inl hs
      · exact .inr hs
  constructor
  · intro hfirst u v hu hv pre s post hl hj hpre t ht hjt
    apply ((hfirst u v hu hv).2 pre s post hl hj hpre).2
    exact (hlinked hu hv).mpr ⟨t, by rw [hl]; simp [ht], hjt, rfl⟩
  · intro hfirst u v hu hv
    refine ⟨?_, fun pre s post hl hj hpre => ⟨?_, ?_⟩⟩
    · rintro ⟨e, he⟩
      obtain ⟨s, hs, hj, -⟩ := (hlinked hu hv).mp he
      exact ⟨s, hs, hj⟩
    · exact (hlinked hu hv).mpr ⟨s, by rw [hl]; simp, hj, rfl⟩
    · rintro e he
      obtain ⟨t, ht, hjt, rfl⟩ := (hlinked hu hv).mp he
      rw [hl] at ht
      rcases List.mem_append.mp ht with ht | ht
      · exact absurd hjt (hpre t ht)
      · rcases List.mem_cons.mp ht with rfl | ht
        · exact le_rfl
        · exact hfirst u v hu hv pre s post hl hj hpre t ht hjt

/-- For every map file in which the line strings have coordinates. -/
theorem rightRoads_iff (g : Geodesic C) {features : List (Feature C)} (h : WellFormed features) :
    ∃ nodes, linkRoads g (readFeatures features) = some nodes ∧
      (RightRoads g (readFeatures features) nodes ↔ FirstIsShortest g (readFeatures features)) := by
  obtain ⟨nodes, hnodes, -, hdist⟩ := linkRoads_spec g (mapRead_readFeatures h)
  refine ⟨nodes, hnodes, fun hright u v hu hv => ⟨fun he => ?_, ?_⟩, fun hfirst => ⟨?_, ?_, ?_⟩⟩
  · have hne := (hright.joined u v hu hv).mpr he
    rw [hdist] at hne
    exact firstLength_ne_none.mp hne
  · intro pre s post hl hj hpre
    apply hright.shortest u v s.length hu hv
    rw [hdist]
    exact firstLength_eq_some_iff.mpr ⟨pre, s, post, hl, hj, hpre, rfl⟩
  · intro u v _ _
    rw [hdist, hdist, firstLength_comm]
  · intro u v hu hv
    rw [hdist]
    refine ⟨fun hne => ?_, fun he => firstLength_ne_none.mpr ((hfirst u v hu hv).1 he)⟩
    obtain ⟨e, he⟩ := Option.ne_none_iff_exists'.mp hne
    obtain ⟨pre, s, post, hl, hj, hpre, rfl⟩ := firstLength_eq_some_iff.mp he
    exact ⟨s.length, ((hfirst u v hu hv).2 pre s post hl hj hpre).1⟩
  · intro u v e hu hv he
    rw [hdist] at he
    obtain ⟨pre, s, post, hl, hj, hpre, rfl⟩ := firstLength_eq_some_iff.mp he
    exact (hfirst u v hu hv).2 pre s post hl hj hpre

/-! ## A road and a shorter one beside it -/

def sampleGeodesic : Geodesic ℕ := ⟨fun a b => |(a : ℚ) - b|, id⟩

/-- Two ways between the nodes 1 and 3, the first by way of the node 10. -/
def sampleDetour : List (Feature ℕ) :=
  [.lineString "way/1" [1, 10, 3], .lineString "way/2" [1, 3]]

theorem sampleDetour_wellFormed : WellFormed sampleDetour := by
  intro id
  simp [sampleDetour]

theorem rightRoads_iff_sample : ∃ nodes,
    linkRoads sampleGeodesic (readFeatures sampleDetour) = some nodes ∧
      (RightRoads sampleGeodesic (readFeatures sampleDetour) nodes ↔
        FirstIsShortest sampleGeodesic (readFeatures sampleDetour)) :=
  rightRoads_iff sampleGeodesic sampleDetour_wellFormed

/-- The way about is as long as 16, the direct one as long as 2. -/
theorem sampleDetour_wrong : WellFormed sampleDetour ∧ ∃ nodes,
    linkRoads sampleGeodesic (readFeatures sampleDetour) = some nodes ∧
      neighborDist nodes 1 3 = some 16 ∧ Linked sampleGeodesic (readFeatures sampleDetour) 1 3 2 ∧
        ¬ RightRoads sampleGeodesic (readFeatures sampleDetour) nodes := by
  have hrun : (linkRoads sampleGeodesic (readFeatures sampleDetour)).bind
      (fun nodes => neighborDist nodes 1 3) = some 16 := by decide +kernel
  obtain ⟨nodes, hnodes, hdist⟩ := Option.bind_eq_some_iff.mp hrun
  have hcross : ∀ c ∈ [1, 3], ((readFeatures sampleDetour).nodes.find c).map WayNode.isCrossing =
      some true := by decide +kernel
  have hcrossing : ∀ c ∈ [1, 3], IsCrossing (readFeatures sampleDetour).nodes c :=
    fun c hc => Option.map_eq_some_iff.mp (hcross c hc)
  have hlinked : Linked sampleGeodesic (readFeatures sampleDetour) 1 3 2 := by
    have hway : ((readFeatures sampleDetour).linestrings.find "way/2").map
        (fun wi => wi.nodes.map WayNode.coordinate) = some [1, 3] := by decide +kernel
    obtain ⟨wi, hwi, hcoords⟩ := Option.map_eq_some_iff.mp hway
    exact .inl ⟨"way/2", wi, [], [], [], hwi, hcoords, by simp, by decide +kernel⟩
  refine ⟨sampleDetour_wellFormed, nodes, hnodes, hdist, hlinked, fun hright => ?_⟩
  have hleast := hright.shortest 1 3 16 (hcrossing 1 (by simp)) (hcrossing 3 (by simp)) hdist
  exact absurd (hleast.2 hlinked) (by decide +kernel)

end Ns3.Ferry2
