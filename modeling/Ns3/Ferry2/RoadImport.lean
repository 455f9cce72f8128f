import Ns3.Ferry2.RoadMap

/-!
# Reading the road map

What `JSON_Data::json_input` (`json_data.cc`) makes of the features of a map
file: the nodes, and the ways with their own copies of them. A node that is come
upon again is a crossing from then on, and its copies in the ways that are
stored already are replaced. The copy in the way just being read stays as it is.
-/

namespace Ns3.Ferry2

open Ns3.Lib

variable {C : Type} [LinearOrder C]

/-- What `json_input` reads of a feature. -/
inductive Feature (C : Type) where
  | point (coordinates : C)
  | lineString (id : String) (coordinates : List C)
  | other

/-- The `nodes` and `linestrings` of `JSON_Data`. -/
structure MapData (C : Type) [LinearOrder C] where
  nodes : StdMap C (WayNode C)
  linestrings : StdMap String (WayInfo C)

/-- A `way_node` with nothing but a coordinate and the ways it is on. -/
def WayNode.fresh (coordinate : C) (wayIDs : List String) : WayNode C :=
  ⟨coordinate, wayIDs, "", false, false, .empty⟩

/-- `swap_wnl`. -/
def WayInfo.putCopy (wn : WayNode C) (wi : WayInfo C) : WayInfo C :=
  { wi with nodes := wi.nodes.map fun it => if it.coordinate = wn.coordinate then wn else it }

/-- The loop over `wn_ID_list`. -/
def refreshCopies (wn : WayNode C) (linestrings : StdMap String (WayInfo C)) :
    StdMap String (WayInfo C) :=
  wn.wayIDs.foldl (fun linestrings id =>
    match linestrings.find id with
    | some wi => linestrings.assign id (wi.putCopy wn)
    | none => linestrings) linestrings

/-- The body of the loop over the coordinates of a line string; `st.2` is the list of `wi`. -/
def readCoordinate (id : String) (st : MapData C × List (WayNode C)) (coord : C) :
    MapData C × List (WayNode C) :=
  match st.1.nodes.find coord with
  | some it =>
    let wn := { it with wayIDs := it.wayIDs ++ [id], isCrossing := true }
    (⟨(st.1.nodes.erase coord).insert wn.coordinate wn, refreshCopies wn st.1.linestrings⟩,
      st.2 ++ [wn])
  | none =>
    let wn := WayNode.fresh coord [id]
    (⟨st.1.nodes.insert coord wn, st.1.linestrings⟩, st.2 ++ [wn])

/-- The body of the loop over the features. -/
def readFeature (d : MapData C) : Feature C → MapData C
  | .point coord => { d with nodes := d.nodes.insert coord (.fresh coord []) }
  | .lineString id coords =>
    let st := coords.foldl (readCoordinate id) (d, [])
    { st.1 with linestrings := st.1.linestrings.insert id ⟨id, st.2⟩ }
  | .other => d

def readFeatures (features : List (Feature C)) : MapData C :=
  features.foldl readFeature ⟨.empty, .empty⟩

/-- Whether the node at `c` is a crossing. -/
def IsCrossing (nodes : StdMap C (WayNode C)) (c : C) : Prop :=
  ∃ node, nodes.find c = some node ∧ node.isCrossing = true

/-! ## What holds of a map that is read -/

theorem WayInfo.mem_putCopy {wn a : WayNode C} {wi : WayInfo C} :
    a ∈ (wi.putCopy wn).nodes ↔ ∃ b ∈ wi.nodes,
      a = if b.coordinate = wn.coordinate then wn else b := by
  unfold WayInfo.putCopy
  rw [List.mem_map]
  exact exists_congr fun b => and_congr_right fun _ => eq_comm

theorem WayInfo.putCopy_putCopy (wn : WayNode C) (wi : WayInfo C) :
    (wi.putCopy wn).putCopy wn = wi.putCopy wn := by
  unfold WayInfo.putCopy
  simp only [List.map_map, WayInfo.mk.injEq, true_and]
  refine List.map_congr_left fun it _ => ?_
  simp only [Function.comp_apply]
  split_ifs <;> rfl

theorem WayInfo.putCopy_of_not_mem {wn : WayNode C} {wi : WayInfo C}
    (h : ∀ it ∈ wi.nodes, it.coordinate ≠ wn.coordinate) : wi.putCopy wn = wi := by
  have hmap : wi.nodes.map (fun it => if it.coordinate = wn.coordinate then wn else it) =
      wi.nodes := by
    conv_rhs => rw [← List.map_id wi.nodes]
    exact List.map_congr_left fun it hit => if_neg (h it hit)
  unfold WayInfo.putCopy
  rw [hmap]

theorem find_refreshCopies (wn : WayNode C) (linestrings : StdMap String (WayInfo C)) (id : String) :
    (refreshCopies wn linestrings).find id = (linestrings.find id).map fun wi =>
      if id ∈ wn.wayIDs then wi.putCopy wn else wi := by
  unfold refreshCopies
  induction wn.wayIDs generalizing linestrings with
  | nil => simp
  | cons id' ids ih =>
    rw [List.foldl_cons, ih]
    cases hw : linestrings.find id' with
    | none =>
      by_cases he : id = id'
      · subst he
        simp [hw]
      · simp [he]
    | some wi =>
      by_cases he : id = id'
      · subst he
        simp [hw, WayInfo.putCopy_putCopy]
      · simp [StdMap.find_assign, he]

/-- The nodes `l` of the way `id` are on the map, and the way is among theirs. What is marked as a
crossing is one, and each of them that is a crossing has a copy in the way that is marked. -/
def WayRead (nodes : StdMap C (WayNode C)) (id : String) (l : List (WayNode C)) : Prop :=
  ∀ it ∈ l, ∃ node, nodes.find it.coordinate = some node ∧ id ∈ node.wayIDs ∧
    (it.isCrossing = true → node.isCrossing = true) ∧
    (node.isCrossing = true → ∃ it' ∈ l, it'.coordinate = it.coordinate ∧ it'.isCrossing = true)

/-- The map while the line string `id` is read, with the nodes `l` of it. -/
structure Reading (id : String) (d : MapData C) (l : List (WayNode C)) : Prop where
  coordinate : ∀ c node, d.nodes.find c = some node → node.coordinate = c
  unlinked : ∀ c node, d.nodes.find c = some node → node.neighborNodes = .empty
  known : ∀ c node, d.nodes.find c = some node → ∀ id' ∈ node.wayIDs,
    id' = id ∨ ∃ wi, d.linestrings.find id' = some wi
  nonempty : ∀ id' wi, d.linestrings.find id' = some wi → wi.nodes ≠ []
  stored : ∀ id' wi, d.linestrings.find id' = some wi → WayRead d.nodes id' wi.nodes
  current : WayRead d.nodes id l
  shared : ∀ id₁ id₂ w₁ w₂, d.linestrings.find id₁ = some w₁ → d.linestrings.find id₂ = some w₂ →
    id₁ ≠ id₂ → ∀ a ∈ w₁.nodes, ∀ b ∈ w₂.nodes, a.coordinate = b.coordinate →
      IsCrossing d.nodes a.coordinate
  crossed : ∀ id' wi, d.linestrings.find id' = some wi → ∀ a ∈ wi.nodes, ∀ b ∈ l,
    a.coordinate = b.coordinate → IsCrossing d.nodes a.coordinate

namespace Reading

variable {id : String} {d : MapData C} {l : List (WayNode C)}
  {linestrings : StdMap String (WayInfo C)}

/-- One more node: it takes the place of the one that was there, and of its copies. -/
theorem assign (h : Reading id d l) (wn : WayNode C)
    (hnew : wn.neighborNodes = .empty)
    (hids : ∀ id', id' ∈ wn.wayIDs ↔
      id' = id ∨ ∃ it, d.nodes.find wn.coordinate = some it ∧ id' ∈ it.wayIDs)
    (hcross : wn.isCrossing = true ↔ d.nodes.find wn.coordinate ≠ none)
    (hls : ∀ id', linestrings.find id' = (d.linestrings.find id').map (WayInfo.putCopy wn)) :
    Reading id ⟨d.nodes.assign wn.coordinate wn, linestrings⟩ (l ++ [wn]) := by
  have hfind : ∀ c, (d.nodes.assign wn.coordinate wn).find c =
      if c = wn.coordinate then some wn else d.nodes.find c := fun c => StdMap.find_assign ..
  have hself : (d.nodes.assign wn.coordinate wn).find wn.coordinate = some wn := by
    rw [hfind, if_pos rfl]
  have hmono : ∀ c, IsCrossing d.nodes c → IsCrossing (d.nodes.assign wn.coordinate wn) c := by
    rintro c ⟨node, hnode, hc⟩
    by_cases he : c = wn.coordinate
    · subst he
      exact ⟨wn, hself, hcross.mpr (by rw [hnode]; exact Option.some_ne_none _)⟩
    · exact ⟨node, by rw [hfind, if_neg he, hnode], hc⟩
  have hway : ∀ {id' wi}, linestrings.find id' = some wi →
      ∃ wi', d.linestrings.find id' = some wi' ∧ wi = wi'.putCopy wn := by
    intro id' wi hwi
    rw [hls] at hwi
    obtain ⟨wi', hwi', he⟩ := Option.map_eq_some_iff.mp hwi
    exact ⟨wi', hwi', he.symm⟩
  have hcoord : ∀ {a b : WayNode C}, (a = if b.coordinate = wn.coordinate then wn else b) →
      a.coordinate = b.coordinate := by
    intro a b he
    split_ifs at he with hb
    · rw [he, hb]
    · rw [he]
  -- a node that is on the map has a copy in the stored ways that is replaced with it
  have hwn : ∀ {id' it}, d.nodes.find wn.coordinate = some it → id' ∈ it.wayIDs →
      id' ∈ wn.wayIDs := fun hit hid => (hids _).mpr (.inr ⟨_, hit, hid⟩)
  refine ⟨fun c node hnode => ?_, fun c node hnode => ?_, fun c node hnode id' hid' => ?_,
    fun id' wi hwi => ?_, fun id' wi hwi a ha => ?_, fun it hit => ?_,
    fun id₁ id₂ w₁ w₂ hw₁ hw₂ hne a ha b hb hab => ?_, fun id' wi hwi a ha b hb hab => ?_⟩
  · rw [hfind] at hnode
    split_ifs at hnode with he
    · cases hnode
      exact he.symm
    · exact h.coordinate c node hnode
  · rw [hfind] at hnode
    split_ifs at hnode
    · cases hnode
      exact hnew
    · exact h.unlinked c node hnode
  · have hold : ∀ {node' : WayNode C} {c'}, d.nodes.find c' = some node' → id' ∈ node'.wayIDs →
        id' = id ∨ ∃ wi, linestrings.find id' = some wi := by
      intro node' c' hnode' hmem
      refine (h.known c' node' hnode' id' hmem).imp_right ?_
      rintro ⟨wi, hwi⟩
      exact ⟨wi.putCopy wn, by rw [hls, hwi]; rfl⟩
    rw [hfind] at hnode
    split_ifs at hnode
    · cases hnode
      rcases (hids id').mp hid' with rfl | ⟨it, hit, hmem⟩
      · exact .inl rfl
      · exact hold hit hmem
    · exact hold hnode hid'
  · obtain ⟨wi', hwi', rfl⟩ := hway hwi
    have := h.nonempty id' wi' hwi'
    unfold WayInfo.putCopy
    exact fun he => this (List.map_eq_nil_iff.mp he)
  · obtain ⟨wi', hwi', rfl⟩ := hway hwi
    obtain ⟨b, hb, ha⟩ := WayInfo.mem_putCopy.mp ha
    obtain ⟨node, hnode, hmem, hmarked, hcopy⟩ := h.stored id' wi' hwi' b hb
    rw [hcoord ha]
    by_cases he : b.coordinate = wn.coordinate
    · rw [if_pos he] at ha
      rw [he] at hnode ⊢
      refine ⟨wn, hself, hwn hnode hmem, fun hc => ha ▸ hc, fun hc => ⟨wn, ?_, rfl, hc⟩⟩
      exact WayInfo.mem_putCopy.mpr ⟨b, hb, (if_pos he).symm⟩
    · rw [if_neg he] at ha
      refine ⟨node, by rw [hfind, if_neg he, hnode], hmem, ha ▸ hmarked, fun hc => ?_⟩
      obtain ⟨it', hit', hc', hmark⟩ := hcopy hc
      refine ⟨it', WayInfo.mem_putCopy.mpr ⟨it', hit', (if_neg ?_).symm⟩, hc', hmark⟩
      rw [hc']
      exact he
  · by_cases he : it.coordinate = wn.coordinate
    · rw [he]
      refine ⟨wn, hself, (hids id).mpr (.inl rfl), fun hc => ?_, fun hc => ⟨wn, by simp, rfl, hc⟩⟩
      rcases List.mem_append.mp hit with hit | hit
      · obtain ⟨node, hnode, -⟩ := h.current it hit
        rw [he] at hnode
        exact hcross.mpr (by rw [hnode]; exact Option.some_ne_none _)
      · rw [List.mem_singleton.mp hit] at hc
        exact hc
    · have hit : it ∈ l := by
        rcases List.mem_append.mp hit with hit | hit
        · exact hit
        · rw [List.mem_singleton.mp hit] at he
          exact absurd rfl he
      obtain ⟨node, hnode, hmem, hmarked, hcopy⟩ := h.current it hit
      refine ⟨node, by rw [hfind, if_neg he, hnode], hmem, hmarked, fun hc => ?_⟩
      obtain ⟨it', hit', hc', hmark⟩ := hcopy hc
      exact ⟨it', List.mem_append_left _ hit', hc', hmark⟩
  · obtain ⟨v₁, hv₁, rfl⟩ := hway hw₁
    obtain ⟨v₂, hv₂, rfl⟩ := hway hw₂
    obtain ⟨a', ha', ha⟩ := WayInfo.mem_putCopy.mp ha
    obtain ⟨b', hb', hb⟩ := WayInfo.mem_putCopy.mp hb
    rw [hcoord ha, hcoord hb] at hab
    rw [hcoord ha]
    exact hmono _ (h.shared id₁ id₂ v₁ v₂ hv₁ hv₂ hne a' ha' b' hb' hab)
  · obtain ⟨wi', hwi', rfl⟩ := hway hwi
    obtain ⟨a', ha', ha⟩ := WayInfo.mem_putCopy.mp ha
    rw [hcoord ha] at hab ⊢
    rcases List.mem_append.mp hb with hb | hb
    · exact hmono _ (h.crossed id' wi' hwi' a' ha' b hb hab)
    · rw [List.mem_singleton.mp hb] at hab
      obtain ⟨node, hnode, -⟩ := h.stored id' wi' hwi' a' ha'
      rw [hab] at hnode ⊢
      exact ⟨wn, hself, hcross.mpr (by rw [hnode]; exact Option.some_ne_none _)⟩

theorem readCoordinate (h : Reading id d l) (coord : C) :
    Reading id (Ferry2.readCoordinate id (d, l) coord).1 (Ferry2.readCoordinate id (d, l) coord).2 ∧
      (Ferry2.readCoordinate id (d, l) coord).2 ≠ [] := by
  unfold Ferry2.readCoordinate
  cases hit : d.nodes.find coord with
  | some it =>
    have hc := h.coordinate coord it hit
    dsimp only
    refine ⟨?_, List.append_ne_nil_of_right_ne_nil _ (List.cons_ne_nil _ _)⟩
    rw [hc, StdMap.insert_erase, ← hc]
    apply h.assign { it with wayIDs := it.wayIDs ++ [id], isCrossing := true }
    · exact h.unlinked coord it hit
    · intro id'
      dsimp only
      rw [hc, hit, List.mem_append, List.mem_singleton]
      simp [or_comm]
    · dsimp only
      rw [hc, hit]
      simp
    · intro id'
      rw [find_refreshCopies]
      cases hwi : d.linestrings.find id' with
      | none => rfl
      | some wi =>
        simp only [Option.map_some, Option.some_inj]
        split_ifs with hid
        · rfl
        · symm
          apply WayInfo.putCopy_of_not_mem
          intro a ha hac
          obtain ⟨node, hnode, hmem, -⟩ := h.stored id' wi hwi a ha
          rw [hac, hc, hit] at hnode
          cases hnode
          exact hid (List.mem_append_left _ hmem)
  | none =>
    dsimp only
    refine ⟨?_, List.append_ne_nil_of_right_ne_nil _ (List.cons_ne_nil _ _)⟩
    rw [StdMap.insert_of_find_none hit]
    apply h.assign (WayNode.fresh coord [id])
    · rfl
    · intro id'
      simp [WayNode.fresh, hit]
    · simp [WayNode.fresh, hit]
    · intro id'
      cases hwi : d.linestrings.find id' with
      | none => rfl
      | some wi =>
        rw [Option.map_some, WayInfo.putCopy_of_not_mem]
        intro a ha hac
        obtain ⟨node, hnode, -⟩ := h.stored id' wi hwi a ha
        rw [hac] at hnode
        rw [show (WayNode.fresh coord [id]).coordinate = coord from rfl, hit] at hnode
        cases hnode

theorem readCoordinates (h : Reading id d l) (coords : List C) :
    Reading id (coords.foldl (Ferry2.readCoordinate id) (d, l)).1
        (coords.foldl (Ferry2.readCoordinate id) (d, l)).2 ∧
      (coords ≠ [] → (coords.foldl (Ferry2.readCoordinate id) (d, l)).2 ≠ []) := by
  induction coords generalizing d l with
  | nil => exact ⟨h, fun hne => absurd rfl hne⟩
  | cons coord coords ih =>
    obtain ⟨hstep, hne⟩ := h.readCoordinate coord
    obtain ⟨hrest, hne'⟩ := ih hstep
    refine ⟨hrest, fun _ => ?_⟩
    rw [List.foldl_cons]
    cases coords with
    | nil => exact hne
    | cons coord' coords => exact hne' (List.cons_ne_nil _ _)

end Reading

/-- The map between two features. -/
structure MapRead (d : MapData C) : Prop where
  coordinate : ∀ c node, d.nodes.find c = some node → node.coordinate = c
  unlinked : ∀ c node, d.nodes.find c = some node → node.neighborNodes = .empty
  known : ∀ c node, d.nodes.find c = some node → ∀ id ∈ node.wayIDs,
    ∃ wi, d.linestrings.find id = some wi
  nonempty : ∀ id wi, d.linestrings.find id = some wi → wi.nodes ≠ []
  stored : ∀ id wi, d.linestrings.find id = some wi → WayRead d.nodes id wi.nodes
  shared : ∀ id₁ id₂ w₁ w₂, d.linestrings.find id₁ = some w₁ → d.linestrings.find id₂ = some w₂ →
    id₁ ≠ id₂ → ∀ a ∈ w₁.nodes, ∀ b ∈ w₂.nodes, a.coordinate = b.coordinate →
      IsCrossing d.nodes a.coordinate

theorem MapRead.reading {d : MapData C} (h : MapRead d) (id : String) : Reading id d [] where
  coordinate := h.coordinate
  unlinked := h.unlinked
  known c node hnode id' hid' := .inr (h.known c node hnode id' hid')
  nonempty := h.nonempty
  stored := h.stored
  current := fun _ hit => by cases hit
  shared := h.shared
  crossed := fun _ _ _ _ _ _ hb => by cases hb

/-- The way that was read is stored, or there is one with its id. -/
theorem Reading.mapRead {id : String} {d : MapData C} {l : List (WayNode C)} (h : Reading id d l)
    (hl : l ≠ []) : MapRead { d with linestrings := d.linestrings.insert id ⟨id, l⟩ } := by
  have hfind : ∀ {id' wi}, (d.linestrings.insert id ⟨id, l⟩).find id' = some wi →
      d.linestrings.find id' = some wi ∨
        id' = id ∧ wi = ⟨id, l⟩ ∧ d.linestrings.find id = none := by
    intro id' wi hwi
    rw [StdMap.find_insert] at hwi
    split_ifs at hwi with he
    · subst he
      cases hold : d.linestrings.find id' with
      | some wi' =>
        rw [hold] at hwi
        exact .inl hwi
      | none =>
        rw [hold] at hwi
        exact .inr ⟨rfl, (Option.some_inj.mp hwi).symm, rfl⟩
    · exact .inl hwi
  refine ⟨h.coordinate, h.unlinked, fun c node hnode id' hid' => ?_, fun id' wi hwi => ?_,
    fun id' wi hwi => ?_, fun id₁ id₂ w₁ w₂ hw₁ hw₂ hne a ha b hb hab => ?_⟩
  · rw [StdMap.find_insert]
    rcases h.known c node hnode id' hid' with rfl | ⟨wi, hwi⟩
    · rw [if_pos rfl]
      exact ⟨_, rfl⟩
    · split_ifs with he
      · exact ⟨_, rfl⟩
      · exact ⟨wi, hwi⟩
  · rcases hfind hwi with hold | ⟨-, rfl, -⟩
    · exact h.nonempty id' wi hold
    · exact hl
  · rcases hfind hwi with hold | ⟨rfl, rfl, -⟩
    · exact h.stored id' wi hold
    · exact h.current
  · rcases hfind hw₁ with hold₁ | ⟨rfl, rfl, -⟩
    · rcases hfind hw₂ with hold₂ | ⟨rfl, rfl, -⟩
      · exact h.shared id₁ id₂ w₁ w₂ hold₁ hold₂ hne a ha b hb hab
      · exact h.crossed id₁ w₁ hold₁ a ha b hb hab
    · rcases hfind hw₂ with hold₂ | ⟨rfl, -⟩
      · have := h.crossed id₂ w₂ hold₂ b hb a ha hab.symm
        rw [hab]
        exact this
      · exact absurd rfl hne

/-- A map file is well formed if every line string has coordinates. -/
def WellFormed (features : List (Feature C)) : Prop :=
  ∀ id, Feature.lineString id [] ∉ features

theorem MapRead.readFeature {d : MapData C} (h : MapRead d) {feature : Feature C}
    (hf : ∀ id, feature ≠ .lineString id []) : MapRead (Ferry2.readFeature d feature) := by
  cases feature with
  | other => exact h
  | lineString id coords =>
    obtain ⟨hread, hne⟩ := (h.reading id).readCoordinates coords
    exact hread.mapRead (hne fun he => hf id (by rw [he]))
  | point coord =>
    unfold Ferry2.readFeature
    cases hold : d.nodes.find coord with
    | some node =>
      dsimp only
      rw [StdMap.insert_of_find_some hold]
      exact h
    | none =>
      dsimp only
      rw [StdMap.insert_of_find_none hold]
      have hfind : ∀ {c node}, d.nodes.find c = some node →
          (d.nodes.assign coord (.fresh coord [])).find c = some node := by
        intro c node hnode
        rw [StdMap.find_assign, if_neg, hnode]
        rintro rfl
        rw [hold] at hnode
        cases hnode
      have hinv : ∀ {c node}, (d.nodes.assign coord (.fresh coord [])).find c = some node →
          d.nodes.find c = some node ∨ c = coord ∧ node = .fresh coord [] := by
        intro c node hnode
        rw [StdMap.find_assign] at hnode
        split_ifs at hnode with he
        · exact .inr ⟨he, (Option.some_inj.mp hnode).symm⟩
        · exact .inl hnode
      have hcross : ∀ {c}, IsCrossing d.nodes c →
          IsCrossing (d.nodes.assign coord (.fresh coord [])) c := by
        rintro c ⟨node, hnode, hc⟩
        exact ⟨node, hfind hnode, hc⟩
      refine ⟨fun c node hnode => ?_, fun c node hnode => ?_, fun c node hnode id hid => ?_,
        h.nonempty, fun id wi hwi it hit => ?_, fun id₁ id₂ w₁ w₂ hw₁ hw₂ hne a ha b hb hab => ?_⟩
      · rcases hinv hnode with hnode | ⟨rfl, rfl⟩
        · exact h.coordinate c node hnode
        · rfl
      · rcases hinv hnode with hnode | ⟨rfl, rfl⟩
        · exact h.unlinked c node hnode
        · rfl
      · rcases hinv hnode with hnode | ⟨rfl, rfl⟩
        · exact h.known c node hnode id hid
        · cases hid
      · obtain ⟨node, hnode, hmem, hcopy⟩ := h.stored id wi hwi it hit
        exact ⟨node, hfind hnode, hmem, hcopy⟩
      · exact hcross (h.shared id₁ id₂ w₁ w₂ hw₁ hw₂ hne a ha b hb hab)

theorem mapRead_readFeatures {features : List (Feature C)} (h : WellFormed features) :
    MapRead (readFeatures features) := by
  have hrun : ∀ (fs : List (Feature C)) (d : MapData C), (∀ f ∈ fs, f ∈ features) → MapRead d →
      MapRead (fs.foldl readFeature d) := by
    intro fs
    induction fs with
    | nil => exact fun d _ hd => hd
    | cons f fs ih =>
      intro d hfs hd
      refine ih _ (fun f' hf' => hfs f' (List.mem_cons_of_mem _ hf')) (hd.readFeature ?_)
      rintro id rfl
      exact h id (hfs _ (by simp))
  refine hrun features _ (fun _ hf => hf) ⟨?_, ?_, ?_, ?_, ?_, ?_⟩ <;> simp

end Ns3.Ferry2
