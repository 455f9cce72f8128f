import Ns3.Ferry2.ShelterChoice

/-!
# The forecast at a crossing

`TaskOfCrossing` predicts that the target of a user will be full on arrival, by
the rate at which it fills up or by the arrivals others announced. It then puts
the crossing the user is at down as full, and not the target, and asks for a
search. What that search chooses is decided by the shelters the user knows
other than this crossing.
-/

namespace Ns3.Ferry2

open Ns3.Lib

/-- What a user thinks of the shelters, and whether a search is due. -/
@[ext] structure Outlook where
  exits : StdMap UInt32 (UInt32 × UInt32)
  full : StdSet String
  search : Bool

namespace Outlook

/-- The crossing `nodeid` is put down as full. -/
def avoid (o : Outlook) (nodeid : String) (key : UInt32) : Outlook where
  exits := o.exits.erase key
  full := o.full.insert nodeid ()
  search := true

theorem avoid_avoid (o : Outlook) (nodeid : String) (key : UInt32) :
    (o.avoid nodeid key).avoid nodeid key = o.avoid nodeid key := by
  have herase : (o.exits.erase key).erase key = o.exits.erase key := by
    refine StdMap.ext fun k => ?_
    simp only [StdMap.find_erase]
    split_ifs <;> rfl
  have hinsert : (o.full.insert nodeid ()).insert nodeid () = o.full.insert nodeid () :=
    StdMap.insert_of_find_some (w := ()) (by rw [StdMap.find_insert, if_pos rfl])
  unfold avoid
  rw [herase, hinsert]

/-- A shelter named `id` that may be chosen. -/
def Open (o : Outlook) (id : String) : Prop :=
  ∃ e ∈ o.exits.entries, KnownExit.id e = id ∧ Eligible o.full e

variable {o : Outlook} {nodeid id : String} {key : UInt32} {e : KnownExit}

theorem mem_avoid : e ∈ (o.avoid nodeid key).exits.entries ↔ e ∈ o.exits.entries ∧ e.1 ≠ key := by
  obtain ⟨k, v⟩ := e
  rw [StdMap.mem_entries, StdMap.mem_entries]
  unfold avoid
  rw [StdMap.find_erase]
  split_ifs with h
  · simp [h]
  · simp [h]

theorem contains_avoid : (o.avoid nodeid key).full.contains id = false ↔
    o.full.contains id = false ∧ id ≠ nodeid := by
  unfold avoid
  simp only [← Bool.not_eq_true, StdMap.contains_insert]
  tauto

end Outlook

variable {C : Type} [LinearOrder C]

def DtnNode.outlook (n : MyUser C) : Outlook :=
  ⟨n.user.exitnodeinfolist, n.fullexitnodeid, n.isDijkstra⟩

/-- The prediction under `GetUseExitInfoFlag`. -/
def FillsUp (cfg : UserConfig) (nodeid : String) (f : Option Forecast) (n : MyUser C) : Prop :=
  cfg.useexitinfo = true ∧ nodeid ≠ n.user.exitnode ∧ ∃ x ∈ f, x.remainingCapacityArrival < 1

/-- The prediction under `GetSendHopFlag`. -/
def Overrun (cfg : UserConfig) (now : ℕ) (f : Option Forecast) (n : MyUser C) : Prop :=
  cfg.sendHopFlag = true ∧
    (f.map Forecast.remainingCapacity).getD 400000 - (earlierArrivals now n - 1 : ℕ) ≤ 0

section Outlook

variable {cfg : UserConfig} {now : ℕ} {n n' : MyUser C} {nodeid : String} {f : Option Forecast}

theorem avoidNode_spec (h : avoidNode nodeid n = some n') :
    ∃ key, nodeIDstoi nodeid = some key ∧ n'.outlook = n.outlook.avoid nodeid key := by
  obtain ⟨key, hkey, h⟩ := Option.bind_eq_some_iff.mp h
  cases h
  exact ⟨key, hkey, rfl⟩

theorem useExitInfo_spec (h : useExitInfo cfg nodeid f n = some n') :
    FillsUp cfg nodeid f n ∧ avoidNode nodeid n = some n' ∨ ¬ FillsUp cfg nodeid f n ∧ n' = n := by
  unfold useExitInfo at h
  cases f with
  | none =>
    cases h
    refine .inr ⟨?_, rfl⟩
    rintro ⟨-, -, x, hx, -⟩
    exact absurd hx (by simp)
  | some x =>
    dsimp only at h
    split_ifs at h with hfull
    · exact .inl ⟨⟨hfull.1, hfull.2.2, x, rfl, hfull.2.1⟩, h⟩
    · cases h
      refine .inr ⟨?_, rfl⟩
      rintro ⟨huse, hne, y, hy, hlt⟩
      cases hy
      exact hfull ⟨huse, hlt, hne⟩

theorem outlook_setEraseHopTimer : (setEraseHopTimer now n).outlook = n.outlook := by
  unfold setEraseHopTimer
  refine foldl_view (g := DtnNode.outlook) (fun n a => ?_) _ _
  split_ifs <;> rfl

theorem useHop_spec (h : useHop cfg now nodeid f n = some n') :
    Overrun cfg now f n ∧ (∃ key, nodeIDstoi nodeid = some key ∧
        n'.outlook = n.outlook.avoid nodeid key) ∨
      ¬ Overrun cfg now f n ∧ n'.outlook = n.outlook := by
  unfold useHop at h
  dsimp only at h
  split_ifs at h with hflag hfull
  · obtain ⟨n₁, h₁, rfl⟩ := Option.map_eq_some_iff.mp h
    obtain ⟨key, hkey, hout⟩ := avoidNode_spec h₁
    rw [outlook_setEraseHopTimer]
    exact .inl ⟨⟨hflag, hfull⟩, key, hkey, hout⟩
  · cases h
    exact .inr ⟨fun ho => hfull ho.2, outlook_setEraseHopTimer⟩
  · cases h
    exact .inr ⟨fun ho => hflag ho.1, rfl⟩

variable [Zero C] {m : RoadMap C} {b : Building} {ni : WayNode C}

/-- The `nodeid` of `TaskOfCrossing`. -/
def crossingID (m : RoadMap C) (ni : WayNode C) : String :=
  (m.getIDfromCoordinate ni.coordinate).getD ""

/-- `TaskOfCrossing` predicts that the target will be full. -/
def PredictsFull (cfg : UserConfig) (m : RoadMap C) (now : ℕ) (b : Building) (n : MyUser C)
    (ni : WayNode C) : Prop :=
  FillsUp cfg (crossingID m ni) (forecast cfg m now b n ni).1 (forecast cfg m now b n ni).2 ∨
    Overrun cfg now (forecast cfg m now b n ni).1 (forecast cfg m now b n ni).2

theorem outlook_forecast : (forecast cfg m now b n ni).2.outlook = n.outlook := by
  unfold forecast
  split
  · rfl
  · dsimp only
    split_ifs <;> rfl

theorem outlook_followRoute {w : Walk C} (h : followRoute m ni n.user = some w) :
    DtnNode.outlook { n with user := w } = n.outlook := by
  unfold followRoute at h
  split at h
  · cases h
    rfl
  · split_ifs at h with hne
    · cases h
      rfl
    · dsimp only at h
      split at h
      · cases h
        rfl
      · obtain ⟨wi, -, hout⟩ := Option.bind_eq_some_iff.mp h
        cases hout
        rfl

/-- With a prediction the crossing is avoided and a search is due, and else all stays as it is. -/
theorem taskOfCrossing_outlook (h : taskOfCrossing cfg m now b n ni = some n') :
    PredictsFull cfg m now b n ni ∧ (∃ key, nodeIDstoi (crossingID m ni) = some key ∧
        n'.outlook = n.outlook.avoid (crossingID m ni) key) ∨
      ¬ PredictsFull cfg m now b n ni ∧ n'.outlook = n.outlook := by
  obtain ⟨n₂, hforecast, h⟩ := Option.bind_eq_some_iff.mp h
  obtain ⟨-, -, h⟩ := Option.bind_eq_some_iff.mp h
  obtain ⟨w, hfollow, h⟩ := Option.bind_eq_some_iff.mp h
  cases h
  rw [outlook_followRoute hfollow]
  obtain ⟨n₁, hexit, hhop⟩ := Option.bind_eq_some_iff.mp hforecast
  have hstart : (forecast cfg m now b n ni).2.outlook = n.outlook := outlook_forecast
  unfold PredictsFull
  rw [← hstart]
  rcases useExitInfo_spec hexit with ⟨hfills, havoid⟩ | ⟨hnot, rfl⟩
  · obtain ⟨key, hkey, hout⟩ := avoidNode_spec havoid
    refine .inl ⟨.inl hfills, key, hkey, ?_⟩
    rcases useHop_spec hhop with ⟨-, key', hkey', hout'⟩ | ⟨-, hout'⟩
    · have hsame : some key' = some key := hkey'.symm.trans hkey
      cases hsame
      rw [hout', hout, Outlook.avoid_avoid]
      rfl
    · rw [hout', hout]
      rfl
  · rcases useHop_spec hhop with ⟨hover, havoid⟩ | ⟨hover, hout⟩
    · exact .inl ⟨.inr hover, havoid⟩
    · refine .inr ⟨?_, hout⟩
      rintro (h | h)
      · exact hnot h
      · exact hover h

end Outlook

/-! ## The search after a forecast -/

section Choice

variable [Zero C] {m : RoadMap C} {nodes : StdMap C (DijkstraInfo C)} {full : StdSet String}
  {es : List KnownExit} {t : ℚ × C}

theorem candidates_split {l₁ l₂ : List (ℚ × C)}
    (h : candidates m nodes full es = l₁ ++ t :: l₂) :
    ∃ es₁ e es₂, es = es₁ ++ e :: es₂ ∧ Eligible full e ∧ shelterAt m nodes e = some t ∧
      candidates m nodes full es₁ = l₁ ∧ candidates m nodes full es₂ = l₂ := by
  unfold candidates at h
  rw [List.filterMap_filter] at h
  obtain ⟨es₁, es', rfl, h₁, h'⟩ := List.filterMap_eq_append_iff.mp h
  obtain ⟨skipped, e, es₂, rfl, hskip, he, h₂⟩ := List.filterMap_eq_cons_iff.mp h'
  obtain ⟨hel, hat⟩ := Option.ite_none_right_eq_some.mp he
  rw [decide_eq_true_eq] at hel
  refine ⟨es₁ ++ skipped, e, es₂, by rw [List.append_assoc], hel, hat, ?_, ?_⟩
  · unfold candidates
    rw [List.filterMap_filter, List.filterMap_append, h₁, List.filterMap_eq_nil_iff.mpr hskip,
      List.append_nil]
  · unfold candidates
    rw [List.filterMap_filter, h₂]

/-- The loop takes the nearest shelter, and of those as near the one with the least number. -/
theorem chosen_iff (hsorted : es.Pairwise fun a b => a.1 < b.1)
    (hnear : ∀ e ∈ es, ∀ c, shelterAt m nodes e = some c → c.1 < inf) :
    (candidates m nodes full es).foldl nearer (inf, 0) = t ∧ t.1 < inf ↔
      ∃ e ∈ es, Eligible full e ∧ shelterAt m nodes e = some t ∧
        ∀ e' ∈ es, Eligible full e' → ∀ c, shelterAt m nodes e' = some c →
          t.1 < c.1 ∨ t.1 = c.1 ∧ e.1 ≤ e'.1 := by
  have hmem : ∀ e ∈ es, Eligible full e → ∀ c, shelterAt m nodes e = some c →
      c ∈ candidates m nodes full es :=
    fun e he hel c hc => mem_candidates.mpr ⟨e, he, hel, hc⟩
  rcases foldl_nearer (candidates m nodes full es) (inf, 0) with
    ⟨hbest, hfar⟩ | ⟨l₁, c, l₂, hsplit, hbest, hlt, h₁, h₂⟩
  · rw [hbest]
    constructor
    · rintro ⟨rfl, hlt⟩
      exact absurd hlt (lt_irrefl _)
    · rintro ⟨e, he, hel, hat, -⟩
      exact absurd (hnear e he t hat) (not_lt.mpr (hfar t (hmem e he hel t hat)))
  · obtain ⟨es₁, e, es₂, rfl, hel, hat, hes₁, hes₂⟩ := candidates_split hsplit
    rw [List.pairwise_append] at hsorted
    obtain ⟨-, htail, hbefore⟩ := hsorted
    -- the shelter found is the foremost
    have hfirst : ∀ e' ∈ es₁ ++ e :: es₂, Eligible full e' → ∀ c', shelterAt m nodes e' = some c' →
        c.1 < c'.1 ∨ c.1 = c'.1 ∧ e.1 ≤ e'.1 := by
      intro e' he' hel' c' hat'
      rcases List.mem_append.mp he' with he' | he'
      · refine .inl (h₁ c' ?_)
        rw [← hes₁]
        exact mem_candidates.mpr ⟨e', he', hel', hat'⟩
      · rcases List.mem_cons.mp he' with rfl | he'
        · rw [hat] at hat'
          cases hat'
          exact .inr ⟨rfl, le_rfl⟩
        · have hle : c.1 ≤ c'.1 := by
            refine h₂ c' ?_
            rw [← hes₂]
            exact mem_candidates.mpr ⟨e', he', hel', hat'⟩
          rcases hle.lt_or_eq with hlt' | heq
          · exact .inl hlt'
          · exact .inr ⟨heq, (List.rel_of_pairwise_cons htail he').le⟩
    have he : e ∈ es₁ ++ e :: es₂ := List.mem_append_right _ (by simp)
    rw [hbest]
    constructor
    · rintro ⟨rfl, -⟩
      exact ⟨e, he, hel, hat, hfirst⟩
    · rintro ⟨e', he', hel', hat', hfirst'⟩
      -- and there is only one foremost
      have hkey : t.1 = c.1 ∧ e'.1 = e.1 := by
        rcases hfirst e' he' hel' t hat' with hlt₁ | ⟨heq₁, hle₁⟩
        · rcases hfirst' e he hel c hat with hlt₂ | ⟨heq₂, -⟩
          · exact absurd hlt₁ hlt₂.asymm
          · exact absurd hlt₁ heq₂.not_gt
        · rcases hfirst' e he hel c hat with hlt₂ | ⟨-, hle₂⟩
          · exact absurd hlt₂ heq₁.not_gt
          · exact ⟨heq₁.symm, le_antisymm hle₂ hle₁⟩
      have hsame : e' = e := by
        rcases List.mem_append.mp he' with he' | he'
        · exact absurd (hbefore e' he' e (by simp)) (by simp [hkey.2])
        · rcases List.mem_cons.mp he' with rfl | he'
          · rfl
          · exact absurd (List.rel_of_pairwise_cons htail he') (by simp [hkey.2])
      rw [hsame, hat] at hat'
      cases hat'
      exact ⟨rfl, hlt⟩

/-- The shelter `e` is at the distance `d`. -/
def DistTo (m : RoadMap C) (g : Graph C) (no : C) (e : KnownExit) (d : ℚ) : Prop :=
  ∃ pos, m.idToCoordinate.find e.id = some pos ∧ IsDist g.edge no pos d

theorem DistTo.unique {g : Graph C} {no : C} {e : KnownExit} {d d' : ℚ} (h : DistTo m g no e d)
    (h' : DistTo m g no e d') : d = d' := by
  obtain ⟨pos, hpos, hd⟩ := h
  obtain ⟨pos', hpos', hd'⟩ := h'
  rw [hpos] at hpos'
  cases hpos'
  exact hd.unique hd'

/-- Of the shelters `es`, all within reach, the one named `id` comes first: it may be chosen, and
none that may be chosen is nearer, or as near with a smaller number. -/
def Foremost (m : RoadMap C) (g : Graph C) (no : C) (full : StdSet String) (es : Set KnownExit)
    (id : String) : Prop :=
  (∀ e ∈ es, ∃ d, DistTo m g no e d ∧ d < inf) ∧
    ∃ e ∈ es, e.id = id ∧ Eligible full e ∧
      ∀ e' ∈ es, Eligible full e' → ∀ d d', DistTo m g no e d → DistTo m g no e' d' →
        d < d' ∨ d = d' ∧ e.1 ≤ e'.1

theorem foremost_congr {g : Graph C} {no : C} {full' : StdSet String} {es es' : Set KnownExit}
    {id : String} (hes : ∀ e, e ∈ es ↔ e ∈ es')
    (hel : ∀ e ∈ es, Eligible full e ↔ Eligible full' e) :
    Foremost m g no full es id ↔ Foremost m g no full' es' id := by
  obtain rfl : es = es' := Set.ext hes
  unfold Foremost
  refine and_congr_right fun _ => exists_congr fun e => and_congr_right fun he =>
    and_congr_right fun _ => and_congr (hel e he) ?_
  exact forall_congr' fun e' => forall_congr' fun he' => imp_congr_left (hel e' he')

variable {n : MyUser C} {no : C} {id : String}

/-- A search chooses the foremost of the shelters the user knows. -/
theorem newTarget_eq_some_iff (hrnd : ∀ q, m.rnd q = q) (hmap : n.user.graph.OnMap m)
    (hpos : n.user.graph.Nonneg) (hno : n.user.graph.find no ≠ none) :
    newTarget m n no = some id ↔ Foremost m n.user.graph no n.fullexitnodeid
      (fun e => e ∈ n.user.exitnodeinfolist.entries) id := by
  obtain ⟨s, hs, h, hleft⟩ := settleFrom_spec hrnd hmap hpos hno
  have hfrom : settleFrom m n.user.graph no = some s := hs n.user.graph.size le_rfl
  have hat : ∀ e c, shelterAt m s.nodes e = some c ↔ m.idToCoordinate.find e.id = some c.2 ∧
      IsDist n.user.graph.edge no c.2 c.1 ∧ c.1 < inf := fun e c => shelterAt_settled h hpos hleft
  have hnear : ∀ e ∈ n.user.exitnodeinfolist.entries, ∀ c, shelterAt m s.nodes e = some c →
      c.1 < inf := fun e _ c hc => ((hat e c).mp hc).2.2
  have hchosen : ∀ t, (candidates m s.nodes n.fullexitnodeid
      n.user.exitnodeinfolist.entries).foldl nearer (inf, 0) = t ∧ t.1 < inf ↔ _ :=
    fun t => chosen_iff (t := t) n.user.exitnodeinfolist.sorted hnear
  constructor
  · intro hnew
    obtain ⟨s', hs', hnew⟩ := Option.bind_eq_some_iff.mp hnew
    rw [hfrom] at hs'
    cases hs'
    obtain ⟨o, ho, hnew⟩ := Option.bind_eq_some_iff.mp hnew
    obtain ⟨t, rfl, hid⟩ := Option.bind_eq_some_iff.mp hnew
    have hfound := settled_of_chooseShelter ho
    have hlt : t.1 < inf := by
      rcases searchTarget_eq_some ho with ⟨rfl, -⟩ | ⟨-, hlt, -⟩
      · rw [RoadMap.getIDfromCoordinate_zero] at hid
        cases hid
      · exact hlt
    unfold searchTarget at ho
    rw [chooseShelter_eq hfound] at ho
    have hfold := Option.some.inj (Option.some.inj ho)
    obtain ⟨e, he, hel, hte, hfirst⟩ := (hchosen t).mp ⟨hfold, hlt⟩
    obtain ⟨hpos', hdist, -⟩ := (hat e t).mp hte
    refine ⟨fun e' he' => ?_, e, he, ?_, hel, fun e' he' hel' d d' hd hd' => ?_⟩
    · obtain ⟨c, hc⟩ := Option.ne_none_iff_exists'.mp (hfound e' he')
      obtain ⟨hp, hd, hl⟩ := (hat e' c).mp hc
      exact ⟨c.1, ⟨c.2, hp, hd⟩, hl⟩
    · have := RoadMap.getIDfromCoordinate_of_find hpos'
      rw [hid] at this
      exact (Option.some.inj this).symm
    · obtain ⟨c, hc⟩ := Option.ne_none_iff_exists'.mp (hfound e' he')
      obtain ⟨hp, hdc, -⟩ := (hat e' c).mp hc
      have h₁ : d = t.1 := DistTo.unique hd ⟨t.2, hpos', hdist⟩
      have h₂ : d' = c.1 := DistTo.unique hd' ⟨c.2, hp, hdc⟩
      rw [h₁, h₂]
      exact hfirst e' he' hel' c hc
  · rintro ⟨hreach, e, he, rfl, hel, hfirst⟩
    have hshelter : ∀ e ∈ n.user.exitnodeinfolist.entries, ∃ c, shelterAt m s.nodes e = some c := by
      intro e he
      obtain ⟨d, ⟨pos, hp, hd⟩, hlt⟩ := hreach e he
      exact ⟨(d, pos), (hat e (d, pos)).mpr ⟨hp, hd, hlt⟩⟩
    obtain ⟨t, ht⟩ := hshelter e he
    obtain ⟨hp, hd, -⟩ := (hat e t).mp ht
    obtain ⟨hfold, -⟩ := (hchosen t).mpr ⟨e, he, hel, ht, fun e' he' hel' c hc => by
      obtain ⟨hp', hd', -⟩ := (hat e' c).mp hc
      exact hfirst e' he' hel' t.1 c.1 ⟨t.2, hp, hd⟩ ⟨c.2, hp', hd'⟩⟩
    have hsearch : searchTarget m n.user.exitnodeinfolist n.fullexitnodeid s = some (some t) := by
      unfold searchTarget
      rw [chooseShelter_eq fun e he => by
        obtain ⟨c, hc⟩ := hshelter e he
        rw [hc]
        exact Option.some_ne_none c, hfold]
    unfold newTarget
    rw [hfrom, Option.bind_eq_bind, Option.bind_some, hsearch]
    exact RoadMap.getIDfromCoordinate_of_find hp

end Choice

/-! ## What a prediction is followed by -/

section Prediction

variable [Zero C] {cfg : UserConfig} {m : RoadMap C} {now : ℕ} {b : Building}
  {n n' : MyUser C} {ni : WayNode C}

/-- The two users know the same shelters, and take the same for full. -/
def SameShelters (n n' : MyUser C) : Prop :=
  n.user.exitnodeinfolist = n'.user.exitnodeinfolist ∧ n.fullexitnodeid = n'.fullexitnodeid

/-- After `n`, the first call without a prediction leaves the shelter `id` one that may be
chosen. -/
def OpenOnceClear (cfg : UserConfig) (m : RoadMap C) (n : MyUser C) (id : String) : Prop :=
  ∀ now b n₁ ni n₂, SameShelters n₁ n → ¬ PredictsFull cfg m now b n₁ ni →
    taskOfCrossing cfg m now b n₁ ni = some n₂ → n₂.outlook.Open id

omit [Zero C] in
theorem not_overrun (cfg : UserConfig) (now : ℕ) {n : MyUser C} (hhop : n.hop = .empty) :
    ¬ Overrun cfg now none n := by
  have hnone : earlierArrivals now n = 0 := by
    unfold earlierArrivals
    rw [hhop]
    rfl
  rintro ⟨-, hle⟩
  rw [hnone] at hle
  exact absurd hle (by decide)

/-- A user that knows of no one's arrival, at a time when the room left in its target is unknown. -/
theorem forecastCrossing_clear (cfg : UserConfig) (now : ℕ) (hin : forecastInputs m b n ni = none)
    (hhop : n.hop = .empty) :
    ¬ PredictsFull cfg m now b n ni ∧ ∃ n', forecastCrossing cfg m now b n ni = some n' ∧
      n'.user.shortest = n.user.shortest := by
  have hforecast : (forecast cfg m now b n ni).1 = none ∧
      (forecast cfg m now b n ni).2.hop = .empty ∧
        (forecast cfg m now b n ni).2.user.shortest = n.user.shortest := by
    unfold forecast
    rw [hin]
    exact ⟨rfl, hhop, rfl⟩
  obtain ⟨hnone, hempty, hshort⟩ := hforecast
  unfold PredictsFull forecastCrossing
  dsimp only
  rw [hnone]
  have hclear := not_overrun cfg now hempty
  refine ⟨?_, ?_⟩
  · rintro (⟨-, -, x, hx, -⟩ | hover)
    · cases hx
    · exact hclear hover
  · have herase : (setEraseHopTimer now (forecast cfg m now b n ni).2) =
        (forecast cfg m now b n ni).2 := by
      unfold setEraseHopTimer
      rw [hempty]
      rfl
    refine ⟨(forecast cfg m now b n ni).2, ?_, hshort⟩
    unfold useExitInfo useHop
    rw [Option.bind_eq_bind, Option.bind_some, herase]
    dsimp only
    split_ifs with hflag hfull
    · exact absurd ⟨hflag, hfull⟩ hclear
    · rfl
    · rfl

theorem exists_clear (cfg : UserConfig) (now : ℕ) (m : RoadMap C) (b : Building) (n : MyUser C)
    (ni : WayNode C) : ∃ b₁ n₁ n₂, SameShelters n₁ n ∧ ¬ PredictsFull cfg m now b₁ n₁ ni ∧
      taskOfCrossing cfg m now b₁ n₁ ni = some n₂ := by
  let b₁ : Building := { b with exitNodes := .empty }
  let n₁ : MyUser C := { n with hop := .empty, user := { n.user with shortest := [] } }
  have hinputs : forecastInputs m b₁ n₁ ni = none := by
    unfold forecastInputs
    cases m.getIDfromCoordinate ni.coordinate with
    | none => rfl
    | some nodeid =>
      rw [Option.bind_eq_bind, Option.bind_some]
      cases n₁.increaseRate.find n₁.user.exitnode with
      | none => rfl
      | some increse =>
        rw [Option.bind_eq_bind, Option.bind_some]
        cases n₁.user.exitDistanceMap.find nodeid <;> rfl
  obtain ⟨hclear, n₂, hn₂, hshort⟩ := forecastCrossing_clear cfg now hinputs rfl
  have hnil : n₂.user.shortest = [] := hshort
  refine ⟨b₁, n₁, { n₂ with user := n₂.user }, ⟨rfl, rfl⟩, hclear, ?_⟩
  unfold taskOfCrossing
  rw [hn₂, Option.bind_eq_bind, Option.bind_some, hnil]
  unfold followRoute
  rw [hnil]
  rfl

/-- The shelters that may be chosen after a prediction: all but the crossing. -/
theorem avoided_of_prediction (htask : taskOfCrossing cfg m now b n ni = some n')
    (hfull : PredictsFull cfg m now b n ni) :
    (∀ e : KnownExit, e ∈ n'.user.exitnodeinfolist.entries ↔
        e ∈ n.user.exitnodeinfolist.entries ∧ e.id ≠ crossingID m ni) ∧
      ∀ e : KnownExit, e.id ≠ crossingID m ni →
        (Eligible n'.fullexitnodeid e ↔ Eligible n.fullexitnodeid e) := by
  rcases taskOfCrossing_outlook htask with ⟨-, key, hkey, hout⟩ | ⟨hclear, -⟩
  · have hid : nodeID key.toNat = crossingID m ni := by
      unfold crossingID at hkey ⊢
      cases hfind : m.getIDfromCoordinate ni.coordinate with
      | none =>
        have hnone : nodeIDstoi "" = none := by decide
        rw [hfind, Option.getD_none, hnone] at hkey
        cases hkey
      | some id =>
        rw [hfind] at hkey
        obtain ⟨w, hw, hback, -⟩ := (RoadMap.canonical_getIDfromCoordinate hfind).wire
        have hsame : some w = some key := hw.symm.trans hkey
        cases hsame
        exact hback
    have hexits : n'.user.exitnodeinfolist = (n.outlook.avoid (crossingID m ni) key).exits :=
      congrArg Outlook.exits hout
    have hset : n'.fullexitnodeid = (n.outlook.avoid (crossingID m ni) key).full :=
      congrArg Outlook.full hout
    refine ⟨fun e => ?_, fun e he => ?_⟩
    · rw [hexits, Outlook.mem_avoid]
      refine and_congr_right fun _ => not_congr ?_
      rw [← hid]
      constructor
      · rintro rfl
        rfl
      · intro h
        exact UInt32.toNat_inj.mp (nodeID_inj h)
    · unfold Eligible
      rw [hset, Outlook.contains_avoid]
      exact and_congr_right fun _ => and_iff_left he
  · exact absurd hfull hclear

/-- After a prediction, a search chooses another shelter and the target may be chosen again later
exactly if the target is not the foremost of the shelters other than this crossing, and is not the
crossing itself. -/
theorem predicted_avoided_iff {n₁ : MyUser C} {no : C} (hrnd : ∀ q, m.rnd q = q)
    (htask : taskOfCrossing cfg m now b n ni = some n') (hfull : PredictsFull cfg m now b n ni)
    (hlater : SameShelters n₁ n') (hmap : n₁.user.graph.OnMap m) (hpos : n₁.user.graph.Nonneg)
    (hno : n₁.user.graph.find no ≠ none) :
    newTarget m n₁ no ≠ some n.user.exitnode ∧
        (n.outlook.Open n.user.exitnode → OpenOnceClear cfg m n' n.user.exitnode) ↔
      ¬ Foremost m n₁.user.graph no n.fullexitnodeid
          (fun e => e ∈ n.user.exitnodeinfolist.entries ∧ KnownExit.id e ≠ crossingID m ni)
          n.user.exitnode ∧
        (n.outlook.Open n.user.exitnode → n.user.exitnode ≠ crossingID m ni) := by
  obtain ⟨hmem, hel⟩ := avoided_of_prediction htask hfull
  refine and_congr (not_congr ?_) (forall_congr' fun hopen => ?_)
  · rw [newTarget_eq_some_iff hrnd hmap hpos hno, hlater.1, hlater.2]
    exact foremost_congr hmem fun e he => hel e ((hmem e).mp he).2
  · have hlists : ∀ n₂ : MyUser C, SameShelters n₂ n' →
        (n₂.outlook.Open n.user.exitnode ↔ n.user.exitnode ≠ crossingID m ni) := by
      intro n₂ hsame
      have hexits : n₂.outlook.exits = n'.user.exitnodeinfolist := hsame.1
      have hset : n₂.outlook.full = n'.fullexitnodeid := hsame.2
      unfold Outlook.Open
      rw [hexits, hset]
      constructor
      · rintro ⟨e, he, hid, -⟩
        rw [← hid]
        exact ((hmem e).mp he).2
      · intro hne
        obtain ⟨e, he, hid, helig⟩ := hopen
        rw [← hid] at hne
        exact ⟨e, (hmem e).mpr ⟨he, hne⟩, hid, (hel e hne).mpr helig⟩
    have hkept : ∀ now b n₂ ni n₃, SameShelters n₂ n' → ¬ PredictsFull cfg m now b n₂ ni →
        taskOfCrossing cfg m now b n₂ ni = some n₃ → SameShelters n₃ n' := by
      intro now b n₂ ni n₃ hsame hclear h
      rcases taskOfCrossing_outlook h with ⟨hpred, -⟩ | ⟨-, hout⟩
      · exact absurd hpred hclear
      · exact ⟨(congrArg Outlook.exits hout).trans hsame.1, (congrArg Outlook.full hout).trans hsame.2⟩
    constructor
    · intro hclear
      obtain ⟨b₁, n₂, n₃, hsame, hnot, h⟩ := exists_clear cfg now m b n' ni
      exact (hlists n₃ (hkept _ _ _ _ _ hsame hnot h)).mp (hclear _ _ _ _ _ hsame hnot h)
    · intro hne now b n₂ ni n₃ hsame hnot h
      exact (hlists n₃ (hkept _ _ _ _ _ hsame hnot h)).mpr hne

end Prediction

/-! ## In the small town -/

/-- A user at the crossing on its way to `node/2`, which fills up by one person a second. -/
def sampleWalker : MyUser ℕ :=
  { samplePerson 0 with
    increaseRate := .ofList [(nodeID 2, 1)]
    isDijkstra := false
    user := { (samplePerson 0).user with
      shortest := [1, 2]
      exitnode := nodeID 2
      exitDistanceMap := .ofList [(nodeID 1, 10), (nodeID 2, 0)] } }

def sampleCorner : WayNode ℕ := (sampleRoads.find 1).getD .new

def sampleForecasts : UserConfig := { sampleSettings with useexitinfo := true }

/-- `TaskOfCrossing` at the corner, and the target of the search that follows. -/
def sampleTask (n : MyUser ℕ) : Option (MyUser ℕ) :=
  taskOfCrossing sampleForecasts sampleTown 0 sampleEvacuation.building n sampleCorner

theorem sampleWalker_predicts :
    PredictsFull sampleForecasts sampleTown 0 sampleEvacuation.building sampleWalker sampleCorner := by
  have hforecast : (forecast sampleForecasts sampleTown 0 sampleEvacuation.building sampleWalker
      sampleCorner).1.map Forecast.remainingCapacityArrival = some (-9) := by decide +kernel
  obtain ⟨f, hf, hroom⟩ := Option.map_eq_some_iff.mp hforecast
  refine .inl ⟨rfl, by decide +kernel, f, hf, ?_⟩
  rw [hroom]
  decide

theorem predicted_avoided_iff_sample : ∃ n' n₁, sampleTask sampleWalker = some n' ∧
    SameShelters n₁ n' ∧ n₁.user.graph = sampleRoads ∧
    (newTarget sampleTown n₁ 1 ≠ some (nodeID 2) ∧
        (sampleWalker.outlook.Open (nodeID 2) →
          OpenOnceClear sampleForecasts sampleTown n' (nodeID 2)) ↔
      ¬ Foremost sampleTown sampleRoads 1 .empty
          (fun e => e ∈ sampleExits.entries ∧ KnownExit.id e ≠ crossingID sampleTown sampleCorner)
          (nodeID 2) ∧
        (sampleWalker.outlook.Open (nodeID 2) →
          nodeID 2 ≠ crossingID sampleTown sampleCorner)) := by
  have htask : (sampleTask sampleWalker).isSome = true := by decide +kernel
  obtain ⟨n', hn'⟩ := Option.isSome_iff_exists.mp htask
  have hcorner : sampleRoads.find 1 ≠ none := by decide
  exact ⟨n', { n' with user := { n'.user with graph := sampleRoads } }, hn', ⟨rfl, rfl⟩, rfl,
    predicted_avoided_iff (fun _ => rfl) hn' sampleWalker_predicts ⟨rfl, rfl⟩ sampleRoads_onMap
      sampleRoads_nonneg hcorner⟩

/-- The search sends the user to the shelter it was predicted to find full. -/
theorem predicted_chosen_again :
    PredictsFull sampleForecasts sampleTown 0 sampleEvacuation.building sampleWalker
        sampleCorner ∧
      ∃ n', sampleTask sampleWalker = some n' ∧ n'.isDijkstra = true ∧
        newTarget sampleTown n' 1 = some sampleWalker.user.exitnode := by
  refine ⟨sampleWalker_predicts, ?_⟩
  have htask : (sampleTask sampleWalker).map (fun n => (n.isDijkstra, newTarget sampleTown n 1)) =
      some (true, some (nodeID 2)) := by decide +kernel
  obtain ⟨n', hn', hview⟩ := Option.map_eq_some_iff.mp htask
  obtain ⟨hdue, htarget⟩ := Prod.ext_iff.mp hview
  exact ⟨n', hn', hdue, htarget⟩

end Ns3.Ferry2
