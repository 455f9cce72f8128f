import Ns3.Ferry2.PatrolRoute

/-!
# Which patrol routes are nearest-first tours

The search compares a distance with the one it has found, in the order of the
names, and starts from the greatest `double` and the empty name; it finds the
least pair of a distance and a name, this first pair among them
(`nearestOf_spec`). `ClearTour` says that it is never this first pair that is found
in place of a shelter. Then the route is a tour of all exits, and only then
(`isPatrol_iff_clearTour`).
-/

namespace Ns3.Ferry2

open Ns3.Lib

variable {t t' : ExitNodeDistances} {b b' : PatrolBuilding} {cur c n : String}
  {unvisited route r : List String} {k : ℕ} {d : ℚ}

namespace ExitNodeDistances

def dist (t : ExitNodeDistances) (a b : String) : ℚ := (t.at? a b).getD 0

/-- A finite distance for any two exits. -/
def Finite (t : ExitNodeDistances) : Prop :=
  ∀ a ∈ t.keys, ∀ b ∈ t.keys, ∃ d ≤ maxWeight, t.at? a b = some d

theorem at?_eq (h : t.at? cur c = some d) :
    ∃ row, t.find cur = some row ∧ row.find c = some d := Option.bind_eq_some_iff.mp h

/-- A read of what is there puts nothing in. -/
theorem index_of_at? (h : t.at? cur c = some d) : t.index cur c = (d, t) := by
  obtain ⟨row, hrow, hd⟩ := at?_eq h
  unfold index
  dsimp only
  rw [hrow, Option.getD_some, hd, Option.getD_some, StdMap.assign_find_self hd,
    StdMap.assign_find_self hrow]

theorem Finite.at? (h : t.Finite) (ha : cur ∈ t.keys) (hc : c ∈ t.keys) :
    t.at? cur c = some (t.dist cur c) := by
  obtain ⟨d, -, hd⟩ := h cur ha c hc
  unfold dist
  rw [hd]
  rfl

theorem Finite.dist_le (h : t.Finite) (ha : cur ∈ t.keys) (hc : c ∈ t.keys) :
    t.dist cur c ≤ maxWeight := by
  obtain ⟨d, hle, hd⟩ := h cur ha c hc
  unfold dist
  rwa [hd]

end ExitNodeDistances

open ExitNodeDistances

/-! ## The search -/

/-- A stop as the search compares it. -/
def stopKey (t : ExitNodeDistances) (cur c : String) : ℚ ×ₗ String := toLex (t.dist cur c, c)

def NearestSearch.key (s : NearestSearch) : ℚ ×ₗ String := toLex (s.minDist, s.nearestShelter)

theorem empty_le (c : String) : "" ≤ c := by
  refine not_lt.mp fun hlt => ?_
  rw [String.lt_iff_toList_lt] at hlt
  exact List.not_lt_nil _ hlt

theorem foldl_compare (ht : t.Finite) (hcur : cur ∈ t.keys) (hU : ∀ c ∈ unvisited, c ∈ t.keys)
    (hsorted : unvisited.Pairwise (· < ·)) {s : NearestSearch} (hs : s.table = t)
    (hfirst : ∀ c ∈ unvisited, s.nearestShelter ≤ c) :
    (unvisited.foldl (NearestSearch.compare cur) s).table = t ∧
    ((unvisited.foldl (NearestSearch.compare cur) s).key = s.key ∨
      ∃ c ∈ unvisited, (unvisited.foldl (NearestSearch.compare cur) s).key = stopKey t cur c) ∧
    (unvisited.foldl (NearestSearch.compare cur) s).key ≤ s.key ∧
    ∀ c ∈ unvisited, (unvisited.foldl (NearestSearch.compare cur) s).key ≤ stopKey t cur c := by
  induction unvisited generalizing s with
  | nil => exact ⟨hs, .inl rfl, le_rfl, fun c hc => by cases hc⟩
  | cons c unvisited ih =>
    obtain ⟨hc, hrest⟩ := List.pairwise_cons.mp hsorted
    have hread := index_of_at? (ht.at? hcur (hU c List.mem_cons_self))
    rw [List.foldl_cons]
    have hUrest : ∀ x ∈ unvisited, x ∈ t.keys := fun x hx => hU x (List.mem_cons_of_mem _ hx)
    rcases lt_or_ge (t.dist cur c) s.minDist with hlt | hge
    · have hstep : s.compare cur c = ⟨t, t.dist cur c, c⟩ := by
        unfold NearestSearch.compare
        rw [hs, hread]
        exact if_pos hlt
      rw [hstep]
      obtain ⟨htab, hmem, hle, hall⟩ := ih hUrest hrest (s := ⟨t, t.dist cur c, c⟩) rfl
        fun x hx => (hc x hx).le
      have hnew : stopKey t cur c ≤ s.key := Prod.Lex.toLex_le_toLex.mpr (.inl hlt)
      refine ⟨htab, .inr ?_, hle.trans hnew, fun x hx => ?_⟩
      · rcases hmem with heq | ⟨x, hx, heq⟩
        · exact ⟨c, List.mem_cons_self, heq⟩
        · exact ⟨x, List.mem_cons_of_mem _ hx, heq⟩
      · rcases List.mem_cons.mp hx with rfl | hx
        · exact hle
        · exact hall x hx
    · have hstep : s.compare cur c = s := by
        unfold NearestSearch.compare
        rw [hs, hread]
        refine (if_neg hge.not_gt).trans ?_
        rw [← hs]
      rw [hstep]
      obtain ⟨htab, hmem, hle, hall⟩ := ih hUrest hrest hs fun x hx =>
        hfirst x (List.mem_cons_of_mem _ hx)
      refine ⟨htab, ?_, hle, fun x hx => ?_⟩
      · rcases hmem with heq | ⟨x, hx, heq⟩
        · exact .inl heq
        · exact .inr ⟨x, List.mem_cons_of_mem _ hx, heq⟩
      · rcases List.mem_cons.mp hx with rfl | hx
        · refine hle.trans (Prod.Lex.toLex_le_toLex.mpr ?_)
          rcases hge.lt_or_eq with hlt | heq
          · exact .inl hlt
          · exact .inr ⟨heq, hfirst x List.mem_cons_self⟩
        · exact hall x hx

/-- The first of the nearest unvisited exits, one that the search can find. -/
structure Next (t : ExitNodeDistances) (cur : String) (unvisited : List String) (c : String) :
    Prop where
  mem : c ∈ unvisited
  least : ∀ x ∈ unvisited, stopKey t cur c ≤ stopKey t cur x
  found : t.dist cur c < maxWeight ∨ c = ""

theorem Next.nearest (h : Next t cur unvisited c) (hc : n ∈ unvisited) :
    t.dist cur c ≤ t.dist cur n := by
  rcases Prod.Lex.toLex_le_toLex.mp (h.least n hc) with hlt | ⟨heq, -⟩
  · exact hlt.le
  · exact heq.le

theorem Next.eq (h : Next t cur unvisited c) (h' : Next t cur unvisited n) : c = n := by
  have heq := le_antisymm (h.least n h'.mem) (h'.least c h.mem)
  exact congrArg (fun p => (ofLex p).2) heq

/-- The search finds the next exit if there is one, and else the empty name, which is not one. -/
theorem nearestOf_spec (ht : t.Finite) (hcur : cur ∈ t.keys) (hU : ∀ c ∈ unvisited, c ∈ t.keys)
    (hsorted : unvisited.Pairwise (· < ·)) :
    (nearestOf t cur unvisited).table = t ∧
    (Next t cur unvisited (nearestOf t cur unvisited).nearestShelter ∨
      (nearestOf t cur unvisited).nearestShelter = "" ∧ "" ∉ unvisited ∧
        ∀ c, ¬ Next t cur unvisited c) := by
  obtain ⟨htab, hmem, hle, hall⟩ := foldl_compare ht hcur hU hsorted (s := .start t) rfl
    fun c _ => empty_le c
  generalize hs : nearestOf t cur unvisited = s
  unfold nearestOf at hs
  rw [hs] at htab hmem hle hall
  refine ⟨htab, ?_⟩
  rcases hmem with hstart | ⟨c, hc, hkey⟩
  · have hnearest : s.nearestShelter = "" := congrArg (fun p => (ofLex p).2) hstart
    have hmax : ∀ x ∈ unvisited, maxWeight ≤ t.dist cur x := by
      intro x hx
      have hx' := hall x hx
      rw [hstart] at hx'
      rcases Prod.Lex.toLex_le_toLex.mp hx' with hlt | ⟨heq, -⟩
      · exact hlt.le
      · exact heq.le
    by_cases hempty : "" ∈ unvisited
    · left
      rw [hnearest]
      have hdist := le_antisymm (ht.dist_le hcur (hU _ hempty)) (hmax _ hempty)
      refine ⟨hempty, fun x hx => ?_, .inr rfl⟩
      have hx' := hall x hx
      rw [hstart] at hx'
      unfold stopKey
      rw [hdist]
      exact hx'
    · refine .inr ⟨hnearest, hempty, fun c hc => ?_⟩
      rcases hc.found with hlt | rfl
      · exact absurd hlt (hmax c hc.mem).not_gt
      · exact hempty hc.mem
  · left
    have hnearest : s.nearestShelter = c := congrArg (fun p => (ofLex p).2) hkey
    rw [hnearest]
    rw [hkey] at hle hall
    refine ⟨hc, hall, ?_⟩
    rcases Prod.Lex.toLex_le_toLex.mp hle with hlt | ⟨-, hname⟩
    · exact .inl hlt
    · exact .inr (le_antisymm hname (empty_le c))

/-! ## The loop -/

/-- From each stop the search finds the next one. -/
inductive ClearTour (t : ExitNodeDistances) : String → List String → Prop
  | done {cur : String} : ClearTour t cur []
  | next {cur c : String} {unvisited : List String} (hnext : Next t cur unvisited c)
      (hrest : ClearTour t c (unvisited.erase c)) : ClearTour t cur unvisited

/-- Each stop is the nearest to the one before, of those that come after it. -/
def NearestFirst (t : ExitNodeDistances) : List String → Prop
  | a :: b :: route => (∀ c ∈ route, t.dist a b ≤ t.dist a c) ∧ NearestFirst t (b :: route)
  | _ => True

theorem patrolLoop_prefix (h : patrolLoop k t cur unvisited route = some (t', r)) :
    route <+: r := by
  induction k generalizing t cur unvisited route with
  | zero => cases h
  | succ k ih =>
    unfold patrolLoop at h
    split_ifs at h with hU
    · cases h
      exact List.prefix_refl _
    · exact (List.prefix_append _ _).trans (ih h)

theorem erase_sorted (hsorted : unvisited.Pairwise (· < ·)) :
    (unvisited.erase c).Pairwise (· < ·) := hsorted.sublist List.erase_sublist

/-- In a table in which every search finds the next stop, the loop ends with a tour. -/
theorem patrolLoop_of_clearTour (ht : t.Finite) (hcur : cur ∈ t.keys)
    (hU : ∀ c ∈ unvisited, c ∈ t.keys) (hsorted : unvisited.Pairwise (· < ·))
    (h : ClearTour t cur unvisited) (route : List String) :
    ∃ k rest, patrolLoop k t cur unvisited route = some (t, route ++ rest) ∧
      rest.Perm unvisited ∧ NearestFirst t (cur :: rest) := by
  induction h generalizing route with
  | done => exact ⟨1, [], by rw [List.append_nil]; rfl, .nil, trivial⟩
  | @next cur c unvisited hnext _ ih =>
    obtain ⟨htab, hfound⟩ := nearestOf_spec ht hcur hU hsorted
    have hnearest : (nearestOf t cur unvisited).nearestShelter = c := by
      rcases hfound with hn | ⟨-, -, hnone⟩
      · exact hn.eq hnext
      · exact absurd hnext (hnone c)
    obtain ⟨k, rest, hloop, hperm, htour⟩ := ih (hU c hnext.mem)
      (fun x hx => hU x (List.mem_of_mem_erase hx)) (erase_sorted hsorted) (route ++ [c])
    refine ⟨k + 1, c :: rest, ?_, ?_, ?_, htour⟩
    · unfold patrolLoop
      rw [if_neg (List.ne_nil_of_mem hnext.mem)]
      dsimp only
      rw [htab, hnearest, hloop, List.append_assoc]
      rfl
    · exact (hperm.cons c).trans (List.perm_cons_erase hnext.mem).symm
    · intro x hx
      exact hnext.nearest (List.mem_of_mem_erase (hperm.subset hx))

/-- A loop that ends with all exits, each of them once, has found each of them. -/
theorem clearTour_of_patrolLoop (ht : t.Finite) (hcur : cur ∈ t.keys)
    (hU : ∀ c ∈ unvisited, c ∈ t.keys) (hsorted : unvisited.Pairwise (· < ·))
    (h : patrolLoop k t cur unvisited route = some (t', r)) (hperm : r.Perm (route ++ unvisited))
    (hnodup : r.Nodup) : ClearTour t cur unvisited := by
  induction k generalizing cur unvisited route with
  | zero => cases h
  | succ k ih =>
    unfold patrolLoop at h
    split_ifs at h with hnil
    · rw [hnil]
      exact .done
    dsimp only at h
    obtain ⟨htab, hfound⟩ := nearestOf_spec ht hcur hU hsorted
    rw [htab] at h
    rcases hfound with hnext | ⟨hempty, hnot, -⟩
    · refine .next hnext (ih (hU _ hnext.mem) (fun x hx => hU x (List.mem_of_mem_erase hx))
        (erase_sorted hsorted) h (hperm.trans ?_))
      rw [List.append_assoc]
      exact (List.perm_cons_erase hnext.mem).append_left route
    · -- the empty name is pushed, and is in the route twice
      rw [hempty] at h
      have hpre := patrolLoop_prefix h
      have hmem : "" ∈ route := by
        have hr := hperm.subset (hpre.subset (List.mem_append_right route List.mem_cons_self))
        exact (List.mem_append.mp hr).resolve_right hnot
      have hdup := hnodup.sublist hpre.sublist
      exact absurd rfl ((List.nodup_append.mp hdup).2.2 "" hmem "" List.mem_cons_self)

/-! ## The lap -/

theorem legsDistance_isSome (ht : t.Finite) (hroute : ∀ c ∈ route, c ∈ t.keys) (total : ℚ) :
    (legsDistance t total route).isSome := by
  induction route generalizing total with
  | nil => rfl
  | cons a route ih =>
    cases route with
    | nil => rfl
    | cons b route =>
      unfold legsDistance
      rw [ht.at? (hroute a List.mem_cons_self)
        (hroute b (List.mem_cons_of_mem _ List.mem_cons_self))]
      exact ih (fun c hc => hroute c (List.mem_cons_of_mem _ hc)) _

/-- Every distance that is added up is in the table. -/
theorem lapDistance_isSome (ht : t.Finite) (hroute : ∀ c ∈ cur :: route, c ∈ t.keys) :
    (lapDistance t (cur :: route)).isSome := by
  obtain ⟨total, htotal⟩ := Option.isSome_iff_exists.mp (legsDistance_isSome ht hroute 0)
  have hlast := List.getLast?_eq_some_getLast (List.cons_ne_nil cur route)
  have hd := ht.at? (hroute _ (List.getLast_mem (List.cons_ne_nil cur route)))
    (hroute cur List.mem_cons_self)
  unfold lapDistance
  rw [htotal, hlast]
  show ((t.at? _ cur).bind _).isSome = true
  rw [hd]
  rfl

/-! ## The tour -/

/-- The route starts at `start`, has each of the exits once, and goes to a nearest one of those that
it has not been to. -/
structure IsPatrol (t : ExitNodeDistances) (exits : List String) (start : String)
    (route : List String) : Prop where
  head : route.head? = some start
  perm : route.Perm exits
  nearest : ∀ visited a b rest, route = visited ++ a :: b :: rest →
    ∀ c ∈ exits, c ∉ visited ++ [a] → t.dist a b ≤ t.dist a c

theorem NearestFirst.suffix {visited : List String} (h : NearestFirst t (visited ++ route)) :
    NearestFirst t route := by
  induction visited with
  | nil => exact h
  | cons a visited ih =>
    apply ih
    cases hv : visited ++ route with
    | nil => trivial
    | cons b rest =>
      rw [List.cons_append, hv] at h
      exact h.2

theorem NearestFirst.isPatrol {exits : List String} (h : NearestFirst t (cur :: route))
    (hperm : (cur :: route).Perm exits) : IsPatrol t exits cur (cur :: route) := by
  refine ⟨rfl, hperm, ?_⟩
  intro visited a b rest hroute c hc hnew
  have htail : NearestFirst t (a :: b :: rest) := (hroute ▸ h).suffix
  have hmem := hperm.symm.subset hc
  rw [hroute, List.append_cons] at hmem
  rcases List.mem_cons.mp ((List.mem_append.mp hmem).resolve_left hnew) with rfl | hrest
  · exact le_rfl
  · exact htail.1 c hrest

/-- The unvisited exits at the start of the loop. -/
theorem perm_start (hstart : cur ∈ t.keys) :
    (cur :: t.keys.filter (· ≠ cur)).Perm t.keys := by
  have herase : t.keys.filter (· ≠ cur) = t.keys.erase cur := by
    rw [(StdMap.keys_nodup t).erase_eq_filter]
    refine List.filter_congr fun c _ => ?_
    by_cases hc : c = cur <;> simp [hc]
  rw [herase]
  exact (List.perm_cons_erase hstart).symm

section

variable (hstart : b.startNode = some cur) (hmem : cur ∈ b.exitNodeDistances.keys)
  (hfinite : b.exitNodeDistances.Finite)
include hstart hmem hfinite

theorem clearTour_of_isPatrol (hb : b.calculatePatrolRoute k = some b')
    (hpatrol : IsPatrol b.exitNodeDistances b.exitNodeDistances.keys cur b'.patrolRoute) :
    ClearTour b.exitNodeDistances cur (b.exitNodeDistances.keys.filter (· ≠ cur)) := by
  obtain ⟨start, hs, hb⟩ := Option.bind_eq_some_iff.mp hb
  obtain rfl : cur = start := Option.some.inj (hstart.symm.trans hs)
  obtain ⟨⟨t', r⟩, hloop, hb⟩ := Option.bind_eq_some_iff.mp hb
  obtain ⟨total, -, hb⟩ := Option.bind_eq_some_iff.mp hb
  cases hb
  refine clearTour_of_patrolLoop hfinite hmem (fun c hc => (List.mem_filter.mp hc).1)
    ((StdMap.keys_sorted _).sublist List.filter_sublist) hloop
    (hpatrol.perm.trans (perm_start hmem).symm) ?_
  exact hpatrol.perm.nodup_iff.mpr (StdMap.keys_nodup _)

theorem isPatrol_of_clearTour
    (hclear : ClearTour b.exitNodeDistances cur (b.exitNodeDistances.keys.filter (· ≠ cur))) :
    ∃ k b', b.calculatePatrolRoute k = some b' ∧
      IsPatrol b.exitNodeDistances b.exitNodeDistances.keys cur b'.patrolRoute := by
  obtain ⟨k, rest, hloop, hrest, htour⟩ := patrolLoop_of_clearTour hfinite hmem
    (fun c hc => (List.mem_filter.mp hc).1)
    ((StdMap.keys_sorted _).sublist List.filter_sublist) hclear [cur]
  have hroute : (cur :: rest).Perm b.exitNodeDistances.keys :=
    (hrest.cons cur).trans (perm_start hmem)
  obtain ⟨total, htotal⟩ := Option.isSome_iff_exists.mp
    (lapDistance_isSome hfinite fun c hc => hroute.subset hc)
  refine ⟨k, { b with ferryStart := cur, patrolRoute := cur :: rest }, ?_, htour.isPatrol hroute⟩
  unfold PatrolBuilding.calculatePatrolRoute
  rw [hstart, Option.bind_eq_bind, Option.bind_some]
  dsimp only
  rw [hloop]
  show (lapDistance _ _).bind _ = _
  rw [List.singleton_append, htotal]
  rfl

end

/-! ## The table of `SetExitNodeDistance` -/

variable {distance : String → String → ℚ}

theorem find_fillDistances (hempty : b.exitNodeDistances = .empty) :
    (b.fillDistances distance).exitNodeDistances.find cur =
      (b.exitNodes.find cur).map fun _ =>
        b.exitNodes.filterMap fun y _ => some (distance cur y) := by
  rw [← StdMap.find_ofList_keys b.exitNodes
    (fun x => b.exitNodes.filterMap fun y _ => some (distance x y))]
  unfold PatrolBuilding.fillDistances StdMap.ofList
  rw [hempty, List.foldl_map]

/-- The table that is set once is finite if the distances are. -/
theorem finite_fillDistances (hempty : b.exitNodeDistances = .empty)
    (hdist : ∀ x y, distance x y ≤ maxWeight) :
    (b.fillDistances distance).exitNodeDistances.Finite := by
  intro x hx y hy
  obtain ⟨row, hrow⟩ := StdMap.mem_keys.mp hx
  obtain ⟨row', hrow'⟩ := StdMap.mem_keys.mp hy
  rw [find_fillDistances hempty] at hrow hrow'
  obtain ⟨_, -, rfl⟩ := Option.map_eq_some_iff.mp hrow
  obtain ⟨space, hspace, -⟩ := Option.map_eq_some_iff.mp hrow'
  refine ⟨distance x y, hdist x y, ?_⟩
  unfold ExitNodeDistances.at?
  rw [find_fillDistances hempty, hrow, Option.bind_some, StdMap.find_filterMap, hspace]
  rfl

/-! ## Examples -/

/-- The first exit is the start. -/
def sampleBuilding (distance : String → String → ℚ) (exits : List String) : PatrolBuilding :=
  PatrolBuilding.fillDistances distance
    { setexitAutoflag := true
      exitNodes := .ofList (exits.map (·, 10))
      exitNodeDistances := .empty
      ferryStart := ""
      patrolRoute := [] }

/-- `b` is out of the way. -/
def sampleDistance (x y : String) : ℚ :=
  if x = y then 0 else if x = "b" ∨ y = "b" then 3 else 1

theorem sampleDistance_le (x y : String) : sampleDistance x y ≤ maxWeight := by
  have h : (3 : ℚ) ≤ maxWeight := by decide +kernel
  unfold sampleDistance
  split
  · exact le_trans (by decide) h
  split
  · exact h
  · exact le_trans (by decide) h

theorem clearTour_sample :
    ClearTour (sampleBuilding sampleDistance ["a", "b", "c"]).exitNodeDistances "a" ["b", "c"] := by
  refine .next (c := "c") ⟨by decide, by decide +kernel, .inl (by decide +kernel)⟩ ?_
  refine .next (c := "b") ⟨by decide, by decide +kernel, .inl (by decide +kernel)⟩ ?_
  exact .done

end Ns3.Ferry2
