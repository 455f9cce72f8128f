import Ns3.Internet.GlobalRouteManager

/-!
# The links back to a network

With no previous link `SPFGetNextLink` returns the first link to the vertex; with
any previous link it returns the third (`spfGetNextLink_next`). So a walk over the
links gets at most one of two, and never ends where there are three.
-/

namespace Ns3.Internet

open Ns3.Lib

/-! ## What is returned -/

/-- The places, counted from `i`, of the records with a link identifier. -/
def placesOf (vertexId : UInt32) (i : ℕ) (ls : List GlobalRoutingLinkRecord) : List ℕ :=
  ((ls.zipIdx i).filter fun r => r.1.linkId = vertexId).map Prod.snd

/-- The links of `w` that point to `v`, in order. -/
def linksTo (w v : SPFVertex) : List ℕ := placesOf v.vertexId 0 w.lsa.linkRecords

theorem length_placesOf (vertexId : UInt32) (i : ℕ) (ls : List GlobalRoutingLinkRecord) :
    (placesOf vertexId i ls).length = ls.countP fun l => l.linkId = vertexId := by
  induction ls generalizing i with
  | nil => rfl
  | cons l ls ih =>
    have htail := ih (i + 1)
    unfold placesOf at htail ⊢
    by_cases hl : l.linkId = vertexId
    · simpa [hl] using htail
    · simpa [hl] using htail

/-- How many links the two flags pass over. -/
def passedOver (skip foundPrevLink : Bool) : ℕ := skip.toNat + (!foundPrevLink).toNat

theorem nextLinkLoop_eq (vertexId : UInt32) (skip foundPrevLink : Bool) (i : ℕ)
    (ls : List GlobalRoutingLinkRecord) :
    nextLinkLoop vertexId skip foundPrevLink i ls =
      (placesOf vertexId i ls)[passedOver skip foundPrevLink]? := by
  induction ls generalizing skip foundPrevLink i with
  | nil => rfl
  | cons l ls ih =>
    unfold nextLinkLoop
    rw [ih, ih, ih]
    by_cases hl : l.linkId = vertexId
    · have hcons : placesOf vertexId i (l :: ls) = i :: placesOf vertexId (i + 1) ls := by
        simp [placesOf, hl]
      rw [if_pos hl, hcons]
      cases skip <;> cases foundPrevLink <;> rfl
    · have hcons : placesOf vertexId i (l :: ls) = placesOf vertexId (i + 1) ls := by
        simp [placesOf, hl]
      rw [if_neg hl, hcons]

theorem spfGetNextLink_first (w v : SPFVertex) :
    spfGetNextLink w v none = (linksTo w v)[0]? := nextLinkLoop_eq _ _ _ _ _

/-- Whatever the previous link, the third link is returned. -/
theorem spfGetNextLink_next (w v : SPFVertex) (i : ℕ) :
    spfGetNextLink w v (some i) = (linksTo w v)[2]? := nextLinkLoop_eq _ _ _ _ _

/-! ## Walks over the links -/

/-- A walk from the first link on, with the links that it gets. -/
def linkWalk (fuel : ℕ) (w v : SPFVertex) : Option (List ℕ) :=
  (whileLoop (fun s : Option ℕ × List ℕ => s.1.isSome)
    (fun s => some (spfGetNextLink w v s.1, s.2 ++ s.1.toList))
    fuel (spfGetNextLink w v none, [])).map Prod.snd

section Loops

variable {α : Type} {f : Option ℕ × α → Option (Option ℕ × α)} {fuel i : ℕ} {x y : α}

theorem whileLoop_no_link (hfuel : 0 < fuel) :
    whileLoop (fun s : Option ℕ × α => s.1.isSome) f fuel (none, x) = some (none, x) := by
  obtain ⟨n, rfl⟩ : ∃ n, fuel = n + 1 := ⟨fuel - 1, by omega⟩
  exact whileLoop_exit rfl

theorem whileLoop_one_link (hf : f (some i, x) = some (none, y)) (hfuel : 1 < fuel) :
    whileLoop (fun s : Option ℕ × α => s.1.isSome) f fuel (some i, x) = some (none, y) := by
  obtain ⟨n, rfl⟩ : ∃ n, fuel = n + 1 := ⟨fuel - 1, by omega⟩
  rw [whileLoop_step rfl hf]
  exact whileLoop_no_link (by omega)

end Loops

variable {w v : SPFVertex} {fuel : ℕ}

/-- Of two links the walk gets the first. -/
theorem linkWalk_of_le_two (h : (linksTo w v).length ≤ 2) (hfuel : 1 < fuel) :
    linkWalk fuel w v = some ((linksTo w v).take 1) := by
  unfold linkWalk
  rw [spfGetNextLink_first]
  cases hlinks : linksTo w v with
  | nil =>
    rw [List.getElem?_nil, whileLoop_no_link (by omega)]
    rfl
  | cons i is =>
    have hnext : spfGetNextLink w v (some i) = none := by
      rw [spfGetNextLink_next]
      exact List.getElem?_eq_none h
    rw [List.getElem?_cons_zero, whileLoop_one_link (y := [i]) (by simp [hnext]) hfuel]
    rfl

theorem first_isSome (h : 0 < (linksTo w v).length) : (spfGetNextLink w v none).isSome = true := by
  rw [spfGetNextLink_first, List.getElem?_eq_getElem h]
  rfl

theorem next_isSome (h : 2 < (linksTo w v).length) (i : ℕ) :
    (spfGetNextLink w v (some i)).isSome = true := by
  rw [spfGetNextLink_next, List.getElem?_eq_getElem h]
  rfl

/-- From three links on the walk has no end. -/
theorem linkWalk_of_three (h : 2 < (linksTo w v).length) : linkWalk fuel w v = none := by
  refine Option.map_eq_none_iff.mpr
    (whileLoop_diverges (P := fun s => s.1.isSome = true) (fun s hs => hs) ?_ ?_)
  · rintro ⟨l, seen⟩ s' hs hrun
    obtain ⟨i, rfl⟩ := Option.isSome_iff_exists.mp hs
    cases hrun
    exact next_isSome h i
  · exact first_isSome (by omega)

/-! ## The loop of the next hop calculation -/

/-- An exit leaves the links alone. -/
@[simp] theorem linksTo_setRootExitDirection (nextHop id : UInt32) :
    linksTo (w.setRootExitDirection nextHop id) v = linksTo w v := rfl

/-- A link to `v` is a record of `w`. -/
theorem exists_record {i : ℕ} (hi : i ∈ linksTo w v) :
    ∃ l, w.lsa.linkRecords[i]? = some l ∧ l.linkId = v.vertexId := by
  unfold linksTo placesOf at hi
  obtain ⟨⟨l, j⟩, hmem, rfl⟩ := List.mem_map.mp hi
  obtain ⟨hrec, hl⟩ := List.mem_filter.mp hmem
  exact ⟨l, List.mk_mem_zipIdx_iff_getElem?.mp hrec, of_decide_eq_true hl⟩

/-- Of two links, the first gives the next hop. -/
theorem nextHopLoop_of_le_two {exit : UInt32 × UInt32} (hexit : v.getRootExitDirection = some exit)
    (h : (linksTo w v).length ≤ 2) (hfuel : 1 < fuel) :
    nextHopLoop fuel v w = some (((linksTo w v).head?.bind fun i => w.lsa.linkRecords[i]?).elim w
      fun l => w.setRootExitDirection l.linkData exit.2) := by
  unfold nextHopLoop
  rw [spfGetNextLink_first]
  cases hlinks : linksTo w v with
  | nil =>
    rw [List.getElem?_nil, whileLoop_no_link (by omega)]
    rfl
  | cons i is =>
    obtain ⟨l, hl, -⟩ := exists_record (w := w) (v := v) (i := i) (by simp [hlinks])
    have hnext : spfGetNextLink (w.setRootExitDirection l.linkData exit.2) v (some i) = none := by
      rw [spfGetNextLink_next]
      exact List.getElem?_eq_none h
    rw [List.getElem?_cons_zero,
      whileLoop_one_link (y := w.setRootExitDirection l.linkData exit.2)
        (by simp [hl, hexit, hnext]) hfuel]
    simp [hl]

/-- From three links on the loop has no end. -/
theorem nextHopLoop_of_three (h : 2 < (linksTo w v).length) : nextHopLoop fuel v w = none := by
  refine Option.map_eq_none_iff.mpr
    (whileLoop_diverges (P := fun s => s.1.isSome = true ∧ linksTo s.2 v = linksTo w v)
      (fun s hs => hs.1) ?_ ?_)
  · rintro ⟨link, w'⟩ s' ⟨hs, hlinks⟩ hrun
    obtain ⟨i, rfl⟩ := Option.isSome_iff_exists.mp hs
    simp only [Option.bind_eq_bind, Option.bind_eq_some_iff] at hrun
    obtain ⟨l, -, exit, -, hs'⟩ := hrun
    cases hs'
    exact ⟨next_isSome (by rw [linksTo_setRootExitDirection, hlinks]; exact h) i, hlinks⟩
  · exact ⟨first_isSome (by omega), rfl⟩

/-! ## When every link is found -/

/-- The walk gets every link of `w` to `v` once and in order, and the loop over them ends. -/
def FindsLinks (w v : SPFVertex) : Prop :=
  ∃ rounds, ∀ fuel, rounds < fuel → linkWalk fuel w v = some (linksTo w v) ∧
    (v.getRootExitDirection.isSome → (nextHopLoop fuel v w).isSome)

/-- The links are found exactly where there is at most one. -/
theorem findsLinks_iff (w v : SPFVertex) :
    FindsLinks w v ↔ (w.lsa.linkRecords.countP fun l => l.linkId = v.vertexId) ≤ 1 := by
  have hlength : (w.lsa.linkRecords.countP fun l => l.linkId = v.vertexId) =
      (linksTo w v).length := (length_placesOf _ _ _).symm
  rw [hlength]
  constructor
  · rintro ⟨rounds, hfinds⟩
    obtain ⟨hwalk, -⟩ := hfinds (rounds + 2) (by omega)
    rcases Nat.lt_or_ge 2 (linksTo w v).length with hthree | htwo
    · rw [linkWalk_of_three hthree] at hwalk
      cases hwalk
    · rw [linkWalk_of_le_two htwo (by omega), Option.some_inj] at hwalk
      rw [← hwalk]
      exact List.length_take_le 1 _
  · intro hone
    refine ⟨1, fun fuel hfuel => ⟨?_, fun hexit => ?_⟩⟩
    · rw [linkWalk_of_le_two (by omega) hfuel, List.take_of_length_le hone]
    · obtain ⟨exit, hexit⟩ := Option.isSome_iff_exists.mp hexit
      rw [nextHopLoop_of_le_two hexit (by omega) hfuel]
      rfl

/-- A router with two interfaces at the network `10.1.1.0/24`. -/
def routerTwice : SPFVertex where
  self := 1
  vertexType := .vertexRouter
  vertexId := 0x00000002
  lsa :=
    { linkStateId := 0x00000002, networkLSANetworkMask := 0xffffffff,
      linkRecords := [⟨0x0a010101, 0x0a010102⟩, ⟨0x0a010101, 0x0a010103⟩] }
  distanceFromRoot := 2
  rootOif := 0
  nextHop := 0
  ecmpRootExits := []
  parents := []

/-- The network, next to the root, that the router is at. -/
def transitNetwork : SPFVertex where
  self := 2
  vertexType := .vertexNetwork
  vertexId := 0x0a010101
  lsa := { linkStateId := 0x0a010101, networkLSANetworkMask := 0xffffff00, linkRecords := [] }
  distanceFromRoot := 1
  rootOif := 1
  nextHop := 0
  ecmpRootExits := [(0, 1)]
  parents := [0]

theorem second_link_missed :
    ¬ ∀ w v : SPFVertex, w.vertexType = .vertexRouter → v.vertexType = .vertexNetwork →
      FindsLinks w v := by
  intro h
  obtain ⟨rounds, hfinds⟩ := h routerTwice transitNetwork rfl rfl
  obtain ⟨hwalk, -⟩ := hfinds (rounds + 2) (by omega)
  rw [linkWalk_of_le_two (by decide) (by omega)] at hwalk
  exact absurd hwalk (by decide)

/-- From a network next to the root, to a router with three links to it, the calculation has no
end. -/
theorem spfNexthopCalculation_of_three {find : UInt32 → UInt32 → UInt32} {fuel spfroot : ℕ}
    {v w : SPFVertex} {l : Option GlobalRoutingLinkRecord} {distance : UInt32}
    (hv : v.self ≠ spfroot) (htype : v.vertexType = .vertexNetwork)
    (hparent : v.getParent = some spfroot)
    (hthree : 2 < w.lsa.linkRecords.countP fun l => l.linkId = v.vertexId) :
    spfNexthopCalculation find fuel spfroot v w l distance = none := by
  rw [← length_placesOf v.vertexId 0] at hthree
  unfold spfNexthopCalculation
  rw [if_neg hv, if_pos htype, if_pos hparent, nextHopLoop_of_three hthree]
  rfl

end Ns3.Internet
