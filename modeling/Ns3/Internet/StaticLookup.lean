import Ns3.Internet.Ipv4StaticRouting

/-!
# The longest prefix and the least metric

`LookupStatic` keeps the best route so far, with its prefix length and metric.
It stops at the first route to the destination alone, whatever its metric, so
that among such routes the order in the table decides: `looksUp_iff`.
-/

namespace Ns3.Internet

variable {Dev : Type} [DecidableEq Dev] {ipv4 : Ipv4Interfaces Dev} {m : NetworkRoutes}
  {dest : UInt32} {oif : Option Dev} {p q : Ipv4RoutingTableEntry × UInt32}

/-! ## Prefix lengths -/

theorem prefixLoop_le (fuel : ℕ) (mask : UInt32) (tmp : ℕ) :
    prefixLoop fuel mask tmp ≤ tmp + fuel := by
  induction fuel generalizing mask tmp with
  | zero => exact le_of_eq rfl
  | succ fuel ih =>
    rw [prefixLoop]
    split_ifs
    · omega
    · have := ih (mask <<< 1) (tmp + 1)
      omega

theorem getPrefixLength_le (mask : UInt32) : getPrefixLength mask ≤ 32 := by
  have := prefixLoop_le 32 mask 0
  unfold getPrefixLength
  omega

/-- A contiguous mask has the length of its prefix. -/
theorem getPrefixLength_prefix : ∀ k < 33,
    getPrefixLength (UInt32.ofNat (2 ^ 32 - 2 ^ (32 - k))) = k := by
  decide +kernel

/-! ## The best route -/

/-- A longer prefix, or the same prefix and no greater metric. -/
def Preferred (p q : Ipv4RoutingTableEntry × UInt32) : Prop :=
  getPrefixLength q.1.destNetworkMask < getPrefixLength p.1.destNetworkMask ∨
    (getPrefixLength q.1.destNetworkMask = getPrefixLength p.1.destNetworkMask ∧ p.2 ≤ q.2)

/-- A route of the table that matches and comes before all others that match. -/
structure Best (ipv4 : Ipv4Interfaces Dev) (dest : UInt32) (oif : Option Dev) (m : NetworkRoutes)
    (p : Ipv4RoutingTableEntry × UInt32) : Prop where
  mem : p ∈ m
  candidate : ipv4.isCandidate dest oif p.1
  preferred : ∀ q ∈ m, ipv4.isCandidate dest oif q.1 → Preferred p q

/-- A route is found exactly when one matches, and what is found is that of a best one. -/
structure LooksUp (ipv4 : Ipv4Interfaces Dev) (m : NetworkRoutes) (dest : UInt32)
    (oif : Option Dev) : Prop where
  found : (lookupStatic ipv4 m dest oif).isSome ↔ ∃ p ∈ m, ipv4.isCandidate dest oif p.1
  best : ∀ r, lookupStatic ipv4 m dest oif = some r →
    ∃ p, Best ipv4 dest oif m p ∧ ipv4.routeOf p.1 = r

/-- A route to the destination alone. -/
def IsHost (p : Ipv4RoutingTableEntry × UInt32) : Prop :=
  getPrefixLength p.1.destNetworkMask = 32

instance (p : Ipv4RoutingTableEntry × UInt32) : Decidable (IsHost p) :=
  inferInstanceAs (Decidable (_ = _))

/-- The first matching route to the destination alone, if there is one, gives the same as one that
has the least metric among these. -/
def FirstHostBest (ipv4 : Ipv4Interfaces Dev) (m : NetworkRoutes) (dest : UInt32)
    (oif : Option Dev) : Prop :=
  ∀ before p after, m = before ++ p :: after → ipv4.isCandidate dest oif p.1 → IsHost p →
    (∀ q ∈ before, ipv4.isCandidate dest oif q.1 → ¬ IsHost q) →
      ∃ p' ∈ m, ipv4.isCandidate dest oif p'.1 ∧ IsHost p' ∧ ipv4.routeOf p'.1 = ipv4.routeOf p.1 ∧
        ∀ q ∈ m, ipv4.isCandidate dest oif q.1 → IsHost q → p'.2 ≤ q.2

/-- What the locals say of the routes that were looked at. -/
inductive Seen (ipv4 : Ipv4Interfaces Dev) (dest : UInt32) (oif : Option Dev)
    (seen : NetworkRoutes) : LookupState Dev → Prop
  | nothing (h : ∀ q ∈ seen, ¬ ipv4.isCandidate dest oif q.1) :
      Seen ipv4 dest oif seen ⟨none, 0, 0xffffffff⟩
  | best (p : Ipv4RoutingTableEntry × UInt32) (h : Best ipv4 dest oif seen p) :
      Seen ipv4 dest oif seen
        ⟨some (ipv4.routeOf p.1), getPrefixLength p.1.destNetworkMask, p.2⟩

theorem Preferred.trans {r : Ipv4RoutingTableEntry × UInt32} (h : Preferred p q)
    (h' : Preferred q r) : Preferred p r := by
  unfold Preferred at *
  rcases h with h | ⟨h, hm⟩
  · rcases h' with h' | ⟨h', -⟩
    · exact .inl (by omega)
    · exact .inl (by omega)
  · rcases h' with h' | ⟨h', hm'⟩
    · exact .inl (by omega)
    · exact .inr ⟨by omega, UInt32.le_trans hm hm'⟩

theorem Preferred.refl (p : Ipv4RoutingTableEntry × UInt32) : Preferred p p :=
  .inr ⟨rfl, UInt32.le_refl _⟩

theorem Best.keep (h : Best ipv4 dest oif m p)
    (hq : ipv4.isCandidate dest oif q.1 → Preferred p q) : Best ipv4 dest oif (m ++ [q]) p where
  mem := List.mem_append_left _ h.mem
  candidate := h.candidate
  preferred r hr hc := by
    rcases List.mem_append.mp hr with hr | hr
    · exact h.preferred r hr hc
    · obtain rfl := List.mem_singleton.mp hr
      exact hq hc

theorem Best.replace (hq : ipv4.isCandidate dest oif q.1)
    (h : ∀ r ∈ m, ipv4.isCandidate dest oif r.1 → Preferred q r) :
    Best ipv4 dest oif (m ++ [q]) q where
  mem := List.mem_append_right _ List.mem_cons_self
  candidate := hq
  preferred r hr hc := by
    rcases List.mem_append.mp hr with hr | hr
    · exact h r hr hc
    · obtain rfl := List.mem_singleton.mp hr
      exact Preferred.refl _

/-! ## The loop -/

theorem lookupLoop_skip {rest : NetworkRoutes} {s : LookupState Dev}
    (hq : ¬ ipv4.isCandidate dest oif q.1) :
    lookupLoop ipv4 dest oif (q :: rest) s = lookupLoop ipv4 dest oif rest s := by
  rw [lookupLoop, if_pos hq]

theorem Seen.skip {s : LookupState Dev} (h : Seen ipv4 dest oif m s)
    (hq : ¬ ipv4.isCandidate dest oif q.1) : Seen ipv4 dest oif (m ++ [q]) s := by
  cases h with
  | nothing h =>
    refine .nothing fun r hr => ?_
    rcases List.mem_append.mp hr with hr | hr
    · exact h r hr
    · obtain rfl := List.mem_singleton.mp hr
      exact hq
  | best p h => exact .best p (h.keep fun hc => absurd hc hq)

/-- A matching route is compared with the best one so far; the search goes on behind it, or ends
with it when it is to the destination alone. -/
theorem Seen.next (rest : NetworkRoutes) {s : LookupState Dev} (h : Seen ipv4 dest oif m s)
    (hq : ipv4.isCandidate dest oif q.1)
    (hhost : ∀ r ∈ m, ipv4.isCandidate dest oif r.1 → ¬ IsHost r) :
    (IsHost q ∧ (lookupLoop ipv4 dest oif (q :: rest) s).rtentry = some (ipv4.routeOf q.1)) ∨
      (¬ IsHost q ∧ ∃ s', lookupLoop ipv4 dest oif (q :: rest) s = lookupLoop ipv4 dest oif rest s' ∧
        Seen ipv4 dest oif (m ++ [q]) s') := by
  have hmax : ¬ (0xffffffff : UInt32) < q.2 := by
    rw [UInt32.lt_iff_toNat_lt]
    have := q.2.toNat_lt
    simp
    omega
  -- what happens when the route is taken
  have htake : ∀ {rest' : LookupState Dev},
      (if getPrefixLength q.1.destNetworkMask = 32 then
        (⟨some (ipv4.routeOf q.1), getPrefixLength q.1.destNetworkMask, q.2⟩ : LookupState Dev)
        else lookupLoop ipv4 dest oif rest
          ⟨some (ipv4.routeOf q.1), getPrefixLength q.1.destNetworkMask, q.2⟩) = rest' →
      (∀ r ∈ m, ipv4.isCandidate dest oif r.1 → Preferred q r) →
      (IsHost q ∧ rest'.rtentry = some (ipv4.routeOf q.1)) ∨
      (¬ IsHost q ∧ ∃ s', rest' = lookupLoop ipv4 dest oif rest s' ∧
        Seen ipv4 dest oif (m ++ [q]) s') := by
    rintro rest' rfl hbefore
    by_cases hlen : getPrefixLength q.1.destNetworkMask = 32
    · rw [if_pos hlen]
      exact .inl ⟨hlen, rfl⟩
    · rw [if_neg hlen]
      exact .inr ⟨hlen, _, rfl, .best q (.replace hq hbefore)⟩
  rw [lookupLoop, if_neg (not_not_intro hq)]
  cases h with
  | nothing h =>
    refine htake ?_ fun r hr hc => absurd hc (h r hr)
    simp only [Nat.not_lt_zero, if_false, ite_self, hmax]
  | best p h =>
    have hp := h.preferred
    dsimp only
    rcases Nat.lt_trichotomy (getPrefixLength q.1.destNetworkMask)
      (getPrefixLength p.1.destNetworkMask) with hlt | heq | hgt
    · have hle := getPrefixLength_le p.1.destNetworkMask
      have hnot : ¬ IsHost q := fun hhost => by
        unfold IsHost at hhost
        omega
      rw [if_pos hlt]
      exact .inr ⟨hnot, _, rfl, .best p (h.keep fun _ => .inl hlt)⟩
    · rw [heq, if_neg (Nat.lt_irrefl _), if_neg (Nat.lt_irrefl _), ← heq]
      have hnot : ¬ IsHost q := fun hq => hhost p h.mem h.candidate (heq.symm.trans hq)
      by_cases hm : p.2 < q.2
      · rw [if_pos hm, heq]
        exact .inr ⟨hnot, _, rfl, .best p (h.keep fun _ => .inr ⟨heq, UInt32.le_of_lt hm⟩)⟩
      · rw [if_neg hm]
        have hqp : Preferred q p := .inr ⟨heq.symm, UInt32.not_lt.mp hm⟩
        exact htake rfl fun r hr hc => hqp.trans (hp r hr hc)
    · rw [if_neg (by omega), if_pos hgt, if_neg hmax]
      have hqp : Preferred q p := .inl hgt
      exact htake rfl fun r hr hc => hqp.trans (hp r hr hc)

/-- Without a matching host route the whole table is searched; the first one ends the search. -/
theorem Seen.loop (rest : NetworkRoutes) {s : LookupState Dev} (h : Seen ipv4 dest oif m s)
    (hhost : ∀ r ∈ m, ipv4.isCandidate dest oif r.1 → ¬ IsHost r) :
    ((∀ r ∈ rest, ipv4.isCandidate dest oif r.1 → ¬ IsHost r) →
      Seen ipv4 dest oif (m ++ rest) (lookupLoop ipv4 dest oif rest s)) ∧
    ∀ before p after, rest = before ++ p :: after → ipv4.isCandidate dest oif p.1 → IsHost p →
      (∀ r ∈ before, ipv4.isCandidate dest oif r.1 → ¬ IsHost r) →
        (lookupLoop ipv4 dest oif rest s).rtentry = some (ipv4.routeOf p.1) := by
  induction rest generalizing m s with
  | nil =>
    rw [List.append_nil]
    refine ⟨fun _ => h, fun before p after heq => ?_⟩
    simp at heq
  | cons q rest ih =>
    have hstep : ∀ {s' : LookupState Dev},
        lookupLoop ipv4 dest oif (q :: rest) s = lookupLoop ipv4 dest oif rest s' →
        Seen ipv4 dest oif (m ++ [q]) s' → (ipv4.isCandidate dest oif q.1 → ¬ IsHost q) →
        ((∀ r ∈ q :: rest, ipv4.isCandidate dest oif r.1 → ¬ IsHost r) →
          Seen ipv4 dest oif (m ++ q :: rest) (lookupLoop ipv4 dest oif (q :: rest) s)) ∧
        ∀ before p after, q :: rest = before ++ p :: after → ipv4.isCandidate dest oif p.1 →
          IsHost p → (∀ r ∈ before, ipv4.isCandidate dest oif r.1 → ¬ IsHost r) →
            (lookupLoop ipv4 dest oif (q :: rest) s).rtentry = some (ipv4.routeOf p.1) := by
      intro s' heq hs' hq
      have hm : ∀ r ∈ m ++ [q], ipv4.isCandidate dest oif r.1 → ¬ IsHost r := by
        intro r hr
        rcases List.mem_append.mp hr with hr | hr
        · exact hhost r hr
        · obtain rfl := List.mem_singleton.mp hr
          exact hq
      obtain ⟨hall, hfirst⟩ := ih hs' hm
      rw [heq]
      constructor
      · intro hnone
        have := hall fun r hr => hnone r (List.mem_cons_of_mem _ hr)
        rwa [List.append_assoc, List.singleton_append] at this
      · intro before p after hsplit hp hphost hbefore
        cases before with
        | nil =>
          obtain ⟨rfl, -⟩ := List.cons.inj hsplit
          exact absurd hphost (hq hp)
        | cons b before =>
          obtain ⟨rfl, htail⟩ := List.cons.inj hsplit
          exact hfirst before p after htail hp hphost
            fun r hr => hbefore r (List.mem_cons_of_mem _ hr)
    by_cases hq : ipv4.isCandidate dest oif q.1
    · rcases h.next rest hq hhost with ⟨hqhost, hend⟩ | ⟨hqhost, s', heq, hs'⟩
      · refine ⟨fun hnone => absurd hqhost (hnone q List.mem_cons_self hq), ?_⟩
        intro before p after hsplit hp hphost hbefore
        cases before with
        | nil =>
          obtain ⟨rfl, -⟩ := List.cons.inj hsplit
          exact hend
        | cons b before =>
          obtain ⟨rfl, -⟩ := List.cons.inj hsplit
          exact absurd hqhost (hbefore q List.mem_cons_self hq)
      · exact hstep heq hs' fun _ => hqhost
    · exact hstep (lookupLoop_skip hq) (h.skip hq) fun hc => absurd hc hq

/-! ## The lookup -/

theorem Preferred.host (h : Preferred p q) (hq : IsHost q) : IsHost p ∧ p.2 ≤ q.2 := by
  have hle := getPrefixLength_le p.1.destNetworkMask
  unfold Preferred IsHost at *
  rcases h with h | ⟨h, hm⟩
  · omega
  · exact ⟨h.symm.trans hq, hm⟩

theorem preferred_of_host (hp : IsHost p) (h : IsHost q → p.2 ≤ q.2) : Preferred p q := by
  have hle := getPrefixLength_le q.1.destNetworkMask
  by_cases hq : IsHost q
  · exact .inr ⟨hq.trans hp.symm, h hq⟩
  · refine .inl ?_
    unfold IsHost at hp hq
    omega

/-- The lookup gives the longest prefix and the least metric exactly when the first matching host
route gives what one with the least metric does. -/
theorem looksUp_iff (hdest : isLocalMulticast dest = false) (m : NetworkRoutes) :
    LooksUp ipv4 m dest oif ↔ FirstHostBest ipv4 m dest oif := by
  obtain ⟨hall, hfirst⟩ := (Seen.nothing (by simp) : Seen ipv4 dest oif [] _).loop m (by simp)
  have hlookup : lookupStatic ipv4 m dest oif =
      (lookupLoop ipv4 dest oif m ⟨none, 0, 0xffffffff⟩).rtentry := by
    rw [lookupStatic, hdest]
    rfl
  cases hfind : m.find? fun p => ipv4.isCandidate dest oif p.1 ∧ IsHost p with
  | none =>
    have hnone : ∀ r ∈ m, ipv4.isCandidate dest oif r.1 → ¬ IsHost r := by
      intro r hr hc hhost
      simpa [hc, hhost] using List.find?_eq_none.mp hfind r hr
    have hseen := hall hnone
    rw [List.nil_append] at hseen
    refine iff_of_true ?_ ?_
    · generalize lookupLoop ipv4 dest oif m ⟨none, 0, 0xffffffff⟩ = s at hlookup hseen
      cases hseen with
      | nothing h =>
        refine ⟨?_, fun r hr => ?_⟩
        · rw [hlookup]
          simpa using fun j metric hj => h (j, metric) hj
        · rw [hlookup] at hr
          cases hr
      | best p h =>
        refine ⟨?_, fun r hr => ?_⟩
        · rw [hlookup]
          exact iff_of_true rfl ⟨p, h.mem, h.candidate⟩
        · rw [hlookup] at hr
          exact ⟨p, h, Option.some.inj hr⟩
    · rintro before p after rfl hc hhost -
      exact absurd hhost (hnone p (by simp) hc)
  | some p =>
    obtain ⟨hp, before, after, rfl, hbefore⟩ := List.find?_eq_some_iff_append.mp hfind
    obtain ⟨hc, hhost⟩ := of_decide_eq_true hp
    have hpmem : p ∈ before ++ p :: after := by simp
    have hnot : ∀ r ∈ before, ipv4.isCandidate dest oif r.1 → ¬ IsHost r := by
      intro r hr hrc hrhost
      simpa [hrc, hrhost] using hbefore r hr
    constructor
    · rintro ⟨-, hbest⟩ before' p' after' hsplit hc' hhost' hnot'
      have hp' := hfirst before' p' after' hsplit hc' hhost' hnot'
      obtain ⟨q, hq, hroute⟩ := hbest _ (hlookup.trans hp')
      have hp'mem : p' ∈ before ++ p :: after := by simp [hsplit]
      refine ⟨q, hq.mem, hq.candidate, ((hq.preferred p' hp'mem hc').host hhost').1, hroute, ?_⟩
      exact fun r hr hrc hrhost => ((hq.preferred r hr hrc).host hrhost).2
    · intro hcond
      have hfound := hlookup.trans (hfirst before p after rfl hc hhost hnot)
      obtain ⟨q, hq, hqc, hqhost, hroute, hleast⟩ := hcond before p after rfl hc hhost hnot
      refine ⟨?_, fun r hr => ⟨q, ⟨hq, hqc, fun r hr hrc => ?_⟩, ?_⟩⟩
      · rw [hfound]
        exact iff_of_true rfl ⟨p, hpmem, hc⟩
      · exact preferred_of_host hqhost (hleast r hr hrc)
      · exact hroute.trans (Option.some.inj (hfound.symm.trans hr))

/-! ## A node with two devices -/

def sampleInterfaces : Ipv4Interfaces ℕ where
  getNetDevice interface := interface.toNat
  sourceAddressSelection _ _ := 0x0a000001
  localAddress _ := 0x0a000001

/-- Routes to 10.0.0.0/8 and 10.0.1.0/24. -/
def sampleRoutes : NetworkRoutes :=
  (NetworkRoutes.addNetworkRouteTo [] 0x0a000000 0xff000000 0x0a000002 1 0).addNetworkRouteTo
    0x0a000100 0xffffff00 0x0a000003 2 7

theorem looksUp_sample : LooksUp sampleInterfaces sampleRoutes 0x0a000105 none := by
  refine (looksUp_iff rfl _).mpr ?_
  intro before p after hsplit _ hhost
  have hnone : ∀ q ∈ sampleRoutes, ¬ IsHost q := by decide
  exact absurd hhost (hnone p (by simp [hsplit]))

/-- Two routes to the host 10.0.0.5: the first has metric 10 and is found, the second has 1. -/
theorem not_looksUp : ¬ LooksUp sampleInterfaces
    ((NetworkRoutes.addHostRouteTo [] 0x0a000005 0x0a000002 1 10).addHostRouteTo 0x0a000005
      0x0a000003 2 1) 0x0a000005 none := by
  intro h
  obtain ⟨p, hbest, hroute⟩ := h.best ⟨0x0a000005, 0x0a000001, 0x0a000002, some 1⟩ (by decide)
  have hp := hbest.preferred (⟨0x0a000005, 0xffffffff, 0x0a000003, 2⟩, 1) (by decide) (by decide)
  rcases List.mem_pair.mp hbest.mem with rfl | rfl
  · exact absurd (hp.host (by decide)).2 (by decide)
  · exact absurd (congrArg Ipv4Route.gateway hroute) (by decide)

end Ns3.Internet
