import Ns3.Core.CalendarContent

/-!
# The search for the next event

The time of an event is `width` times its day and something less; the search
goes through the days of one year, from the day of the last event. The least
event is found below the top of its day if this day is in the year
(`search_early`), and as the least of all otherwise (`search_late`). The top of
a day that an event before `2^63` is in does not wrap around, and a top that
does lets fewer events through (`top_lt`).
-/

namespace Ns3.Core

open CalendarScheduler

namespace Calendar

variable {c c' : Calendar} {i j k d : ℕ} {ev next e m : Event} {min : Minimum}

/-! ## The least event -/

structure IsLeast (c : Calendar) (m : Event) : Prop where
  mem : m ∈ c.events
  lt : ∀ e ∈ c.events, e ≠ m → m.key.Lt e.key

theorem exists_least {es : List Event} (h : DifferentUids es) (hne : es ≠ []) :
    ∃ m ∈ es, ∀ e ∈ es, e ≠ m → m.key.Lt e.key := by
  induction es with
  | nil => exact absurd rfl hne
  | cons ev es ih =>
    obtain ⟨hnew, hes⟩ := differentUids_cons.mp h
    rcases eq_or_ne es [] with rfl | hes'
    · exact ⟨ev, List.mem_cons_self, fun e he hnot =>
        absurd (List.mem_singleton.mp he) hnot⟩
    obtain ⟨m, hm, hlt⟩ := ih hes hes'
    by_cases hev : ev.key.Lt m.key
    · refine ⟨ev, List.mem_cons_self, fun e he hnot => ?_⟩
      have he' := (List.mem_cons.mp he).resolve_left hnot
      rcases eq_or_ne e m with rfl | hne
      · exact hev
      · exact hev.trans (hlt e he' hne)
    · refine ⟨m, List.mem_cons_of_mem _ hm, fun e he hnot => ?_⟩
      rcases List.mem_cons.mp he with rfl | he
      · exact EventKey.Lt.of_not hev (hnew m hm).symm
      · exact hlt e he hnot

theorem IsLeast.ts_le (h : c.IsLeast m) (he : e ∈ c.events) : m.key.ts ≤ e.key.ts := by
  rcases eq_or_ne e m with rfl | hne
  · exact le_rfl
  · rcases h.lt e he hne with hlt | ⟨heq, -⟩
    · exact hlt.le
    · exact heq.le

/-- The least event is the next one of its bucket. -/
theorem IsLeast.nextEvent (h : c.IsLeast m) (hc : c.Placed) :
    nextEvent c.reverse (c.bucket (c.hash m.key.ts)) = some m := by
  have hm := hc.mem_bucket.mpr ⟨h.mem, rfl⟩
  obtain ⟨next, hnext⟩ := exists_nextEvent c.reverse hm
  rcases eq_or_ne next m with rfl | hne
  · exact hnext
  · have hlt := nextEvent_least (hc.sorted _) hnext hm hne.symm
    have hmem := (hc.mem_bucket.mp (nextEvent_mem hnext)).1
    exact absurd (hlt.trans (h.lt next hmem hne)) EventKey.Lt.irrefl

/-! ## The state between operations -/

/-- The search starts from the bucket of the last event, and no event is before it. -/
structure Ready (c : Calendar) : Prop where
  placed : c.Placed
  uids : DifferentUids c.events
  width_lt : c.width < 2 ^ 64
  lastPrio_lt : c.lastPrio < 2 ^ 63
  lastBucket : c.lastBucket = c.hash c.lastPrio
  bucketTop : c.bucketTop = (c.lastPrio / c.width + 1) * c.width
  inTime : ∀ e ∈ c.events, c.lastPrio ≤ e.key.ts ∧ e.key.ts < 2 ^ 63

/-- The top of a day up to that of a time. -/
theorem top_lt {width ts q : ℕ} (hw : width < 2 ^ 64) (hts : ts < 2 ^ 63) (hq : q ≤ ts / width) :
    (q + 1) * width < 2 ^ 64 := by
  rcases Nat.eq_zero_or_pos q with rfl | hpos
  · omega
  · have hle : q * width ≤ ts := (Nat.mul_le_mul_right width hq).trans (Nat.div_mul_le_self ts width)
    have hone : 1 * width ≤ q * width := Nat.mul_le_mul_right width hpos
    rw [Nat.add_mul]
    omega

/-! ## Steps of the search -/

/-- The bucket of the `k`-th day of the search. -/
def day (c : Calendar) (k : ℕ) : ℕ := (c.lastPrio / c.width + k) % c.nBuckets

/-- The top of the `k`-th day of the search, as it is computed. -/
def top (c : Calendar) (k : ℕ) : ℕ := (c.lastPrio / c.width + 1 + k) * c.width % 2 ^ 64

theorem Ready.lastBucket_eq (h : c.Ready) : c.lastBucket = c.day 0 := h.lastBucket

theorem Ready.bucketTop_eq (h : c.Ready) : c.bucketTop = c.top 0 := by
  unfold top
  rw [h.bucketTop, Nat.add_zero, Nat.mod_eq_of_lt (top_lt h.width_lt h.lastPrio_lt le_rfl)]

theorem day_succ : (c.day k + 1) % c.nBuckets = c.day (k + 1) := by
  unfold day
  rw [Nat.mod_add_mod, Nat.add_assoc]

theorem top_succ : (c.top k + c.width) % 2 ^ 64 = c.top (k + 1) := by
  unfold top
  rw [Nat.mod_add_mod]
  rw [← Nat.add_assoc, Nat.add_mul _ 1, Nat.one_mul]

theorem day_eq (k : ℕ) : c.day k = (c.day 0 + k) % c.nBuckets := by
  unfold day
  rw [Nat.add_zero, Nat.mod_add_mod]

theorem day_lt (hn : 1 ≤ c.nBuckets) : c.day k < c.nBuckets := Nat.mod_lt _ hn

/-- The search is back at its first bucket after as many steps as there are buckets. -/
theorem day_eq_first (hk : k < c.nBuckets) : c.day (k + 1) = c.day 0 ↔ k + 1 = c.nBuckets := by
  have hlt : c.day 0 < c.nBuckets := day_lt (by omega)
  rw [day_eq (k + 1)]
  generalize c.day 0 = r at hlt
  rcases Nat.lt_or_ge (r + (k + 1)) c.nBuckets with h | h
  · rw [Nat.mod_eq_of_lt h]
    omega
  · rw [Nat.mod_eq_sub_mod h, Nat.mod_eq_of_lt (by omega)]
    omega

/-- The search comes to each bucket. -/
theorem exists_day (hi : i < c.nBuckets) : ∃ j < c.nBuckets, c.day j = i := by
  have hlt : c.day 0 < c.nBuckets := day_lt (by omega)
  rcases Nat.lt_or_ge i (c.day 0) with h | h
  · refine ⟨i + c.nBuckets - c.day 0, by omega, ?_⟩
    rw [day_eq, Nat.add_sub_cancel' (by omega), Nat.add_mod_right, Nat.mod_eq_of_lt hi]
  · refine ⟨i - c.day 0, by omega, ?_⟩
    rw [day_eq, Nat.add_sub_cancel' h, Nat.mod_eq_of_lt hi]

/-- The turn for a bucket from which no event is taken. -/
theorem search_turn (hk : k < c.nBuckets) (hfirst : c.lastBucket = c.day 0)
    (hlate : ∀ next, nextEvent c.reverse (c.bucket (c.day k)) = some next →
      ¬ next.key.ts < c.top k) :
    c.search (c.nBuckets - k) (c.day k) (c.top k) min =
      let min := match nextEvent c.reverse (c.bucket (c.day k)) with
        | some next => min.consider (c.day k) next
        | none => min
      if k + 1 = c.nBuckets then some (.least min)
      else c.search (c.nBuckets - (k + 1)) (c.day (k + 1)) (c.top (k + 1)) min := by
  have hfuel : c.nBuckets - k = c.nBuckets - (k + 1) + 1 := by omega
  rw [hfuel]
  conv_lhs => unfold search
  rw [day_succ, top_succ, hfirst]
  cases hnext : nextEvent c.reverse (c.bucket (c.day k)) with
  | none => simp only [day_eq_first hk]
  | some next => simp only [day_eq_first hk, if_neg (hlate next hnext)]

/-- What the search knows of the least event. -/
def Tracks (c : Calendar) (m : Event) (k : ℕ) (min : Minimum) : Prop :=
  min = ⟨m.key, some (c.hash m.key.ts, m)⟩ ∨
    m.key.Lt min.minKey ∧ ∀ j < k, c.day j ≠ c.hash m.key.ts

/-! ## The result of the search -/

section

variable (hc : c.Ready) (hm : c.IsLeast m)
include hc hm

theorem search_early (hday : k + d = m.key.ts / c.width - c.lastPrio / c.width)
    (hyear : k + d < c.nBuckets) :
    c.search (c.nBuckets - k) (c.day k) (c.top k) min =
      some (.early (c.hash m.key.ts) ((m.key.ts / c.width + 1) * c.width) m) := by
  have hwidth := hc.placed.width_pos
  have hle : c.lastPrio / c.width ≤ m.key.ts / c.width :=
    Nat.div_le_div_right (hc.inTime m hm.mem).1
  induction d generalizing k min with
  | zero =>
    -- the day of the least event
    have hdayk : c.lastPrio / c.width + k = m.key.ts / c.width := by omega
    have hbucket : c.day k = c.hash m.key.ts := by
      unfold day hash
      rw [hdayk]
    have htop : c.top k = (m.key.ts / c.width + 1) * c.width := by
      unfold top
      rw [Nat.add_right_comm, hdayk]
      exact Nat.mod_eq_of_lt (top_lt hc.width_lt (hc.inTime m hm.mem).2 le_rfl)
    have hbelow : m.key.ts < (m.key.ts / c.width + 1) * c.width := by
      rw [Nat.mul_comm]
      exact Nat.lt_mul_div_succ _ hwidth
    have hfuel : c.nBuckets - k = c.nBuckets - (k + 1) + 1 := by omega
    rw [hfuel, hbucket, htop]
    unfold search
    rw [hm.nextEvent hc.placed]
    exact if_pos hbelow
  | succ d ih =>
    have hlate : ∀ next, nextEvent c.reverse (c.bucket (c.day k)) = some next →
        ¬ next.key.ts < c.top k := by
      intro next hnext hlt
      have hmem := (hc.placed.mem_bucket.mp (nextEvent_mem hnext)).1
      have hts := hm.ts_le hmem
      have htop : c.top k ≤ m.key.ts := by
        unfold top
        refine (Nat.mod_le _ _).trans (le_trans ?_ (Nat.div_mul_le_self m.key.ts c.width))
        exact Nat.mul_le_mul_right c.width (by omega)
      omega
    rw [search_turn (by omega) hc.lastBucket_eq hlate]
    dsimp only
    rw [if_neg (by omega)]
    exact ih (by omega) (by omega)

theorem Tracks.turn (ht : Tracks c m k min) :
    Tracks c m (k + 1) (match nextEvent c.reverse (c.bucket (c.day k)) with
      | some next => min.consider (c.day k) next
      | none => min) := by
  have hleast := hm.nextEvent hc.placed
  cases hnext : nextEvent c.reverse (c.bucket (c.day k)) with
  | none =>
    dsimp only
    rcases ht with rfl | ⟨hlt, hnot⟩
    · exact .inl rfl
    · refine .inr ⟨hlt, fun j hj heq => ?_⟩
      rcases Nat.lt_succ_iff_lt_or_eq.mp hj with hj | rfl
      · exact hnot j hj heq
      · rw [heq, hleast] at hnext
        cases hnext
  | some next =>
    dsimp only
    unfold Minimum.consider
    by_cases hday : c.day k = c.hash m.key.ts
    · rw [hday, hleast] at hnext
      cases hnext
      left
      rcases ht with rfl | ⟨hlt, -⟩
      · exact if_neg EventKey.Lt.irrefl
      · rw [if_pos hlt, hday]
    · obtain ⟨hmem, hhash⟩ := hc.placed.mem_bucket.mp (nextEvent_mem hnext)
      have hne : next ≠ m := by
        rintro rfl
        exact hday hhash.symm
      have hlt := hm.lt next hmem hne
      rcases ht with rfl | ⟨hmin, hnot⟩
      · left
        exact if_neg fun hgt => EventKey.Lt.irrefl (hlt.trans hgt)
      · refine .inr ⟨?_, fun j hj => ?_⟩
        · split
          · exact hlt
          · exact hmin
        · rcases Nat.lt_succ_iff_lt_or_eq.mp hj with hj | rfl
          · exact hnot j hj
          · exact hday

theorem search_late (hyear : c.lastPrio / c.width + c.nBuckets ≤ m.key.ts / c.width)
    (hk : k < c.nBuckets) (ht : Tracks c m k min) :
    c.search (c.nBuckets - k) (c.day k) (c.top k) min =
      some (.least ⟨m.key, some (c.hash m.key.ts, m)⟩) := by
  have hlate : ∀ k < c.nBuckets, ∀ next,
      nextEvent c.reverse (c.bucket (c.day k)) = some next → ¬ next.key.ts < c.top k := by
    intro k hk next hnext hlt
    have hts := hm.ts_le (hc.placed.mem_bucket.mp (nextEvent_mem hnext)).1
    have htop : c.top k ≤ m.key.ts := by
      unfold top
      refine (Nat.mod_le _ _).trans (le_trans ?_ (Nat.div_mul_le_self m.key.ts c.width))
      exact Nat.mul_le_mul_right c.width (by omega)
    omega
  obtain ⟨d, hd⟩ : ∃ d, k + 1 + d = c.nBuckets := ⟨c.nBuckets - (k + 1), by omega⟩
  induction d generalizing k min with
  | zero =>
    rw [search_turn hk hc.lastBucket_eq (hlate k hk)]
    dsimp only
    rw [if_pos hd]
    -- the search has been at the bucket of the least event
    rcases ht.turn hc hm with hmin | ⟨-, hnot⟩
    · rw [hmin]
    · obtain ⟨j, hj, hday⟩ := exists_day (hc.placed.hash_lt m.key.ts)
      exact absurd hday (hnot j (by omega))
  | succ d ih =>
    rw [search_turn hk hc.lastBucket_eq (hlate k hk)]
    dsimp only
    rw [if_neg (by omega)]
    exact ih (by omega) (ht.turn hc hm) (by omega)

theorem searchFrom_eq (uid : BitVec 32) : c.searchFrom uid =
    if m.key.ts / c.width < c.lastPrio / c.width + c.nBuckets then
      some (.early (c.hash m.key.ts) ((m.key.ts / c.width + 1) * c.width) m)
    else some (.least ⟨m.key, some (c.hash m.key.ts, m)⟩) := by
  have hn := hc.placed.nBuckets_pos
  unfold searchFrom
  rw [hc.lastBucket_eq, hc.bucketTop_eq]
  split
  · exact search_early hc hm (k := 0) (Nat.zero_add _) (by omega)
  · refine search_late hc hm (k := 0) (by omega) hn (.inr ⟨.inl ?_, fun j hj => by omega⟩)
    have hlt := (hc.inTime m hm.mem).2
    show m.key.ts < 2 ^ 64 - 1
    omega

theorem peekNext_eq : c.peekNext = some m := by
  unfold peekNext
  rw [searchFrom_eq hc hm]
  split
  · rfl
  · rfl

/-- The calendar after the removal of the least event. -/
theorem doRemoveNext_eq : c.doRemoveNext = some (m,
    { c.setBucket (c.hash m.key.ts) (pop c.reverse (c.bucket (c.hash m.key.ts))) with
      lastPrio := m.key.ts
      lastBucket := c.hash m.key.ts
      bucketTop := (m.key.ts / c.width + 1) * c.width }) := by
  unfold doRemoveNext
  rw [searchFrom_eq hc hm]
  split
  · rfl
  · show (nextEvent c.reverse (c.bucket (c.hash m.key.ts))).bind _ = _
    rw [hm.nextEvent hc.placed, Option.bind_some]
    dsimp only
    rw [Nat.mod_eq_of_lt (top_lt hc.width_lt (hc.inTime m hm.mem).2 le_rfl)]
    rfl

/-- The least event is removed, and the calendar is as ready as before. -/
theorem doRemoveNext_spec : ∃ c', c.doRemoveNext = some (m, c') ∧ c'.Ready ∧ SameShape c c' ∧
    c.events.Perm (m :: c'.events) ∧ c'.lastPrio = m.key.ts := by
  have hlt := hc.placed.hash_lt m.key.ts
  have hpop := pop_perm (hm.nextEvent hc.placed)
  obtain ⟨rest, hall, hset⟩ := exists_rest hlt
  have hevents : c.events.Perm (m ::
      (c.setBucket (c.hash m.key.ts) (pop c.reverse (c.bucket (c.hash m.key.ts)))).events) := by
    refine hall.trans ((hpop.symm.append_right rest).trans ?_)
    exact ((hset _).symm.cons m)
  have hplaced := hc.placed.setBucket hlt
    (fun e he => hc.placed.place _ e (hpop.subset (List.mem_cons_of_mem _ he)))
    (pop_sorted (hc.placed.sorted _))
  refine ⟨_, doRemoveNext_eq hc hm, ?_, ⟨rfl, rfl, List.length_set, rfl⟩, hevents, rfl⟩
  refine ⟨⟨hplaced.width_pos, hplaced.nBuckets_pos, hplaced.place, hplaced.sorted⟩,
    (differentUids_cons.mp (hc.uids.perm hevents.symm)).2, hc.width_lt, (hc.inTime m hm.mem).2, ?_,
    rfl, fun e he => ?_⟩
  · exact (SameShape.setBucket.hash m.key.ts).symm
  · have he' := hevents.symm.subset (List.mem_cons_of_mem m he)
    exact ⟨hm.ts_le he', (hc.inTime e he').2⟩

end

/-- In a calendar without events the search finds nothing. -/
theorem search_empty (h : c.events = []) (fuel i top : ℕ) :
    c.search fuel i top min = none ∨ c.search fuel i top min = some (.least min) := by
  induction fuel generalizing i top with
  | zero => exact .inl rfl
  | succ fuel ih =>
    have hnone : nextEvent c.reverse (c.bucket i) = none := by
      cases hnext : nextEvent c.reverse (c.bucket i) with
      | none => rfl
      | some next =>
        have hmem := mem_events.mpr ⟨i, nextEvent_mem hnext⟩
        rw [h] at hmem
        cases hmem
    unfold search
    rw [hnone]
    dsimp only
    split
    · exact .inr rfl
    · exact ih _ _

theorem doRemoveNext_empty (h : c.events = []) : c.doRemoveNext = none := by
  unfold doRemoveNext searchFrom
  rcases search_empty h c.nBuckets c.lastBucket c.bucketTop with hnone | hleast
  · rw [hnone]
    rfl
  · rw [hleast]
    rfl

end Calendar

end Ns3.Core
