import Ns3.Lib.Newest

/-!
# Writing back a snapshot

A loop merges received stamps into a store of which it has taken a snapshot. A
newer stamp of a known key goes into the snapshot, and then the whole snapshot
replaces the store; an unknown key goes into the store only, and is compared
with a stamp `old` that stands for no entry. The next write-back forgets such a
key. `store_eq_newest_iff` says when the loop is the pointwise newest merge.
-/

namespace Ns3.Lib

variable {κ ν : Type} [LinearOrder κ] [LT ν] [DecidableLT ν]

structure Snapshot (κ ν : Type) [LinearOrder κ] where
  snapshot : StdMap κ ν
  store : StdMap κ ν

namespace Snapshot

/-- The entry is newer than the stamp it is compared with. -/
def WritesBack (old : κ → ν) (m : StdMap κ ν) (e : κ × ν) : Prop :=
  (m.find e.1).getD (old e.1) < e.2

instance (old : κ → ν) (m : StdMap κ ν) (e : κ × ν) : Decidable (WritesBack old m e) :=
  inferInstanceAs (Decidable ((m.find e.1).getD (old e.1) < e.2))

/-- The entry is stored, but not in the snapshot. -/
def Missed (old : κ → ν) (m : StdMap κ ν) (e : κ × ν) : Prop :=
  m.find e.1 = none ∧ ¬ WritesBack old m e

instance (old : κ → ν) (m : StdMap κ ν) (e : κ × ν) : Decidable (Missed old m e) :=
  inferInstanceAs (Decidable (m.find e.1 = none ∧ ¬ WritesBack old m e))

/-- No write-back comes after an entry that the snapshot misses. -/
def Kept (old : κ → ν) (m : StdMap κ ν) (es : List (κ × ν)) : Prop :=
  es.Pairwise fun u v => Missed old m u → ¬ WritesBack old m v

/-- One received entry. -/
def merge (old : κ → ν) (s : Snapshot κ ν) (e : κ × ν) : Snapshot κ ν :=
  if WritesBack old s.snapshot e then
    ⟨s.snapshot.assign e.1 e.2, s.snapshot.assign e.1 e.2⟩
  else if s.snapshot.find e.1 = none then ⟨s.snapshot, s.store.assign e.1 e.2⟩
  else s

variable {old : κ → ν} {m : StdMap κ ν} {es : List (κ × ν)} {s : Snapshot κ ν} {e u : κ × ν}

/-! ## One entry -/

theorem snapshot_merge_of_ne {k : κ} (hk : k ≠ e.1) :
    (s.merge old e).snapshot.find k = s.snapshot.find k := by
  unfold merge
  split
  · rw [StdMap.find_assign, if_neg hk]
  · split <;> rfl

/-- A write-back replaces all of the store. -/
theorem store_merge_of_ne {k : κ} (hk : k ≠ e.1) :
    (s.merge old e).store.find k =
      if WritesBack old s.snapshot e then s.snapshot.find k else s.store.find k := by
  unfold merge
  split
  · rw [StdMap.find_assign, if_neg hk]
  · split
    · rw [StdMap.find_assign, if_neg hk]
    · rfl

theorem merge_of_missed (h : Missed old s.snapshot e) :
    s.merge old e = ⟨s.snapshot, s.store.assign e.1 e.2⟩ := by
  rw [merge, if_neg h.2, if_pos h.1]

/-- What both maps hold for a received entry, the loop having started on `m`. -/
structure Entry (old : κ → ν) (m : StdMap κ ν) (s : Snapshot κ ν) (u : κ × ν) : Prop where
  newer : WritesBack old m u → s.snapshot.find u.1 = some u.2 ∧ s.store.find u.1 = some u.2
  older : m.find u.1 ≠ none → ¬ WritesBack old m u →
    s.snapshot.find u.1 = m.find u.1 ∧ s.store.find u.1 = m.find u.1
  missed : Missed old m u → s.snapshot.find u.1 = none

/-- Another entry leaves it so. -/
theorem Entry.merge (h : Entry old m s u) (hne : u.1 ≠ e.1) : Entry old m (s.merge old e) u := by
  have hsnap : (s.merge old e).snapshot.find u.1 = _ := snapshot_merge_of_ne hne
  have hstore : (s.merge old e).store.find u.1 = _ := store_merge_of_ne hne
  refine ⟨fun hu => ?_, fun hk hu => ?_, fun hu => ?_⟩
  · obtain ⟨h₁, h₂⟩ := h.newer hu
    rw [hsnap, hstore, h₁, h₂, ite_self]
    exact ⟨rfl, rfl⟩
  · obtain ⟨h₁, h₂⟩ := h.older hk hu
    rw [hsnap, hstore, h₁, h₂, ite_self]
    exact ⟨rfl, rfl⟩
  · rw [hsnap]
    exact h.missed hu

/-- The entry itself, for a key not yet met. -/
theorem entry_merge (hsnap : s.snapshot.find e.1 = m.find e.1)
    (hstore : s.store.find e.1 = m.find e.1) : Entry old m (s.merge old e) e := by
  have hwrites : WritesBack old s.snapshot e ↔ WritesBack old m e := by
    rw [WritesBack, WritesBack, hsnap]
  refine ⟨fun hw => ?_, fun hk hw => ?_, fun hm => ?_⟩
  · rw [Snapshot.merge, if_pos (hwrites.mpr hw)]
    exact ⟨StdMap.find_assign_self _ _ _, StdMap.find_assign_self _ _ _⟩
  · rw [Snapshot.merge, if_neg fun hw' => hw (hwrites.mp hw'), if_neg (hsnap ▸ hk)]
    exact ⟨hsnap, hstore⟩
  · rw [merge_of_missed ⟨hsnap.trans hm.1, fun hw => hm.2 (hwrites.mp hw)⟩]
    exact hsnap.trans hm.1

/-! ## The whole loop -/

/-- What both maps hold after the entries `es`. -/
structure Merged (old : κ → ν) (m : StdMap κ ν) (es : List (κ × ν)) (s : Snapshot κ ν) : Prop where
  untouched : ∀ k, k ∉ es.map Prod.fst → s.snapshot.find k = m.find k ∧ s.store.find k = m.find k
  entry : ∀ u ∈ es, Entry old m s u
  kept : Kept old m es → ∀ u ∈ es, Missed old m u → s.store.find u.1 = some u.2
  lost : ¬ Kept old m es → ∃ u ∈ es, Missed old m u ∧ s.store.find u.1 = none

omit [DecidableLT ν] in
theorem merged_nil : Merged old m [] ⟨m, m⟩ where
  untouched _ _ := ⟨rfl, rfl⟩
  entry := by simp
  kept := by simp
  lost h := absurd List.Pairwise.nil h

omit [DecidableLT ν] in
theorem kept_append : Kept old m (es ++ [e]) ↔
    Kept old m es ∧ ∀ u ∈ es, Missed old m u → ¬ WritesBack old m e := by
  simp [Kept, List.pairwise_append]

theorem Merged.snoc (h : Merged old m es s) (hnew : e.1 ∉ es.map Prod.fst) :
    Merged old m (es ++ [e]) (s.merge old e) := by
  obtain ⟨hsnap, hstore⟩ := h.untouched e.1 hnew
  have hwrites : WritesBack old s.snapshot e ↔ WritesBack old m e := by
    rw [WritesBack, WritesBack, hsnap]
  have hne : ∀ u ∈ es, u.1 ≠ e.1 := fun u hu heq => hnew (heq ▸ List.mem_map_of_mem hu)
  have hmem : ∀ u, u ∈ es ++ [e] ↔ u ∈ es ∨ u = e := by simp
  refine ⟨fun k hk => ?_, fun u hu => ?_, fun hkept u hu hum => ?_, fun hkept => ?_⟩
  · simp only [List.map_append, List.map_cons, List.map_nil, List.mem_append,
      List.mem_singleton, not_or] at hk
    obtain ⟨h₁, h₂⟩ := h.untouched k hk.1
    rw [snapshot_merge_of_ne hk.2, store_merge_of_ne hk.2, h₁, h₂, ite_self]
    exact ⟨rfl, rfl⟩
  · rcases (hmem u).mp hu with hu | rfl
    · exact (h.entry u hu).merge (hne u hu)
    · exact entry_merge hsnap hstore
  · obtain ⟨hes, hlast⟩ := kept_append.mp hkept
    rcases (hmem u).mp hu with hu | rfl
    · rw [store_merge_of_ne (hne u hu), if_neg fun hw => hlast u hu hum (hwrites.mp hw)]
      exact h.kept hes u hu hum
    · rw [merge_of_missed ⟨hsnap.trans hum.1, fun hw => hum.2 (hwrites.mp hw)⟩]
      exact StdMap.find_assign_self _ _ _
  · by_cases hw : WritesBack old m e
    · -- the snapshot misses some entry, and replaces the store
      obtain ⟨u, hu, hum⟩ : ∃ u ∈ es, Missed old m u := by
        by_contra hno
        push Not at hno
        refine hkept (kept_append.mpr ⟨?_, fun u hu hum => absurd hum (hno u hu)⟩)
        by_contra hes
        obtain ⟨u, hu, hum, -⟩ := h.lost hes
        exact hno u hu hum
      refine ⟨u, (hmem u).mpr (.inl hu), hum, ?_⟩
      rw [store_merge_of_ne (hne u hu), if_pos (hwrites.mpr hw)]
      exact (h.entry u hu).missed hum
    · have hes : ¬ Kept old m es := fun hes => hkept (kept_append.mpr ⟨hes, fun _ _ _ => hw⟩)
      obtain ⟨u, hu, hum, hnone⟩ := h.lost hes
      refine ⟨u, (hmem u).mpr (.inl hu), hum, ?_⟩
      rw [store_merge_of_ne (hne u hu), if_neg fun hw' => hw (hwrites.mp hw')]
      exact hnone

theorem merged_foldl (hnodup : (es.map Prod.fst).Nodup) :
    Merged old m es (es.foldl (merge old) ⟨m, m⟩) := by
  induction es using List.reverseRecOn with
  | nil => exact merged_nil
  | append_singleton es e ih =>
    rw [List.map_append, List.nodup_append] at hnodup
    obtain ⟨hes, -, hdisj⟩ := hnodup
    rw [List.foldl_append]
    refine (ih hes).snoc fun hmem => ?_
    exact hdisj e.1 hmem e.1 (by simp) rfl

/-- The store ends as the newest merge exactly when no write-back follows a missed entry. -/
theorem store_eq_newest_iff (r : StdMap κ ν) :
    (r.entries.foldl (merge old) ⟨m, m⟩).store = m.newest r ↔ Kept old m r.entries := by
  have h : Merged old m r.entries _ := merged_foldl r.keys_nodup
  constructor
  · intro heq
    by_contra hkept
    obtain ⟨u, hu, -, hnone⟩ := h.lost hkept
    rw [heq, StdMap.find_newest, r.mem_entries.mp hu] at hnone
    cases hm : m.find u.1 <;> simp [hm] at hnone
  · intro hkept
    apply StdMap.eq_newest
    intro k
    cases hr : r.find k with
    | none =>
      have hk : k ∉ r.entries.map Prod.fst := by
        intro hk
        obtain ⟨v, hv⟩ := r.mem_keys.mp hk
        rw [hr] at hv
        cases hv
      rw [(h.untouched k hk).2, Option.merge_none_right]
    | some v =>
      have hu : (k, v) ∈ r.entries := r.mem_entries.mpr hr
      have hentry := h.entry _ hu
      cases hm : m.find k with
      | none =>
        by_cases hw : WritesBack old m (k, v)
        · exact (hentry.newer hw).2
        · exact h.kept hkept _ hu ⟨hm, hw⟩
      | some a =>
        have hwrites : WritesBack old m (k, v) ↔ a < v := by simp [WritesBack, hm]
        by_cases hlt : a < v
        · rw [(hentry.newer (hwrites.mpr hlt)).2]
          simp [larger_of_lt hlt]
        · rw [(hentry.older (by simp [hm]) fun hw => hlt (hwrites.mp hw)).2, hm]
          simp [larger_of_not_lt hlt]

end Snapshot

end Ns3.Lib
