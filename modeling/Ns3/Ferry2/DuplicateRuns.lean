import Ns3.Lib.Run
import Ns3.Ferry2.IdCache

/-!
# Lookups over time

Runs of lookups at times that do not go back. A key is refused exactly while an
earlier lookup that accepted it is not older than the lifetime: hits do not
renew an entry, and what a lookup purges has expired.
-/

namespace Ns3.Ferry2

open Ns3.Lib

/-- A lookup that was made, and whether it was refused. -/
structure Lookup where
  time : ℕ
  addr : Ipv4Address
  id : UInt32
  refused : Bool
  deriving DecidableEq, Repr

/-- A cache, the time of its last lookup and the lookups so far. -/
structure CacheRun where
  cache : IdCache
  clock : ℕ
  log : List Lookup
  deriving DecidableEq, Repr

namespace CacheRun

def ofLifetime (lifetime : ℕ) : CacheRun := ⟨⟨[], lifetime⟩, 0, []⟩

def lookup (s : CacheRun) (now : ℕ) (addr : Ipv4Address) (id : UInt32) : CacheRun where
  cache := (s.cache.isDuplicate now addr id).2
  clock := now
  log := s.log ++ [⟨now, addr, id, (s.cache.isDuplicate now addr id).1⟩]

/-- The lookups, at times that do not go back. -/
def lookups (lifetime : ℕ) : System CacheRun (ℕ × Ipv4Address × UInt32) where
  init s := s = ofLifetime lifetime
  step s e s' := s.clock ≤ e.1 ∧ s' = s.lookup e.1 e.2.1 e.2.2

/-- An earlier lookup accepted the key, and has not expired. -/
def Accepted (s : CacheRun) (lifetime now : ℕ) (addr : Ipv4Address) (id : UInt32) : Prop :=
  ∃ e ∈ s.log, e.addr = addr ∧ e.id = id ∧ e.refused = false ∧ now ≤ lifetime + e.time

/-- What every reachable state has. -/
structure Faithful (lifetime : ℕ) (s : CacheRun) : Prop where
  lifetime_eq : s.cache.lifetime = lifetime
  live_iff : ∀ now addr id, s.clock ≤ now →
    (s.cache.Live now addr id ↔ s.Accepted lifetime now addr id)
  distinct : s.cache.entries.Pairwise fun u u' => ¬ (u.context = u'.context ∧ u.id = u'.id)

theorem faithful_ofLifetime (lifetime : ℕ) : Faithful lifetime (ofLifetime lifetime) where
  lifetime_eq := rfl
  live_iff now addr id _ := by simp [ofLifetime, IdCache.Live, Accepted]
  distinct := List.Pairwise.nil

theorem accepted_lookup (s : CacheRun) (lifetime now now' : ℕ) (addr addr' : Ipv4Address)
    (id id' : UInt32) : (s.lookup now addr id).Accepted lifetime now' addr' id' ↔
      s.Accepted lifetime now' addr' id' ∨ ((s.cache.isDuplicate now addr id).1 = false ∧
        addr' = addr ∧ id' = id ∧ now' ≤ lifetime + now) := by
  simp only [Accepted, lookup, List.mem_append, List.mem_singleton]
  constructor
  · rintro ⟨e, he | rfl, ha, hi, hr, ht⟩
    · exact .inl ⟨e, he, ha, hi, hr, ht⟩
    · exact .inr ⟨hr, ha.symm, hi.symm, ht⟩
  · rintro (⟨e, he, hr⟩ | ⟨hr, rfl, rfl, ht⟩)
    · exact ⟨e, .inl he, hr⟩
    · exact ⟨_, .inr rfl, rfl, rfl, hr, ht⟩

/-- An entry is added only for a key that has none. -/
theorem distinct_isDuplicate {c : IdCache} {now : ℕ} {addr : Ipv4Address} {id : UInt32}
    (h : c.entries.Pairwise fun u u' => ¬ (u.context = u'.context ∧ u.id = u'.id)) :
    (c.isDuplicate now addr id).2.entries.Pairwise
      fun u u' => ¬ (u.context = u'.context ∧ u.id = u'.id) := by
  have hpurge : (c.purge now).entries.Pairwise
      fun u u' => ¬ (u.context = u'.context ∧ u.id = u'.id) := h.filter _
  rw [IdCache.isDuplicate]
  split_ifs with hany
  · exact hpurge
  · refine List.pairwise_append.mpr ⟨hpurge, List.pairwise_singleton _ _, fun u hu u' hu' => ?_⟩
    rw [List.mem_singleton] at hu'
    subst hu'
    rintro ⟨ha, hi⟩
    exact hany (List.any_eq_true.mpr ⟨u, hu, by simp [ha, hi]⟩)

theorem faithful_lookup {lifetime : ℕ} {s : CacheRun} (h : Faithful lifetime s) {now : ℕ}
    (hnow : s.clock ≤ now) (addr : Ipv4Address) (id : UInt32) :
    Faithful lifetime (s.lookup now addr id) where
  lifetime_eq := IdCache.lifetime_isDuplicate.trans h.lifetime_eq
  live_iff now' addr' id' hnow' := by
    have hle : now ≤ now' := hnow'
    show (s.cache.isDuplicate now addr id).2.Live now' addr' id' ↔ _
    rw [IdCache.live_isDuplicate hle, accepted_lookup, h.lifetime_eq,
      h.live_iff now' addr' id' (hnow.trans hle)]
  distinct := distinct_isDuplicate h.distinct

theorem faithful_of_reachable {lifetime : ℕ} {s : CacheRun} (h : (lookups lifetime).Reachable s) :
    Faithful lifetime s :=
  h.invariant (fun _ hs => hs ▸ faithful_ofLifetime lifetime)
    fun _ e _ hs ⟨hclock, hs'⟩ => hs' ▸ faithful_lookup hs hclock e.2.1 e.2.2

/-- After any lookups, the next one is refused exactly while an accepted lookup of its key has not
expired; no key has two entries; and a purge drops only what has expired. -/
theorem isDuplicate_of_reachable {lifetime : ℕ} {s : CacheRun}
    (h : (lookups lifetime).Reachable s) :
    (∀ now addr id, s.clock ≤ now →
      ((s.cache.isDuplicate now addr id).1 = true ↔ s.Accepted lifetime now addr id)) ∧
    (s.cache.entries.Pairwise fun u u' => ¬ (u.context = u'.context ∧ u.id = u'.id)) ∧
    ∀ now, ∀ u ∈ s.cache.entries, u ∉ (s.cache.purge now).entries → u.expire < now := by
  have hfaithful := faithful_of_reachable h
  refine ⟨fun now addr id hnow => ?_, hfaithful.distinct, fun now u hu hdropped => ?_⟩
  · rw [IdCache.isDuplicate_iff, hfaithful.live_iff now addr id hnow]
  · rw [IdCache.mem_purge] at hdropped
    by_contra hlive
    exact hdropped ⟨hu, by omega⟩

/-- A second lookup of a key while the first has not expired. -/
def lookedUpTwice : CacheRun := ((ofLifetime 10).lookup 0 1 7).lookup 5 1 7

theorem isDuplicate_lookedUpTwice : (lookups 10).Reachable lookedUpTwice ∧
    lookedUpTwice.clock ≤ 10 ∧
      ((lookedUpTwice.cache.isDuplicate 10 1 7).1 = true ↔ lookedUpTwice.Accepted 10 10 1 7) := by
  have hfirst : (lookups 10).step (ofLifetime 10) (0, 1, 7) ((ofLifetime 10).lookup 0 1 7) :=
    ⟨by decide, rfl⟩
  have hsecond : (lookups 10).step ((ofLifetime 10).lookup 0 1 7) (5, 1, 7) lookedUpTwice :=
    ⟨by decide, rfl⟩
  have hreach : (lookups 10).Reachable lookedUpTwice :=
    ⟨ofLifetime 10, _, rfl, ((System.Run.nil _).snoc hfirst).snoc hsecond⟩
  exact ⟨hreach, by decide, (isDuplicate_of_reachable hreach).1 10 1 7 (by decide)⟩

end CacheRun

end Ns3.Ferry2
