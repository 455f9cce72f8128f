import Mathlib.Data.List.Basic
import Ns3.Ferry2.Header

/-!
# Duplicate suppression

`simple-id-cache.cc`: a vector of `(address, id)` pairs with an expiry time.
Every lookup first purges what has expired. Times are nanoseconds, as in
`ns3::Time`. The cache is faithful to its purpose key by key:
`isDuplicate_iff` says which keys are refused, `live_isDuplicate` which keys
are remembered afterwards.
-/

namespace Ns3.Ferry2

/-- An entry of the cache. -/
structure UniqueId where
  context : Ipv4Address
  id : UInt32
  expire : ℕ
  deriving DecidableEq, Repr

structure IdCache where
  entries : List UniqueId
  lifetime : ℕ
  deriving DecidableEq, Repr

namespace IdCache

/-- `Seconds (1)`, the lifetime the routing protocol builds its cache with. -/
def ofSecond : IdCache := ⟨[], 1000000000⟩

def purge (c : IdCache) (now : ℕ) : IdCache :=
  { c with entries := c.entries.filter fun u => ¬ u.expire < now }

/-- Whether the key is in the cache; it is added when it is not. -/
def isDuplicate (c : IdCache) (now : ℕ) (addr : Ipv4Address) (id : UInt32) : Bool × IdCache :=
  let c := c.purge now
  if c.entries.any fun u => u.context == addr && u.id == id then (true, c)
  else (false, { c with entries := c.entries ++ [⟨addr, id, c.lifetime + now⟩] })

/-- The key is in the cache and its entry has not expired. -/
def Live (c : IdCache) (now : ℕ) (addr : Ipv4Address) (id : UInt32) : Prop :=
  ∃ u ∈ c.entries, u.context = addr ∧ u.id = id ∧ now ≤ u.expire

variable {c : IdCache} {now now' : ℕ} {addr addr' : Ipv4Address} {id id' : UInt32}

theorem mem_purge {u : UniqueId} : u ∈ (c.purge now).entries ↔ u ∈ c.entries ∧ now ≤ u.expire := by
  simp [purge]

/-- A key is refused exactly while an entry for it is alive. -/
theorem isDuplicate_iff : (c.isDuplicate now addr id).1 = true ↔ c.Live now addr id := by
  have hany : ((c.purge now).entries.any fun u => u.context == addr && u.id == id) = true ↔
      c.Live now addr id := by
    simp only [List.any_eq_true, Bool.and_eq_true, beq_iff_eq, mem_purge, Live]
    constructor
    · rintro ⟨u, ⟨hu, he⟩, ha, hi⟩
      exact ⟨u, hu, ha, hi, he⟩
    · rintro ⟨u, hu, ha, hi, he⟩
      exact ⟨u, ⟨hu, he⟩, ha, hi⟩
  rw [← hany, isDuplicate]
  split <;> simp_all

@[simp] theorem lifetime_isDuplicate : (c.isDuplicate now addr id).2.lifetime = c.lifetime := by
  rw [isDuplicate]
  split <;> rfl

/-- After a lookup the cache remembers what it did, and the key looked up. -/
theorem live_isDuplicate (h : now ≤ now') : (c.isDuplicate now addr id).2.Live now' addr' id' ↔
    c.Live now' addr' id' ∨ ((c.isDuplicate now addr id).1 = false ∧
      addr' = addr ∧ id' = id ∧ now' ≤ c.lifetime + now) := by
  have hpurge : (c.purge now).Live now' addr' id' ↔ c.Live now' addr' id' := by
    constructor
    · rintro ⟨u, hu, hr⟩
      exact ⟨u, (mem_purge.mp hu).1, hr⟩
    · rintro ⟨u, hu, ha, hi, he⟩
      exact ⟨u, mem_purge.mpr ⟨hu, h.trans he⟩, ha, hi, he⟩
  rw [← hpurge, isDuplicate]
  split
  · simp
  · simp only [Live, List.mem_append, List.mem_singleton]
    constructor
    · rintro ⟨u, hu | rfl, hr⟩
      · exact .inl ⟨u, hu, hr⟩
      · exact .inr ⟨trivial, hr.1.symm, hr.2.1.symm, hr.2.2⟩
    · rintro (⟨u, hu, hr⟩ | ⟨-, rfl, rfl, he⟩)
      · exact ⟨u, .inl hu, hr⟩
      · exact ⟨_, .inr rfl, rfl, rfl, he⟩

end IdCache

end Ns3.Ferry2
