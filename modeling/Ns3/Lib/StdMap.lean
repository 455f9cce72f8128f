import Mathlib.Order.Lattice
import Mathlib.Data.List.Sort
import Mathlib.Data.UInt

/-!
# Ordered maps

A model of the C++ `std::map`: a finite map whose iteration order is the order
of its keys. `StdMap κ ν` is a list of entries together with the proof that
its keys are strictly increasing, so that two maps with the same lookups are
equal and `entries` is what an iterator walks. Every update is an instance of
`alter`; `find_alter` is the one lookup law behind `insert` (which keeps an
entry that is already there), `assign` (which overwrites) and `erase`.
-/

namespace Ns3.Lib

variable {κ ν : Type} [LinearOrder κ]

/-- A `std::map`: its entries in iteration order. -/
structure StdMap (κ ν : Type) [LinearOrder κ] where
  entries : List (κ × ν)
  sorted : entries.Pairwise (fun a b => a.1 < b.1)
  deriving DecidableEq

namespace StdMap

/-! ## Entry lists -/

/-- Lookup in an entry list. -/
def lookupL (k : κ) : List (κ × ν) → Option ν
  | [] => none
  | e :: es => if e.1 = k then some e.2 else lookupL k es

/-- Replace the value at `k` by `f` of it; `none` stands for "no entry". -/
def alterL (k : κ) (f : Option ν → Option ν) : List (κ × ν) → List (κ × ν)
  | [] => ((f none).map (k, ·)).toList
  | e :: es =>
    if k < e.1 then ((f none).map (k, ·)).toList ++ e :: es
    else if e.1 = k then ((f (some e.2)).map (k, ·)).toList ++ es
    else e :: alterL k f es

theorem lookupL_of_forall_lt {k : κ} {es : List (κ × ν)} (h : ∀ e ∈ es, k < e.1) :
    lookupL k es = none := by
  induction es with
  | nil => rfl
  | cons e es ih =>
    have hne : e.1 ≠ k := (h e (by simp)).ne'
    simp [lookupL, hne, ih fun e' he' => h e' (by simp [he'])]

theorem lookupL_optCons {k k' : κ} {o : Option ν} {es : List (κ × ν)} :
    lookupL k' ((o.map (k, ·)).toList ++ es) =
      if k' = k then o.or (lookupL k es) else lookupL k' es := by
  rcases eq_or_ne k' k with rfl | h
  · cases o <;> simp [lookupL]
  · cases o <;> simp [lookupL, h, h.symm]

theorem lookupL_alterL {k k' : κ} {f : Option ν → Option ν} {es : List (κ × ν)}
    (hs : es.Pairwise (fun a b => a.1 < b.1)) :
    lookupL k' (alterL k f es) = if k' = k then f (lookupL k es) else lookupL k' es := by
  induction es with
  | nil =>
    have h : lookupL k' ((f none).map (k, ·)).toList = _ :=
      (congrArg (lookupL k') (List.append_nil _)).symm.trans lookupL_optCons
    simpa [alterL, lookupL] using h
  | cons e es ih =>
    obtain ⟨he, hes⟩ := List.pairwise_cons.mp hs
    by_cases h₁ : k < e.1
    · have hk : lookupL k (e :: es) = none := by
        refine lookupL_of_forall_lt fun a ha => ?_
        rcases List.mem_cons.mp ha with rfl | ha
        · exact h₁
        · exact h₁.trans (he a ha)
      rw [alterL, if_pos h₁, lookupL_optCons, hk, Option.or_none]
    by_cases h₂ : e.1 = k
    · subst h₂
      have hk : lookupL e.1 es = none := lookupL_of_forall_lt he
      rw [alterL, if_neg h₁, if_pos rfl, lookupL_optCons, hk, Option.or_none]
      by_cases hk' : k' = e.1
      · simp [hk', lookupL]
      · simp [hk', lookupL, Ne.symm hk']
    · rw [alterL, if_neg h₁, if_neg h₂]
      by_cases hk' : e.1 = k'
      · have : k' ≠ k := fun hkk => h₂ (hk'.trans hkk)
        simp [lookupL, hk', this]
      · simp [lookupL, hk', h₂, ih hes]

theorem mem_alterL {k : κ} {f : Option ν → Option ν} {es : List (κ × ν)} {e : κ × ν}
    (h : e ∈ alterL k f es) : e.1 = k ∨ e ∈ es := by
  induction es with
  | nil =>
    obtain ⟨v, -, rfl⟩ : ∃ v, f none = some v ∧ (k, v) = e := by simpa [alterL] using h
    exact .inl rfl
  | cons a es ih =>
    rw [alterL] at h
    split_ifs at h with h₁ h₂
    · rcases List.mem_append.mp h with h | h
      · obtain ⟨v, -, rfl⟩ : ∃ v, f none = some v ∧ (k, v) = e := by simpa using h
        exact .inl rfl
      · exact .inr h
    · rcases List.mem_append.mp h with h | h
      · obtain ⟨v, -, rfl⟩ : ∃ v, f (some a.2) = some v ∧ (k, v) = e := by simpa using h
        exact .inl rfl
      · exact .inr (List.mem_cons_of_mem _ h)
    · rcases List.mem_cons.mp h with rfl | h
      · exact .inr (by simp)
      · exact (ih h).imp_right (List.mem_cons_of_mem _)

theorem pairwise_optCons {k : κ} {o : Option ν} {es : List (κ × ν)}
    (hs : es.Pairwise (fun a b => a.1 < b.1)) (hk : ∀ e ∈ es, k < e.1) :
    ((o.map (k, ·)).toList ++ es).Pairwise (fun a b => a.1 < b.1) := by
  cases o with
  | none => exact hs
  | some v => exact List.pairwise_cons.mpr ⟨hk, hs⟩

theorem pairwise_alterL {k : κ} {f : Option ν → Option ν} {es : List (κ × ν)}
    (hs : es.Pairwise (fun a b => a.1 < b.1)) :
    (alterL k f es).Pairwise (fun a b => a.1 < b.1) := by
  induction es with
  | nil => simp [alterL]
  | cons e es ih =>
    obtain ⟨he, hes⟩ := List.pairwise_cons.mp hs
    rw [alterL]
    split_ifs with h₁ h₂
    · refine pairwise_optCons hs fun a ha => ?_
      rcases List.mem_cons.mp ha with rfl | ha
      · exact h₁
      · exact h₁.trans (he a ha)
    · exact pairwise_optCons hes (h₂ ▸ he)
    · refine List.pairwise_cons.mpr ⟨fun a ha => ?_, ih hes⟩
      rcases mem_alterL ha with rfl | ha
      · exact lt_of_le_of_ne (not_lt.mp h₁) h₂
      · exact he a ha

theorem mem_of_lookupL {k : κ} {v : ν} {es : List (κ × ν)} (h : lookupL k es = some v) :
    (k, v) ∈ es := by
  induction es with
  | nil => cases h
  | cons e es ih =>
    rw [lookupL] at h
    split_ifs at h with hk
    · cases h
      subst hk
      exact List.mem_cons_self
    · exact List.mem_cons_of_mem _ (ih h)

theorem mem_iff_lookupL {es : List (κ × ν)} (hs : es.Pairwise (fun a b => a.1 < b.1))
    {k : κ} {v : ν} : (k, v) ∈ es ↔ lookupL k es = some v := by
  induction es with
  | nil => simp [lookupL]
  | cons e es ih =>
    obtain ⟨he, hes⟩ := List.pairwise_cons.mp hs
    rw [List.mem_cons, ih hes, lookupL]
    by_cases hk : e.1 = k
    · have hn : lookupL k es = none := lookupL_of_forall_lt (hk ▸ he)
      simp [hk, hn, Prod.ext_iff, eq_comm]
    · have : (k, v) ≠ e := fun h => hk (by rw [← h])
      simp [hk, this]

/-! ## The map operations -/

def empty : StdMap κ ν := ⟨[], .nil⟩

instance : Inhabited (StdMap κ ν) := ⟨empty⟩

/-- `find`, with `none` for `end()`; `at` throws exactly where this is `none`. -/
def find (m : StdMap κ ν) (k : κ) : Option ν := lookupL k m.entries

def alter (m : StdMap κ ν) (k : κ) (f : Option ν → Option ν) : StdMap κ ν :=
  ⟨alterL k f m.entries, pairwise_alterL m.sorted⟩

/-- `insert` and `emplace`: an entry that is already there stays. -/
def insert (m : StdMap κ ν) (k : κ) (v : ν) : StdMap κ ν :=
  m.alter k fun o => some (o.getD v)

/-- `m[k] = v` and `insert_or_assign`. -/
def assign (m : StdMap κ ν) (k : κ) (v : ν) : StdMap κ ν :=
  m.alter k fun _ => some v

def erase (m : StdMap κ ν) (k : κ) : StdMap κ ν := m.alter k fun _ => none

def keys (m : StdMap κ ν) : List κ := m.entries.map Prod.fst

def size (m : StdMap κ ν) : ℕ := m.entries.length

def contains (m : StdMap κ ν) (k : κ) : Bool := (m.find k).isSome

/-- Insert the entries of a list in order: what a decoding loop builds. -/
def ofList (es : List (κ × ν)) : StdMap κ ν :=
  es.foldl (fun m e => m.insert e.1 e.2) empty

@[simp] theorem find_empty {k : κ} : (empty : StdMap κ ν).find k = none := rfl

theorem find_alter (m : StdMap κ ν) (k k' : κ) (f : Option ν → Option ν) :
    (m.alter k f).find k' = if k' = k then f (m.find k) else m.find k' :=
  lookupL_alterL m.sorted

theorem find_insert (m : StdMap κ ν) (k k' : κ) (v : ν) :
    (m.insert k v).find k' = if k' = k then some ((m.find k).getD v) else m.find k' :=
  find_alter m k k' _

theorem find_assign (m : StdMap κ ν) (k k' : κ) (v : ν) :
    (m.assign k v).find k' = if k' = k then some v else m.find k' :=
  find_alter m k k' _

theorem find_erase (m : StdMap κ ν) (k k' : κ) :
    (m.erase k).find k' = if k' = k then none else m.find k' :=
  find_alter m k k' _

@[simp] theorem find_assign_self (m : StdMap κ ν) (k : κ) (v : ν) :
    (m.assign k v).find k = some v := by simp [find_assign]

theorem mem_entries {m : StdMap κ ν} {k : κ} {v : ν} :
    (k, v) ∈ m.entries ↔ m.find k = some v := mem_iff_lookupL m.sorted

theorem mem_keys {m : StdMap κ ν} {k : κ} : k ∈ m.keys ↔ ∃ v, m.find k = some v := by
  simp [keys, ← mem_entries]

theorem keys_sorted (m : StdMap κ ν) : m.keys.Pairwise (· < ·) :=
  List.pairwise_map.mpr m.sorted

theorem keys_nodup (m : StdMap κ ν) : m.keys.Nodup :=
  m.keys_sorted.imp fun h => h.ne

/-- Maps with the same lookups are equal: the entry list is canonical. -/
@[ext]
theorem ext {m m' : StdMap κ ν} (h : ∀ k, m.find k = m'.find k) : m = m' := by
  obtain ⟨es, hs⟩ := m
  obtain ⟨es', hs'⟩ := m'
  have hmem : ∀ e, e ∈ es ↔ e ∈ es' := fun ⟨k, v⟩ => by
    rw [mem_iff_lookupL hs, mem_iff_lookupL hs']
    exact Eq.congr_left (h k)
  have hnd {l : List (κ × ν)} (hl : l.Pairwise (fun a b => a.1 < b.1)) : l.Nodup :=
    hl.imp fun hab heq => absurd hab (by simp [heq])
  have hperm : es.Perm es' := (List.perm_ext_iff_of_nodup (hnd hs) (hnd hs')).mpr hmem
  have : es = es' := hperm.eq_of_pairwise (fun a b _ _ hab hba => absurd hab hba.not_gt) hs hs'
  subst this
  rfl

theorem assign_find_self {m : StdMap κ ν} {k : κ} {v : ν} (h : m.find k = some v) :
    m.assign k v = m := by
  ext k' : 1
  rw [find_assign]
  split_ifs with hk
  · rw [hk, h]
  · rfl

/-- Erasing an entry and inserting a new one overwrites it. -/
theorem insert_erase (m : StdMap κ ν) (k : κ) (v : ν) :
    (m.erase k).insert k v = m.assign k v := by
  ext k' : 1
  by_cases hk : k' = k <;> simp [find_insert, find_assign, find_erase, hk]

theorem insert_of_find_none {m : StdMap κ ν} {k : κ} {v : ν} (h : m.find k = none) :
    m.insert k v = m.assign k v := by
  ext k' : 1
  rw [find_insert, find_assign, h, Option.getD_none]

theorem insert_of_find_some {m : StdMap κ ν} {k : κ} {v w : ν} (h : m.find k = some w) :
    m.insert k v = m := by
  ext k' : 1
  rw [find_insert, h, Option.getD_some]
  split_ifs with hk
  · rw [hk, h]
  · rfl

/-! ## Membership -/

theorem contains_iff_mem_keys {m : StdMap κ ν} {k : κ} : m.contains k = true ↔ k ∈ m.keys := by
  rw [contains, Option.isSome_iff_exists, mem_keys]

theorem contains_insert {m : StdMap κ ν} {k k' : κ} {v : ν} :
    (m.insert k v).contains k' = true ↔ k' = k ∨ m.contains k' = true := by
  unfold contains
  rw [find_insert]
  split_ifs with h <;> simp [h]

theorem contains_erase {m : StdMap κ ν} {k k' : κ} :
    (m.erase k).contains k' = true ↔ k' ≠ k ∧ m.contains k' = true := by
  unfold contains
  rw [find_erase]
  split_ifs with h <;> simp [h]

/-- Overwriting an entry keeps the keys. -/
theorem contains_assign {m : StdMap κ ν} {k : κ} {v v' : ν} (h : m.find k = some v) (k' : κ) :
    (m.assign k v').contains k' = m.contains k' := by
  unfold contains
  rw [find_assign]
  split_ifs with hk
  · rw [hk, h]
    rfl
  · rfl

theorem size_le_of_find {ν' : Type} {m : StdMap κ ν} {m' : StdMap κ ν'}
    (h : ∀ k, m'.find k ≠ none → m.find k ≠ none) : m'.size ≤ m.size := by
  have hsub : m'.keys ⊆ m.keys := by
    intro k hk
    obtain ⟨v, hv⟩ := mem_keys.mp hk
    exact mem_keys.mpr (Option.ne_none_iff_exists'.mp (h k (by simp [hv])))
  have hle := (List.subperm_of_subset m'.keys_nodup hsub).length_le
  unfold keys at hle
  rwa [List.length_map, List.length_map] at hle

/-- A map that lacks a key of another one and has no others is smaller. -/
theorem size_lt_of_find {ν' : Type} {m : StdMap κ ν} {m' : StdMap κ ν'} {a : κ}
    (ha : m.find a ≠ none) (h : ∀ k, m'.find k ≠ none → k ≠ a ∧ m.find k ≠ none) :
    m'.size < m.size := by
  have hsub : a :: m'.keys ⊆ m.keys := by
    intro k hk
    rcases List.mem_cons.mp hk with rfl | hk
    · exact mem_keys.mpr (Option.ne_none_iff_exists'.mp ha)
    · obtain ⟨v, hv⟩ := mem_keys.mp hk
      exact mem_keys.mpr (Option.ne_none_iff_exists'.mp (h k (by simp [hv])).2)
  have hnodup : (a :: m'.keys).Nodup := by
    refine List.nodup_cons.mpr ⟨fun hmem => ?_, m'.keys_nodup⟩
    obtain ⟨v, hv⟩ := mem_keys.mp hmem
    exact (h a (by simp [hv])).1 rfl
  have hle := (List.subperm_of_subset hnodup hsub).length_le
  unfold keys at hle
  rw [List.length_cons, List.length_map, List.length_map] at hle
  exact hle

/-! ## Rebuilding a map from its entries -/

theorem find_foldl_insert {es : List (κ × ν)} {m : StdMap κ ν} {k : κ} :
    (es.foldl (fun m e => m.insert e.1 e.2) m).find k = (m.find k).or (lookupL k es) := by
  induction es generalizing m with
  | nil => simp [lookupL]
  | cons e es ih =>
    rw [List.foldl_cons, ih, find_insert, lookupL]
    by_cases hk : e.1 = k
    · subst hk
      cases m.find e.1 <;> simp
    · simp [hk, Ne.symm hk]

theorem find_ofList {es : List (κ × ν)} {k : κ} : (ofList es).find k = lookupL k es := by
  rw [ofList, find_foldl_insert, find_empty, Option.none_or]

/-- A map with the keys of another one. -/
theorem find_ofList_keys {σ : Type} (m : StdMap κ ν) (f : κ → σ) (k : κ) :
    (ofList (m.keys.map fun k => (k, f k))).find k = (m.find k).map fun _ => f k := by
  rw [find_ofList, keys, List.map_map]
  show lookupL k _ = (lookupL k m.entries).map _
  induction m.entries with
  | nil => rfl
  | cons e es ih =>
    rw [List.map_cons, lookupL, lookupL]
    dsimp only [Function.comp_apply] at ih ⊢
    by_cases hk : e.1 = k
    · rw [if_pos hk, if_pos hk, hk]
      rfl
    · rw [if_neg hk, if_neg hk]
      exact ih

/-- A decoding loop that inserts the entries of a map gives the map back. -/
theorem ofList_entries (m : StdMap κ ν) : ofList m.entries = m := by
  ext k : 1
  exact find_ofList

/-- A lookup law for a loop over the entries of a map: a loop body that touches only its own
key, and there combines what it finds with the entry's value, combines the two maps. -/
theorem find_foldl_alter {σ : Type} (m : StdMap κ ν) (g : κ → ν → Option σ → Option σ)
    (s : StdMap κ σ) (k : κ) :
    (m.entries.foldl (fun s e => s.alter e.1 (g e.1 e.2)) s).find k =
      match m.find k with
      | none => s.find k
      | some v => g k v (s.find k) := by
  obtain ⟨es, hs⟩ := m
  change (es.foldl _ s).find k = match lookupL k es with | none => _ | some v => _
  induction es generalizing s with
  | nil => rfl
  | cons e es ih =>
    obtain ⟨he, hes⟩ := List.pairwise_cons.mp hs
    rw [List.foldl_cons, ih _ hes, find_alter, lookupL]
    by_cases hk : e.1 = k
    · subst hk
      simp [lookupL_of_forall_lt he]
    · simp [hk, Ne.symm hk]

/-! ## A pass over the values -/

theorem lookupL_filterMap {μ : Type} {f : κ → ν → Option μ} {es : List (κ × ν)} {k : κ}
    (hs : es.Pairwise (fun a b => a.1 < b.1)) :
    lookupL k (es.filterMap fun e => (f e.1 e.2).map (e.1, ·)) = (lookupL k es).bind (f k) := by
  induction es with
  | nil => rfl
  | cons e es ih =>
    obtain ⟨he, hes⟩ := List.pairwise_cons.mp hs
    have hcons : (e :: es).filterMap (fun e => (f e.1 e.2).map (e.1, ·)) =
        ((f e.1 e.2).map (e.1, ·)).toList ++ es.filterMap fun e => (f e.1 e.2).map (e.1, ·) := by
      cases h : f e.1 e.2 <;> simp [h]
    rw [hcons, lookupL_optCons, ih hes, lookupL]
    by_cases hk : k = e.1
    · subst hk
      simp [ih hes, lookupL_of_forall_lt he]
    · simp [hk, Ne.symm hk]

/-- Replace or drop the value at each key. -/
def filterMap {μ : Type} (m : StdMap κ ν) (f : κ → ν → Option μ) : StdMap κ μ where
  entries := m.entries.filterMap fun e => (f e.1 e.2).map (e.1, ·)
  sorted := by
    refine List.pairwise_filterMap.mpr (m.sorted.imp ?_)
    intro a b hab a' ha' b' hb'
    obtain ⟨v, -, rfl⟩ := Option.map_eq_some_iff.mp ha'
    obtain ⟨v', -, rfl⟩ := Option.map_eq_some_iff.mp hb'
    exact hab

theorem find_filterMap {μ : Type} (m : StdMap κ ν) (f : κ → ν → Option μ) (k : κ) :
    (m.filterMap f).find k = (m.find k).bind (f k) := lookupL_filterMap m.sorted

end StdMap

/-! ## Keys -/

instance instLinearOrderUInt32 : LinearOrder UInt32 where
  le_refl := UInt32.le_refl
  le_trans _ _ _ := UInt32.le_trans
  le_antisymm _ _ := UInt32.le_antisymm
  le_total := UInt32.le_total
  lt_iff_le_not_ge a b := by
    rw [UInt32.lt_iff_toNat_lt, UInt32.le_iff_toNat_le, UInt32.le_iff_toNat_le]
    omega
  toDecidableLE := inferInstance

/-- A `std::set`, as a map to the unit type. -/
abbrev StdSet (κ : Type) [LinearOrder κ] := StdMap κ Unit

end Ns3.Lib
