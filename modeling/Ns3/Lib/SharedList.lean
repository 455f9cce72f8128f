import Ns3.Lib.Count

/-!
# Linked lists with shared tails

A store holds cells, each with a link to the next one, and the heads of a family
of lists. A link sits in a location: a head or a cell. `Seg s o xs o'` says that
following the links from `o` leads over the cells of `xs` to `o'`. Each cell
counts the locations that point to it (`Balanced`). A location that is reached
over cells with one reference each belongs to one list: writing to it leaves the
other lists as they are (`Seg.write`, `not_mem_of_owned`).
-/

namespace Ns3.Lib

/-- The null link is `none`. -/
structure Cell (α : Type) where
  next : Option ℕ
  count : ℕ
  value : α
  deriving DecidableEq

/-- Addresses from `brk` on have not been given out. -/
structure Store (α : Type) where
  cells : ℕ → Option (Cell α)
  brk : ℕ
  heads : ℕ → Option ℕ
  lists : ℕ

inductive Loc
  | head (i : ℕ)
  | next (p : ℕ)
  deriving DecidableEq

namespace Store

variable {α : Type} (s : Store α)

def empty : Store α := ⟨fun _ => none, 0, fun _ => none, 0⟩

def read : Loc → Option ℕ
  | .head i => s.heads i
  | .next p => (s.cells p).bind Cell.next

def modify (p : ℕ) (f : Cell α → Cell α) : Store α :=
  { s with cells := Function.update s.cells p ((s.cells p).map f) }

def write (o : Option ℕ) : Loc → Store α
  | .head i => { s with heads := Function.update s.heads i o }
  | .next p => s.modify p fun c => { c with next := o }

def recount (p : ℕ) (f : ℕ → ℕ) : Store α := s.modify p fun c => { c with count := f c.count }

/-- One more reference to the cell that the link points to. -/
def acquire : Option ℕ → Store α
  | none => s
  | some p => s.recount p (· + 1)

/-- A new cell, at the address `brk`. -/
def alloc (c : Cell α) : Store α :=
  { s with cells := Function.update s.cells s.brk (some c), brk := s.brk + 1 }

def free (p : ℕ) : Store α := { s with cells := Function.update s.cells p none }

/-- A new list. -/
def newList (o : Option ℕ) : Store α :=
  { s with heads := Function.update s.heads s.lists o, lists := s.lists + 1 }

/-- The cell has a link to `p`. -/
def LinksTo (p : ℕ) (c : Option (Cell α)) : Prop := c.bind Cell.next = some p

instance (p : ℕ) : DecidablePred (@LinksTo α p) :=
  fun c => inferInstanceAs (Decidable (c.bind Cell.next = some p))

/-- The number of locations that point to a cell. -/
def refs (p : ℕ) : ℕ := countBelow s.lists s.heads (· = some p) + countBelow s.brk s.cells (LinksTo p)

def count (p : ℕ) : ℕ := (s.cells p).elim 0 Cell.count

/-- How often a link points to a cell. -/
def ind (o : Option ℕ) (p : ℕ) : ℕ := if o = some p then 1 else 0

@[simp] theorem ind_none (p : ℕ) : ind none p = 0 := rfl

@[simp] theorem ind_self (p : ℕ) : ind (some p) p = 1 := if_pos rfl

theorem ind_of_ne {o : Option ℕ} {p : ℕ} (h : o ≠ some p) : ind o p = 0 := if_neg h

/-- Nothing is kept past the bounds. -/
structure Bounded : Prop where
  cells : ∀ p, s.brk ≤ p → s.cells p = none
  heads : ∀ i, s.lists ≤ i → s.heads i = none

/-- The location is in the store. -/
def Valid (l : Loc) : Prop :=
  (∃ i < s.lists, l = .head i) ∨ ∃ p c, s.cells p = some c ∧ l = .next p

/-- Every cell counts the locations that point to it, and the link `o` that is in no location. -/
def Balanced (o : Option ℕ) : Prop := ∀ p, s.count p = s.refs p + ind o p

variable {s} {s' : Store α} {p q i : ℕ} {o o' : Option ℕ} {c : Cell α} {l l' : Loc}

/-! ## Counting references -/

theorem count_of_cell (h : s.cells p = some c) : s.count p = c.count := by
  unfold count
  rw [h]
  rfl

theorem exists_cell (h : 0 < s.count p) : ∃ c, s.cells p = some c := by
  cases hc : s.cells p with
  | none =>
    unfold count at h
    rw [hc] at h
    cases h
  | some c => exact ⟨c, rfl⟩

/-- A location that holds a link is within the bounds. -/
theorem Bounded.of_read (h : s.Bounded) (hread : s.read l = some q) :
    (∃ i < s.lists, l = .head i) ∨ ∃ p < s.brk, ∃ c, s.cells p = some c ∧ l = .next p := by
  cases l with
  | head i =>
    refine .inl ⟨i, ?_, rfl⟩
    by_contra hi
    rw [read, h.heads i (Nat.le_of_not_lt hi)] at hread
    cases hread
  | next p =>
    obtain ⟨c, hc, -⟩ := Option.bind_eq_some_iff.mp hread
    refine .inr ⟨p, ?_, c, hc, rfl⟩
    by_contra hp
    rw [h.cells p (Nat.le_of_not_lt hp)] at hc
    cases hc

theorem countBelow_pos {β : Type} {n : ℕ} {f : ℕ → β} {r : β → Prop} [DecidablePred r] {u : ℕ}
    (hu : u < n) (h : r (f u)) : 0 < countBelow n f r := by
  unfold countBelow
  exact Finset.card_pos.mpr ⟨u, Finset.mem_filter.mpr ⟨Finset.mem_range.mpr hu, h⟩⟩

theorem countBelow_le_one {β : Type} {n : ℕ} {f : ℕ → β} {r : β → Prop} [DecidablePred r]
    (h : countBelow n f r ≤ 1) {u v : ℕ} (hu : u < n) (hv : v < n) (hru : r (f u))
    (hrv : r (f v)) : u = v := by
  unfold countBelow at h
  exact Finset.card_le_one.mp h u (Finset.mem_filter.mpr ⟨Finset.mem_range.mpr hu, hru⟩) v
    (Finset.mem_filter.mpr ⟨Finset.mem_range.mpr hv, hrv⟩)

theorem countBelow_succ {β : Type} {n : ℕ} {f : ℕ → β} {r : β → Prop} [DecidablePred r] :
    countBelow (n + 1) f r = countBelow n f r + if r (f n) then 1 else 0 := by
  unfold countBelow
  rw [Finset.range_add_one, Finset.filter_insert]
  split
  · rw [Finset.card_insert_of_notMem (by simp)]
  · rfl

theorem refs_pos (h : s.Bounded) (hread : s.read l = some p) : 0 < s.refs p := by
  rcases h.of_read hread with ⟨i, hi, rfl⟩ | ⟨q, hq, -, -, rfl⟩
  · exact Nat.add_pos_left (countBelow_pos hi hread) _
  · exact Nat.add_pos_right _ (countBelow_pos hq hread)

/-- Only one location points to a cell with one reference. -/
theorem loc_unique (h : s.Bounded) (hone : s.refs p ≤ 1) (hread : s.read l = some p)
    (hread' : s.read l' = some p) : l = l' := by
  unfold refs at hone
  rcases h.of_read hread with ⟨i, hi, rfl⟩ | ⟨q, hq, -, -, rfl⟩
  · have hheads := countBelow_pos (f := s.heads) (r := (· = some p)) hi hread
    rcases h.of_read hread' with ⟨j, hj, rfl⟩ | ⟨q', hq', -, -, rfl⟩
    · rw [countBelow_le_one (f := s.heads) (r := (· = some p)) (by omega) hi hj hread hread']
    · have hcells := countBelow_pos (f := s.cells) (r := LinksTo p) hq' hread'
      omega
  · have hcells := countBelow_pos (f := s.cells) (r := LinksTo p) hq hread
    rcases h.of_read hread' with ⟨j, hj, rfl⟩ | ⟨q', hq', -, -, rfl⟩
    · have hheads := countBelow_pos (f := s.heads) (r := (· = some p)) hj hread'
      omega
    · rw [countBelow_le_one (f := s.cells) (r := LinksTo p) (by omega) hq hq' hread hread']

/-! ## What the operations do to the references -/

theorem cells_modify (p q : ℕ) (f : Cell α → Cell α) :
    (s.modify p f).cells q = if q = p then (s.cells q).map f else s.cells q := by
  show Function.update s.cells p _ q = _
  by_cases h : q = p
  · subst h
    rw [Function.update_self, if_pos rfl]
  · rw [Function.update_of_ne h, if_neg h]

theorem Bounded.modify (h : s.Bounded) (p : ℕ) (f : Cell α → Cell α) : (s.modify p f).Bounded where
  cells q hq := by
    rw [cells_modify, h.cells q hq]
    split <;> rfl
  heads := h.heads

theorem refs_modify {f : Cell α → Cell α} (hf : ∀ c, (f c).next = c.next) (p q : ℕ) :
    (s.modify p f).refs q = s.refs q := by
  unfold refs
  congr 1
  refine countBelow_congr fun u _ => ?_
  rw [cells_modify]
  split
  · cases s.cells u with
    | none => rfl
    | some c =>
      show (f c).next = some q ↔ c.next = some q
      rw [hf]
  · rfl

theorem refs_recount (p q : ℕ) (f : ℕ → ℕ) : (s.recount p f).refs q = s.refs q :=
  refs_modify (f := fun c => { c with count := f c.count }) (fun _ => rfl) p q

theorem count_recount (p q : ℕ) (f : ℕ → ℕ) (h : 0 < s.count p) :
    (s.recount p f).count q = if q = p then f (s.count q) else s.count q := by
  obtain ⟨c, hc⟩ := exists_cell h
  unfold count recount
  rw [cells_modify]
  by_cases hq : q = p
  · subst hq
    rw [if_pos rfl, if_pos rfl, hc]
    rfl
  · rw [if_neg hq, if_neg hq]

/-- Writing to a location takes a reference from the old link and gives one to the new. -/
theorem refs_write (h : s.Bounded) (hl : s.Valid l) (o : Option ℕ) (q : ℕ) :
    (s.write o l).refs q + ind (s.read l) q = s.refs q + ind o q := by
  rcases hl with ⟨i, hi, rfl⟩ | ⟨p, c, hc, rfl⟩
  · have hupdate := countBelow_update (p := (· = some q)) (f := s.heads) hi o
    unfold refs ind read write
    dsimp only
    omega
  · have hp : p < s.brk := by
      by_contra hp
      rw [h.cells p (Nat.le_of_not_lt hp)] at hc
      cases hc
    have hupdate := countBelow_update (p := LinksTo q)
      (f := s.cells) hp ((s.cells p).map fun c => { c with next := o })
    have hnew : LinksTo q ((s.cells p).map fun c => { c with next := o }) ↔ o = some q := by
      rw [hc]
      rfl
    simp only [hnew] at hupdate
    have hread : LinksTo q (s.cells p) ↔ s.read (.next p) = some q := Iff.rfl
    simp only [hread] at hupdate
    unfold refs ind write modify
    dsimp only
    omega

theorem count_write (o : Option ℕ) (l : Loc) (q : ℕ) : (s.write o l).count q = s.count q := by
  cases l with
  | head i => rfl
  | next p =>
    unfold count write
    rw [cells_modify]
    split
    · cases s.cells q <;> rfl
    · rfl

theorem Bounded.write (h : s.Bounded) (o : Option ℕ) (hl : s.Valid l) : (s.write o l).Bounded := by
  rcases hl with ⟨i, hi, rfl⟩ | ⟨p, -, -, rfl⟩
  · refine ⟨h.cells, fun j hj => ?_⟩
    have hne : j ≠ i := by
      rintro rfl
      exact absurd hi (Nat.not_lt_of_le hj)
    exact (Function.update_of_ne hne _ _).trans (h.heads j hj)
  · exact h.modify p _

theorem cells_alloc (c : Cell α) (q : ℕ) :
    (s.alloc c).cells q = if q = s.brk then some c else s.cells q := by
  show Function.update s.cells s.brk (some c) q = _
  by_cases h : q = s.brk
  · subst h
    rw [Function.update_self, if_pos rfl]
  · rw [Function.update_of_ne h, if_neg h]

theorem Bounded.alloc (h : s.Bounded) (c : Cell α) : (s.alloc c).Bounded where
  cells q hq := by
    change s.brk + 1 ≤ q at hq
    rw [cells_alloc, if_neg (by omega)]
    exact h.cells q (by omega)
  heads := h.heads

theorem refs_alloc (c : Cell α) (q : ℕ) : (s.alloc c).refs q = s.refs q + ind c.next q := by
  have hold : countBelow s.brk (s.alloc c).cells (LinksTo q) =
      countBelow s.brk s.cells (LinksTo q) := by
    refine countBelow_congr fun u hu => ?_
    rw [cells_alloc, if_neg (Nat.ne_of_lt hu)]
  have hnew : (s.alloc c).cells s.brk = some c := by
    rw [cells_alloc, if_pos rfl]
  show countBelow s.lists s.heads _ + countBelow (s.brk + 1) (s.alloc c).cells _ = _
  rw [countBelow_succ, hold, hnew]
  unfold refs ind
  show _ + (_ + if c.next = some q then 1 else 0) = _
  omega

theorem count_alloc (h : s.Bounded) (c : Cell α) (q : ℕ) :
    (s.alloc c).count q = s.count q + if q = s.brk then c.count else 0 := by
  unfold count
  rw [cells_alloc]
  by_cases hq : q = s.brk
  · subst hq
    rw [if_pos rfl, if_pos rfl, h.cells _ (Nat.le_refl _)]
    exact (Nat.zero_add _).symm
  · rw [if_neg hq, if_neg hq, Nat.add_zero]

theorem cells_free (p q : ℕ) : (s.free p).cells q = if q = p then none else s.cells q := by
  show Function.update s.cells p none q = _
  by_cases h : q = p
  · subst h
    rw [Function.update_self, if_pos rfl]
  · rw [Function.update_of_ne h, if_neg h]

theorem Bounded.free (h : s.Bounded) (p : ℕ) : (s.free p).Bounded where
  cells q hq := by
    rw [cells_free, h.cells q hq]
    split <;> rfl
  heads := h.heads

theorem refs_free (h : s.Bounded) (hc : s.cells p = some c) (q : ℕ) :
    (s.free p).refs q + ind c.next q = s.refs q := by
  have hp : p < s.brk := by
    by_contra hp
    rw [h.cells p (Nat.le_of_not_lt hp)] at hc
    cases hc
  have hupdate := countBelow_update (p := LinksTo q)
    (f := s.cells) hp none
  rw [hc] at hupdate
  have hold : LinksTo q (some c) ↔ c.next = some q := Iff.rfl
  have hnone : ¬ LinksTo q (none : Option (Cell α)) := by
    intro heq
    cases heq
  simp only [hold, if_neg hnone] at hupdate
  unfold refs ind free
  dsimp only
  omega

theorem count_free (p q : ℕ) : (s.free p).count q = if q = p then 0 else s.count q := by
  unfold count
  rw [cells_free]
  split <;> rfl

theorem Bounded.newList (h : s.Bounded) (o : Option ℕ) : (s.newList o).Bounded where
  cells := h.cells
  heads i hi := by
    change s.lists + 1 ≤ i at hi
    have hne : i ≠ s.lists := by omega
    exact (Function.update_of_ne hne _ _).trans (h.heads i (by omega))

theorem refs_newList (o : Option ℕ) (q : ℕ) : (s.newList o).refs q = s.refs q + ind o q := by
  have hold : countBelow s.lists (s.newList o).heads (· = some q) =
      countBelow s.lists s.heads (· = some q) := by
    refine countBelow_congr fun u hu => ?_
    show Function.update s.heads s.lists o u = some q ↔ _
    rw [Function.update_of_ne (Nat.ne_of_lt hu)]
  have hnew : (s.newList o).heads s.lists = o := Function.update_self _ _ _
  show countBelow (s.lists + 1) (s.newList o).heads _ + countBelow s.brk s.cells _ = _
  rw [countBelow_succ, hold, hnew]
  unfold refs ind
  omega

/-! ## Segments -/

/-- The cells of `xs`, each with its value, lead from `o` to `o'`. -/
inductive Seg (s : Store α) : Option ℕ → List (ℕ × α) → Option ℕ → Prop
  | nil (o : Option ℕ) : Seg s o [] o
  | cons {p : ℕ} {c : Cell α} {xs : List (ℕ × α)} {o : Option ℕ} :
      s.cells p = some c → Seg s c.next xs o → Seg s (some p) ((p, c.value) :: xs) o

variable {xs ys : List (ℕ × α)} {x : ℕ × α} {o'' : Option ℕ}

theorem Seg.trans (h : Seg s o xs o') (h' : Seg s o' ys o'') : Seg s o (xs ++ ys) o'' := by
  induction h with
  | nil => exact h'
  | cons hc _ ih => exact .cons hc (ih h')

theorem Seg.split (h : Seg s o (xs ++ ys) o'') : ∃ o', Seg s o xs o' ∧ Seg s o' ys o'' := by
  induction xs generalizing o with
  | nil => exact ⟨o, .nil o, h⟩
  | cons x xs ih =>
    obtain ⟨p, v⟩ := x
    cases h with
    | cons hc h =>
      obtain ⟨o', hxs, hys⟩ := ih h
      exact ⟨o', .cons hc hxs, hys⟩

theorem Seg.nil_inv (h : Seg s o [] o') : o = o' := by
  cases h
  rfl

theorem Seg.cons_inv (h : Seg s o (x :: xs) o') :
    o = some x.1 ∧ ∃ c, s.cells x.1 = some c ∧ c.value = x.2 ∧ Seg s c.next xs o' := by
  cases h with
  | cons hc h => exact ⟨rfl, _, hc, rfl, h⟩

theorem Seg.snoc_inv (h : Seg s o (xs ++ [x]) o') :
    Seg s o xs (some x.1) ∧ ∃ c, s.cells x.1 = some c ∧ c.value = x.2 ∧ c.next = o' := by
  obtain ⟨o₁, hxs, hx⟩ := h.split
  obtain ⟨rfl, c, hc, hv, hnil⟩ := hx.cons_inv
  exact ⟨hxs, c, hc, hv, hnil.nil_inv⟩

theorem Seg.unique (h : Seg s o xs none) (h' : Seg s o ys none) : xs = ys := by
  induction xs generalizing o ys with
  | nil =>
    cases h
    cases h'
    rfl
  | cons x xs ih =>
    obtain ⟨rfl, c, hc, hv, h⟩ := h.cons_inv
    cases ys with
    | nil => cases h'
    | cons y ys =>
      obtain ⟨heq, c', hc', hv', h'⟩ := h'.cons_inv
      rw [← Option.some.inj heq] at hc'
      obtain rfl : c = c' := Option.some.inj (hc.symm.trans hc')
      rw [ih h h', Prod.ext (Option.some.inj heq) (hv.symm.trans hv')]

/-- A list that ends has no cell twice. -/
theorem Seg.nodup (h : Seg s o xs none) : (xs.map Prod.fst).Nodup := by
  induction xs generalizing o with
  | nil => exact List.nodup_nil
  | cons x xs ih =>
    obtain ⟨rfl, c, hc, hv, hrest⟩ := h.cons_inv
    refine List.nodup_cons.mpr ⟨fun hmem => ?_, ih hrest⟩
    obtain ⟨y, hy, heq⟩ := List.mem_map.mp hmem
    obtain ⟨ys, zs, rfl⟩ := List.append_of_mem hy
    obtain ⟨o₁, -, hy⟩ := hrest.split
    obtain ⟨rfl, -⟩ := id hy.cons_inv
    rw [heq] at hy
    have hlength := congrArg List.length (h.unique hy)
    rw [List.length_cons, List.length_append, List.length_cons] at hlength
    omega

/-- A segment only depends on the links and the values of its cells. -/
theorem Seg.frame (h : Seg s o xs o') (hsame : ∀ x ∈ xs, ∀ c, s.cells x.1 = some c →
    ∃ c', s'.cells x.1 = some c' ∧ c'.next = c.next ∧ c'.value = c.value) : Seg s' o xs o' := by
  induction h with
  | nil => exact .nil _
  | cons hc _ ih =>
    obtain ⟨c', hc', hnext, hvalue⟩ := hsame _ List.mem_cons_self _ hc
    rw [← hvalue]
    refine .cons hc' ?_
    rw [hnext]
    exact ih fun x hx => hsame x (List.mem_cons_of_mem _ hx)

theorem Seg.recount (h : Seg s o xs o') (p : ℕ) (f : ℕ → ℕ) : Seg (s.recount p f) o xs o' := by
  refine h.frame fun x _ c hc => ?_
  unfold Store.recount
  rw [cells_modify, hc]
  split
  · exact ⟨_, rfl, rfl, rfl⟩
  · exact ⟨c, rfl, rfl, rfl⟩

theorem Seg.alloc (h : Seg s o xs o') (hbounded : s.Bounded) (c : Cell α) :
    Seg (s.alloc c) o xs o' := by
  refine h.frame fun x _ c' hc' => ⟨c', ?_, rfl, rfl⟩
  rw [cells_alloc, if_neg ?_]
  · exact hc'
  · intro heq
    rw [heq, hbounded.cells _ (Nat.le_refl _)] at hc'
    cases hc'

theorem Seg.free (h : Seg s o xs o') (hp : p ∉ xs.map Prod.fst) : Seg (s.free p) o xs o' := by
  refine h.frame fun x hx c hc => ⟨c, ?_, rfl, rfl⟩
  rw [cells_free, if_neg ?_]
  · exact hc
  · rintro rfl
    exact hp (List.mem_map_of_mem hx)

/-- The location that a walk over `xs` from the head of a list comes to. -/
def locOf (i : ℕ) (xs : List (ℕ × α)) : Loc :=
  match xs.getLast? with
  | none => .head i
  | some x => .next x.1

theorem locOf_concat (i : ℕ) (xs : List (ℕ × α)) (x : ℕ × α) :
    locOf i (xs ++ [x]) = .next x.1 := by
  unfold locOf
  rw [List.getLast?_concat]

theorem locOf_eq_next (h : locOf i xs = .next p) : p ∈ xs.map Prod.fst := by
  cases xs using List.reverseRecOn with
  | nil => cases h
  | append_singleton xs x =>
    rw [locOf_concat] at h
    cases h
    exact List.mem_map_of_mem (List.mem_append_right _ (List.mem_singleton.mpr rfl))

theorem Seg.read_locOf (h : Seg s (s.heads i) xs o) : s.read (locOf i xs) = o := by
  cases xs using List.reverseRecOn with
  | nil => exact h.nil_inv
  | append_singleton xs x =>
    obtain ⟨-, c, hc, -, rfl⟩ := h.snoc_inv
    rw [locOf_concat, read, hc]
    rfl

/-- The location is one of the store. -/
theorem Seg.locOf_valid (h : Seg s (s.heads i) xs o) (hi : i < s.lists) : s.Valid (locOf i xs) := by
  cases xs using List.reverseRecOn with
  | nil => exact .inl ⟨i, hi, rfl⟩
  | append_singleton xs x =>
    obtain ⟨-, c, hc, -, -⟩ := h.snoc_inv
    exact .inr ⟨x.1, c, hc, locOf_concat i xs x⟩

theorem Seg.write (h : Seg s o xs o') (v : Option ℕ) (hl : ∀ p, l = .next p → p ∉ xs.map Prod.fst) :
    Seg (s.write v l) o xs o' := by
  cases l with
  | head i => exact h.frame fun x _ c hc => ⟨c, hc, rfl, rfl⟩
  | next p =>
    refine h.frame fun x hx c hc => ⟨c, ?_, rfl, rfl⟩
    show (s.modify p _).cells x.1 = _
    rw [cells_modify, if_neg ?_]
    · exact hc
    · rintro rfl
      exact hl x.1 rfl (List.mem_map_of_mem hx)

/-- The walk to the location that is written ends at the new link. -/
theorem Seg.write_locOf (h : Seg s (s.heads i) xs o) (hnodup : (xs.map Prod.fst).Nodup)
    (v : Option ℕ) :
    Seg (s.write v (locOf i xs)) ((s.write v (locOf i xs)).heads i) xs v := by
  cases xs using List.reverseRecOn with
  | nil =>
    show Seg _ (Function.update s.heads i v i) [] v
    rw [Function.update_self]
    exact .nil v
  | append_singleton xs x =>
    obtain ⟨hxs, c, hc, hv, -⟩ := h.snoc_inv
    rw [List.map_append, List.nodup_append] at hnodup
    have hnot : x.1 ∉ xs.map Prod.fst := fun hmem =>
      hnodup.2.2 x.1 hmem x.1 (List.mem_singleton.mpr rfl) rfl
    rw [locOf_concat]
    have hwalk : Seg (s.write v (.next x.1)) (s.heads i) xs (some x.1) := by
      refine hxs.write v fun p hp => ?_
      cases hp
      exact hnot
    have hcell : (s.write v (.next x.1)).cells x.1 = some { c with next := v } := by
      show (s.modify x.1 _).cells x.1 = _
      rw [cells_modify, if_pos rfl, hc]
      rfl
    have hlast : Seg (s.write v (.next x.1)) (some x.1) [(x.1, c.value)] v :=
      .cons (c := { c with next := v }) hcell (.nil v)
    rw [hv] at hlast
    exact hwalk.trans hlast

/-! ## Families of lists -/

/-- The list `i` has the cells `contents i`. -/
structure Wf (s : Store α) (o : Option ℕ) (contents : ℕ → List (ℕ × α)) : Prop where
  bounded : s.Bounded
  balanced : s.Balanced o
  chains : ∀ i < s.lists, Seg s (s.heads i) (contents i) none

variable {contents : ℕ → List (ℕ × α)}

/-- A cell before which all cells of its list have one reference, and which has one itself, is in
no other list. -/
theorem not_mem_of_owned (hbounded : s.Bounded) {i j : ℕ} (hij : i ≠ j)
    (h : Seg s (s.heads i) xs o) (hone : ∀ x ∈ xs, s.refs x.1 ≤ 1)
    (h' : Seg s (s.heads j) ys none) {x : ℕ × α} (hx : x ∈ xs) : x.1 ∉ ys.map Prod.fst := by
  induction xs using List.reverseRecOn generalizing o x with
  | nil => cases hx
  | append_singleton xs z ih =>
    obtain ⟨hwalk, -⟩ := h.snoc_inv
    have ih := fun {x} => @ih _ hwalk (fun x hx => hone x (List.mem_append_left _ hx)) x
    rcases List.mem_append.mp hx with hx | hx
    · exact ih hx
    · rw [List.mem_singleton] at hx
      subst hx
      intro hmem
      obtain ⟨y, hy, heq⟩ := List.mem_map.mp hmem
      obtain ⟨ys₁, ys₂, rfl⟩ := List.append_of_mem hy
      obtain ⟨o₁, hwalk', hrest⟩ := h'.split
      obtain ⟨rfl, -⟩ := hrest.cons_inv
      rw [heq] at hwalk'
      have hsame := loc_unique hbounded (hone x (List.mem_append_right _ (List.mem_singleton.mpr rfl)))
        hwalk.read_locOf hwalk'.read_locOf
      cases hl : locOf i xs with
      | head k =>
        cases xs using List.reverseRecOn with
        | nil =>
          cases hl
          cases ys₁ using List.reverseRecOn with
          | nil =>
            cases hsame
            exact hij rfl
          | append_singleton ys₁ y' =>
            rw [locOf_concat] at hsame
            cases hsame
        | append_singleton xs x' =>
          rw [locOf_concat] at hl
          cases hl
      | next p =>
        have hp := locOf_eq_next hl
        rw [hl] at hsame
        have hp' := locOf_eq_next hsame.symm
        obtain ⟨x', hx', hpx⟩ := List.mem_map.mp hp
        refine ih hx' ?_
        rw [hpx, List.map_append]
        exact List.mem_append_left _ hp'

theorem heads_write (v : Option ℕ) {j : ℕ} (hl : l ≠ .head j) : (s.write v l).heads j = s.heads j := by
  cases l with
  | head i => exact Function.update_of_ne (fun heq => hl (by rw [heq])) _ _
  | next p => rfl

theorem locOf_ne_head {j : ℕ} (hij : j ≠ i) : locOf i xs ≠ .head j := by
  cases xs using List.reverseRecOn with
  | nil =>
    intro heq
    cases heq
    exact hij rfl
  | append_singleton xs x =>
    rw [locOf_concat]
    intro heq
    cases heq

@[simp] theorem lists_write (v : Option ℕ) (l : Loc) : (s.write v l).lists = s.lists := by
  cases l <;> rfl

@[simp] theorem brk_write (v : Option ℕ) (l : Loc) : (s.write v l).brk = s.brk := by
  cases l <;> rfl

theorem cells_write (v : Option ℕ) (hl : l ≠ .next p) : (s.write v l).cells p = s.cells p := by
  cases l with
  | head i => rfl
  | next q =>
    show (s.modify q _).cells p = _
    rw [cells_modify, if_neg fun heq => hl (by rw [heq])]

/-- A list gets a new rest behind cells that are in no other list. -/
theorem chains_write (h : ∀ j < s.lists, Seg s (s.heads j) (contents j) none)
    (hwalk : Seg s (s.heads i) xs o) (hnodup : (xs.map Prod.fst).Nodup)
    (hown : ∀ j < s.lists, j ≠ i → ∀ x ∈ xs, x.1 ∉ (contents j).map Prod.fst) {v : Option ℕ}
    (hys : Seg s v ys none) (hdisjoint : ∀ x ∈ xs, x.1 ∉ ys.map Prod.fst) :
    ∀ j < (s.write v (locOf i xs)).lists, Seg (s.write v (locOf i xs))
      ((s.write v (locOf i xs)).heads j) (Function.update contents i (xs ++ ys) j) none := by
  intro j hj
  rw [lists_write] at hj
  have howner : ∀ p, locOf i xs = .next p → ∃ x ∈ xs, x.1 = p := fun p hp =>
    List.mem_map.mp (locOf_eq_next hp)
  by_cases hij : j = i
  · subst hij
    rw [Function.update_self]
    refine (hwalk.write_locOf hnodup v).trans (hys.write v fun p hp => ?_)
    obtain ⟨x, hx, rfl⟩ := howner p hp
    exact hdisjoint x hx
  · rw [Function.update_of_ne hij, heads_write v (locOf_ne_head hij)]
    refine (h j hj).write v fun p hp => ?_
    obtain ⟨x, hx, rfl⟩ := howner p hp
    exact hown j hj hij x hx

/-- The cells of a list are counted. -/
theorem Wf.refs_eq_count (h : s.Wf none contents) (p : ℕ) : s.refs p = s.count p := by
  rw [h.balanced p]
  exact (Nat.add_zero _).symm

/-- A cell that a list holds is pointed to. -/
theorem Seg.refs_pos (h : Seg s (s.heads i) (xs ++ x :: ys) o) (hbounded : s.Bounded) :
    0 < s.refs x.1 := by
  obtain ⟨o₁, hwalk, hrest⟩ := h.split
  obtain ⟨rfl, -⟩ := hrest.cons_inv
  exact Store.refs_pos hbounded hwalk.read_locOf

/-- A list is not longer than the store. -/
theorem Seg.length_le (h : Seg s o xs none) (hbounded : s.Bounded) : xs.length ≤ s.brk := by
  have hlt : ∀ p ∈ xs.map Prod.fst, p < s.brk := by
    intro p hp
    obtain ⟨x, hx, rfl⟩ := List.mem_map.mp hp
    obtain ⟨ys, zs, rfl⟩ := List.append_of_mem hx
    obtain ⟨o', -, hrest⟩ := h.split
    obtain ⟨-, c, hc, -⟩ := hrest.cons_inv
    by_contra hge
    rw [hbounded.cells _ (Nat.le_of_not_lt hge)] at hc
    cases hc
  have hsub : (xs.map Prod.fst).toFinset ⊆ Finset.range s.brk := fun p hp =>
    Finset.mem_range.mpr (hlt p (List.mem_toFinset.mp hp))
  have hcard := Finset.card_le_card hsub
  rw [List.toFinset_card_of_nodup h.nodup, List.length_map, Finset.card_range] at hcard
  exact hcard

/-! ## Cells of one list -/

/-- The list `i` has the cells of `xs` and then of `ys`, those of `xs` being its own. -/
structure Cursor (s : Store α) (contents : ℕ → List (ℕ × α)) (i : ℕ) (xs ys : List (ℕ × α)) : Prop where
  contents : contents i = xs ++ ys
  own : ∀ x ∈ xs, s.count x.1 ≤ 1

theorem Cursor.start (s : Store α) (contents : ℕ → List (ℕ × α)) (i : ℕ) :
    Cursor s contents i [] (contents i) := ⟨rfl, fun x hx => by cases hx⟩

theorem Cursor.next (h : Cursor s contents i xs (x :: ys)) (hone : s.count x.1 ≤ 1) :
    Cursor s contents i (xs ++ [x]) ys where
  contents := by
    rw [h.contents, List.append_assoc]
    rfl
  own y hy := by
    rcases List.mem_append.mp hy with hy | hy
    · exact h.own y hy
    · rw [List.mem_singleton] at hy
      rw [hy]
      exact hone

theorem Cursor.split (h : Cursor s contents i xs ys) (hwf : s.Wf none contents)
    (hi : i < s.lists) : ∃ o, Seg s (s.heads i) xs o ∧ Seg s o ys none := by
  have hchain := hwf.chains i hi
  rw [h.contents] at hchain
  exact hchain.split

/-- The cells before the cursor are in no other list. -/
theorem Cursor.not_mem (h : Cursor s contents i xs ys) (hwf : s.Wf none contents)
    (hi : i < s.lists) : ∀ j < s.lists, j ≠ i → ∀ x ∈ xs, x.1 ∉ (contents j).map Prod.fst := by
  intro j hj hij x hx
  obtain ⟨o, hwalk, -⟩ := h.split hwf hi
  refine not_mem_of_owned hwf.bounded (Ne.symm hij) hwalk (fun y hy => ?_) (hwf.chains j hj) hx
  rw [hwf.refs_eq_count]
  exact h.own y hy

/-- The two sides of the cursor have different cells. -/
theorem Cursor.nodup (h : Cursor s contents i xs ys) (hwf : s.Wf none contents)
    (hi : i < s.lists) : (xs.map Prod.fst).Nodup ∧ (ys.map Prod.fst).Nodup ∧
      ∀ x ∈ xs, x.1 ∉ ys.map Prod.fst := by
  have hnodup := (hwf.chains i hi).nodup
  rw [h.contents, List.map_append, List.nodup_append] at hnodup
  exact ⟨hnodup.1, hnodup.2.1, fun x hx hmem =>
    hnodup.2.2 x.1 (List.mem_map_of_mem hx) x.1 hmem rfl⟩

/-! ## Acquiring -/

theorem refs_acquire (o : Option ℕ) (q : ℕ) : (s.acquire o).refs q = s.refs q := by
  cases o with
  | none => rfl
  | some p => exact refs_recount p q _

theorem count_acquire (ho : ∀ p, o = some p → 0 < s.count p) (q : ℕ) :
    (s.acquire o).count q = s.count q + ind o q := by
  cases o with
  | none => rfl
  | some p =>
    unfold acquire ind
    rw [count_recount p q _ (ho p rfl)]
    by_cases hq : q = p
    · rw [if_pos hq, if_pos (by rw [hq])]
    · rw [if_neg hq, if_neg fun heq => hq (Option.some.inj heq).symm]
      rfl

theorem Bounded.acquire (h : s.Bounded) (o : Option ℕ) : (s.acquire o).Bounded := by
  cases o with
  | none => exact h
  | some p => exact h.modify p _

theorem Seg.acquire (h : Seg s o xs o') (o'' : Option ℕ) : Seg (s.acquire o'') o xs o' := by
  cases o'' with
  | none => exact h
  | some p => exact h.recount p _

@[simp] theorem lists_acquire (o : Option ℕ) : (s.acquire o).lists = s.lists := by
  cases o <;> rfl

@[simp] theorem heads_acquire (o : Option ℕ) : (s.acquire o).heads = s.heads := by
  cases o <;> rfl

@[simp] theorem brk_acquire (o : Option ℕ) : (s.acquire o).brk = s.brk := by
  cases o <;> rfl

/-- The cell that a list goes on with is there. -/
theorem Seg.count_pos (h : Seg s (s.heads i) xs o) (hwf : s.Wf none contents) (ho : o = some p) :
    0 < s.count p := by
  subst ho
  rw [← hwf.refs_eq_count]
  exact Store.refs_pos hwf.bounded h.read_locOf

/-- A cell counts at least the reference from the list that holds it. -/
theorem Cursor.count_pos (h : Cursor s contents i xs (x :: ys)) (hwf : s.Wf none contents)
    (hi : i < s.lists) : 0 < s.count x.1 := by
  obtain ⟨o, hwalk, hrest⟩ := h.split hwf hi
  exact hwalk.count_pos hwf hrest.cons_inv.1

/-- What the link of a cell points to. -/
theorem Wf.next_pos (hwf : s.Wf none contents) (hc : s.cells q = some c) (hp : c.next = some p) :
    0 < s.count p := by
  rw [← hwf.refs_eq_count]
  refine Store.refs_pos (l := .next q) hwf.bounded ?_
  show (s.cells q).bind Cell.next = some p
  rw [hc]
  exact hp

end Store

end Ns3.Lib
