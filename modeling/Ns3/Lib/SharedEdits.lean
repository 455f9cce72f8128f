import Ns3.Lib.SharedList

/-!
# Edits of one list of a family

Each edit keeps the counts right, and changes the contents of one list. A cell
with other references is replaced by a copy (`Wf.replaceShared`) or linked
around (`Wf.unlinkShared`); a cell of its own can also be freed or changed.
-/

namespace Ns3.Lib.Store

variable {α : Type} {s s' : Store α} {p q i : ℕ} {o : Option ℕ} {c : Cell α} {v : α}
variable {contents : ℕ → List (ℕ × α)} {xs ys : List (ℕ × α)} {x : ℕ × α}

theorem ind_some (p q : ℕ) : ind (some p) q = if q = p then 1 else 0 := by
  unfold ind
  by_cases h : q = p
  · rw [if_pos h, if_pos (by rw [h])]
  · rw [if_neg h, if_neg fun heq => h (Option.some.inj heq).symm]

/-- The cell at the cursor. -/
theorem Cursor.cell (h : Cursor s contents i xs (x :: ys)) (hwf : s.Wf none contents)
    (hi : i < s.lists) : ∃ c, s.cells x.1 = some c ∧ c.value = x.2 ∧
      Seg s (s.heads i) xs (some x.1) ∧ Seg s c.next ys none := by
  obtain ⟨o, hwalk, hrest⟩ := h.split hwf hi
  obtain ⟨rfl, c, hc, hv, hys⟩ := hrest.cons_inv
  exact ⟨c, hc, hv, hwalk, hys⟩

theorem Bounded.ne_brk (h : s.Bounded) (hc : s.cells p = some c) : p ≠ s.brk := by
  rintro rfl
  rw [h.cells _ (Nat.le_refl _)] at hc
  cases hc

/-- The link of the cell at the cursor does not go back. -/
theorem Cursor.next_ne (h : Cursor s contents i xs (x :: ys)) (hwf : s.Wf none contents)
    (hi : i < s.lists) (hys : Seg s o ys none) {y : ℕ × α} (hy : y ∈ xs ++ [x]) :
    o ≠ some y.1 := by
  rintro rfl
  obtain ⟨hxs, hnodup, hdisjoint⟩ := h.nodup hwf hi
  cases ys with
  | nil => cases hys.nil_inv
  | cons z ys =>
    have hz : y.1 = z.1 := Option.some.inj hys.cons_inv.1
    rcases List.mem_append.mp hy with hy | hy
    · refine hdisjoint y hy (List.mem_map.mpr ⟨z, ?_, hz.symm⟩)
      exact List.mem_cons_of_mem _ List.mem_cons_self
    · rw [List.mem_singleton] at hy
      subst hy
      refine (List.nodup_cons.mp hnodup).1 (List.mem_map.mpr ⟨z, List.mem_cons_self, hz.symm⟩)

theorem Seg.head_eq (h : Seg s o ys none) {y : ℕ × α} (hy : ys.head? = some y) : o = some y.1 := by
  cases ys with
  | nil => cases hy
  | cons z ys =>
    cases hy
    exact h.cons_inv.1

/-- The cell at the cursor, which other lists use, is replaced by a new one with the same link. -/
theorem Wf.replaceShared (hwf : s.Wf none contents) (hi : i < s.lists)
    (h : Cursor s contents i xs (x :: ys)) (hmany : 1 < s.count x.1) (hc : s.cells x.1 = some c)
    (v : α) {t : Store α} (ht : t = (((s.recount x.1 (· - 1)).alloc ⟨c.next, 1, v⟩).acquire
      c.next).write (some s.brk) (locOf i xs)) :
    t.Wf none (Function.update contents i (xs ++ (s.brk, v) :: ys)) ∧
      Cursor t (Function.update contents i (xs ++ (s.brk, v) :: ys)) i (xs ++ [(s.brk, v)]) ys ∧
      (∀ y, ys.head? = some y → 1 < t.count y.1) ∧ t.lists = s.lists := by
  obtain ⟨c', hc', -, hwalk, hys⟩ := h.cell hwf hi
  obtain rfl : c = c' := Option.some.inj (hc.symm.trans hc')
  obtain ⟨hxs, -, hdisjoint⟩ := h.nodup hwf hi
  have hpos : 0 < s.count x.1 := Nat.lt_trans Nat.zero_lt_one hmany
  have hbrk : x.1 ≠ s.brk := hwf.bounded.ne_brk hc
  have hnextBrk : ind c.next s.brk = 0 := by
    refine ind_of_ne fun heq => ?_
    obtain ⟨c'', hc''⟩ := exists_cell (hwf.next_pos hc heq)
    exact hwf.bounded.ne_brk hc'' rfl
  have hb₁ : (s.recount x.1 (· - 1)).Bounded := hwf.bounded.modify _ _
  have hb₂ := hb₁.alloc ⟨c.next, 1, v⟩
  have hb₃ := hb₂.acquire c.next
  -- the counts before the location is written
  have hcount₂ : ∀ q, ((s.recount x.1 (· - 1)).alloc ⟨c.next, 1, v⟩).count q =
      (if q = x.1 then s.count q - 1 else s.count q) + if q = s.brk then 1 else 0 := by
    intro q
    rw [count_alloc hb₁, count_recount _ _ _ hpos]
    rfl
  have hnext₂ : ∀ p, c.next = some p →
      0 < ((s.recount x.1 (· - 1)).alloc ⟨c.next, 1, v⟩).count p := by
    intro p hp
    have hp' := hwf.next_pos hc hp
    rw [hcount₂]
    split
    · rename_i heq
      rw [heq]
      omega
    · omega
  have hcount : ∀ q, t.count q = (if q = x.1 then s.count q - 1 else s.count q) +
      (if q = s.brk then 1 else 0) + ind c.next q := by
    intro q
    rw [ht, count_write, count_acquire hnext₂, hcount₂]
  have hold : ∀ {ys : List (ℕ × α)} {o : Option ℕ}, Seg s o ys none →
      Seg (((s.recount x.1 (· - 1)).alloc ⟨c.next, 1, v⟩).acquire c.next) o ys none :=
    fun hseg => ((hseg.recount _ _).alloc hb₁ _).acquire _
  have hwalk₃ : Seg (((s.recount x.1 (· - 1)).alloc ⟨c.next, 1, v⟩).acquire c.next)
      ((((s.recount x.1 (· - 1)).alloc ⟨c.next, 1, v⟩).acquire c.next).heads i) xs (some x.1) := by
    rw [heads_acquire]
    exact ((hwalk.recount _ _).alloc hb₁ _).acquire _
  have hnew : Seg (((s.recount x.1 (· - 1)).alloc ⟨c.next, 1, v⟩).acquire c.next) (some s.brk)
      ((s.brk, v) :: ys) none := by
    refine Seg.acquire (.cons (c := ⟨c.next, 1, v⟩) ?_ ((hys.recount _ _).alloc hb₁ _)) _
    rw [cells_alloc]
    exact if_pos rfl
  have hvalid := hwalk₃.locOf_valid (by rw [lists_acquire]; exact hi)
  have hlists : t.lists = s.lists := by
    rw [ht, lists_write, lists_acquire]
    rfl
  have hcontents : (Function.update contents i (xs ++ (s.brk, v) :: ys)) i =
      xs ++ (s.brk, v) :: ys := Function.update_self _ _ _
  refine ⟨⟨?_, ?_, ?_⟩, ⟨?_, ?_⟩, ?_, hlists⟩
  · rw [ht]
    exact hb₃.write _ hvalid
  · intro q
    have hrefs := refs_write hb₃ hvalid (some s.brk) q
    rw [hwalk₃.read_locOf, refs_acquire, refs_alloc, refs_recount, hwf.refs_eq_count, ← ht, ind_some,
      ind_some] at hrefs
    dsimp only at hrefs
    rw [hcount, ind_none]
    by_cases hx : q = x.1
    · subst hx
      rw [if_pos rfl, if_neg hbrk] at *
      omega
    · rw [if_neg hx] at *
      omega
  · rw [ht]
    refine chains_write ?_ hwalk₃ hxs ?_ hnew ?_
    · intro j hj
      rw [lists_acquire] at hj
      rw [heads_acquire]
      exact hold (hwf.chains j hj)
    · intro j hj
      rw [lists_acquire] at hj
      exact h.not_mem hwf hi j hj
    · intro y hy hmem
      rcases List.mem_cons.mp hmem with heq | hmem
      · obtain ⟨zs, zs', rfl⟩ := List.append_of_mem hy
        obtain ⟨o', -, hrest⟩ := hwalk.split
        obtain ⟨-, d, hd, -⟩ := hrest.cons_inv
        exact hwf.bounded.ne_brk hd heq
      · exact hdisjoint y hy (List.mem_cons_of_mem _ hmem)
  · rw [hcontents, List.append_assoc]
    rfl
  · intro y hy
    rw [hcount]
    rcases List.mem_append.mp hy with hy' | hy'
    · have hne : y.1 ≠ x.1 := fun heq =>
        hdisjoint y hy' (List.mem_map.mpr ⟨x, List.mem_cons_self, heq.symm⟩)
      have hnext := ind_of_ne (h.next_ne hwf hi hys (List.mem_append_left _ hy'))
      have hown := h.own y hy'
      rw [if_neg hne, hnext]
      split
      · rename_i heq
        rw [heq]
        unfold count
        rw [hwf.bounded.cells _ (Nat.le_refl _)]
        exact Nat.le_refl _
      · omega
    · rw [List.mem_singleton] at hy'
      rw [hy', if_neg (Ne.symm hbrk), if_pos rfl, hnextBrk]
      unfold count
      rw [hwf.bounded.cells _ (Nat.le_refl _)]
      exact Nat.le_refl _
  · intro y hy
    have hnext := hys.head_eq hy
    have hpos' := hwf.next_pos hc hnext
    have hne : y.1 ≠ x.1 := by
      intro heq
      exact h.next_ne hwf hi hys (List.mem_append_right _ (List.mem_singleton.mpr rfl))
        (hnext.trans (by rw [heq]))
    rw [hcount, if_neg hne, hnext, ind_self]
    omega

/-- The cell at the cursor, which other lists use, is linked around. -/
theorem Wf.unlinkShared (hwf : s.Wf none contents) (hi : i < s.lists)
    (h : Cursor s contents i xs (x :: ys)) (hmany : 1 < s.count x.1) (hc : s.cells x.1 = some c)
    {t : Store α} (ht : t = ((s.write c.next (locOf i xs)).recount x.1 (· - 1)).acquire c.next) :
    t.Wf none (Function.update contents i (xs ++ ys)) ∧ t.lists = s.lists := by
  obtain ⟨c', hc', -, hwalk, hys⟩ := h.cell hwf hi
  obtain rfl : c = c' := Option.some.inj (hc.symm.trans hc')
  obtain ⟨hxs, -, hdisjoint⟩ := h.nodup hwf hi
  have hvalid := hwalk.locOf_valid hi
  have hb₁ := hwf.bounded.write c.next hvalid
  have hcount₂ : ∀ q, ((s.write c.next (locOf i xs)).recount x.1 (· - 1)).count q =
      if q = x.1 then s.count q - 1 else s.count q := by
    intro q
    rw [count_recount _ _ _ (by rw [count_write]; omega), count_write]
  have hnext₂ : ∀ p, c.next = some p →
      0 < ((s.write c.next (locOf i xs)).recount x.1 (· - 1)).count p := by
    intro p hp
    have hp' := hwf.next_pos hc hp
    rw [hcount₂]
    split
    · rename_i heq
      rw [heq]
      omega
    · exact hp'
  have hlists : t.lists = s.lists := by
    rw [ht, lists_acquire]
    exact lists_write _ _
  have hchains := chains_write hwf.chains hwalk hxs (h.not_mem hwf hi) hys fun y hy hmem =>
    hdisjoint y hy (List.mem_cons_of_mem _ hmem)
  refine ⟨⟨?_, ?_, ?_⟩, hlists⟩
  · rw [ht]
    exact (hb₁.modify _ _).acquire _
  · intro q
    have hrefs := refs_write hwf.bounded hvalid c.next q
    rw [hwalk.read_locOf, ind_some, hwf.refs_eq_count] at hrefs
    rw [ht, count_acquire hnext₂, hcount₂, refs_acquire, refs_recount, ind_none]
    by_cases hx : q = x.1
    · subst hx
      rw [if_pos rfl] at *
      omega
    · rw [if_neg hx] at *
      omega
  · intro j hj
    rw [hlists, ← lists_write (s := s) c.next (locOf i xs)] at hj
    rw [ht, heads_acquire]
    exact ((hchains j hj).recount _ _).acquire _

/-- The cell at the cursor, which only this list uses, is linked around and freed. -/
theorem Wf.unlinkOwned (hwf : s.Wf none contents) (hi : i < s.lists)
    (h : Cursor s contents i xs (x :: ys)) (hone : s.count x.1 ≤ 1) (hc : s.cells x.1 = some c)
    {t : Store α} (ht : t = (s.write c.next (locOf i xs)).free x.1) :
    t.Wf none (Function.update contents i (xs ++ ys)) ∧ t.lists = s.lists := by
  obtain ⟨c', hc', -, hwalk, hys⟩ := h.cell hwf hi
  obtain rfl : c = c' := Option.some.inj (hc.symm.trans hc')
  obtain ⟨hxs, hnodup, hdisjoint⟩ := h.nodup hwf hi
  have hvalid := hwalk.locOf_valid hi
  have hb₁ := hwf.bounded.write c.next hvalid
  have hpos := h.count_pos hwf hi
  have hlists : t.lists = s.lists := by
    rw [ht]
    exact lists_write _ _
  have hloc : locOf i xs ≠ .next x.1 := by
    intro heq
    obtain ⟨y, hy, heq⟩ := List.mem_map.mp (locOf_eq_next heq)
    exact hdisjoint y hy (List.mem_map.mpr ⟨x, List.mem_cons_self, heq.symm⟩)
  have hcell : (s.write c.next (locOf i xs)).cells x.1 = some c := by
    rw [cells_write _ hloc]
    exact hc
  have hchains := chains_write hwf.chains hwalk hxs (h.not_mem hwf hi) hys fun y hy hmem =>
    hdisjoint y hy (List.mem_cons_of_mem _ hmem)
  have hgone := (h.next hone).not_mem hwf hi
  refine ⟨⟨?_, ?_, ?_⟩, hlists⟩
  · rw [ht]
    exact hb₁.free _
  · intro q
    have hrefs := refs_write hwf.bounded hvalid c.next q
    have hfree := refs_free hb₁ hcell q
    rw [hwalk.read_locOf, ind_some, hwf.refs_eq_count] at hrefs
    rw [ht, count_free, count_write, ind_none]
    by_cases hx : q = x.1
    · subst hx
      rw [if_pos rfl] at *
      omega
    · rw [if_neg hx] at *
      omega
  · intro j hj
    rw [hlists, ← lists_write (s := s) c.next (locOf i xs)] at hj
    rw [ht]
    refine (hchains j hj).free ?_
    by_cases hij : j = i
    · subst hij
      rw [Function.update_self, List.map_append]
      intro hmem
      rcases List.mem_append.mp hmem with hmem | hmem
      · obtain ⟨y, hy, heq⟩ := List.mem_map.mp hmem
        exact hdisjoint y hy (List.mem_map.mpr ⟨x, List.mem_cons_self, heq.symm⟩)
      · exact (List.nodup_cons.mp hnodup).1 hmem
    · rw [Function.update_of_ne hij]
      rw [lists_write] at hj
      exact hgone j hj hij x (List.mem_append_right _ (List.mem_singleton.mpr rfl))

/-- The value of a cell that only one list uses. -/
theorem Wf.setValue (hwf : s.Wf none contents) (hi : i < s.lists)
    (h : Cursor s contents i xs (x :: ys)) (hone : s.count x.1 ≤ 1) (f : α → α) {t : Store α}
    (ht : t = s.modify x.1 fun c => { c with value := f c.value }) :
    t.Wf none (Function.update contents i (xs ++ (x.1, f x.2) :: ys)) ∧ t.lists = s.lists := by
  obtain ⟨c, hc, hv, hwalk, hys⟩ := h.cell hwf hi
  obtain ⟨-, hnodup, hdisjoint⟩ := h.nodup hwf hi
  have hgone := (h.next hone).not_mem hwf hi
  have hframe : ∀ {ys : List (ℕ × α)} {o o' : Option ℕ}, Seg s o ys o' →
      x.1 ∉ ys.map Prod.fst → Seg t o ys o' := by
    intro ys o o' hseg hnot
    refine hseg.frame fun y hy d hd => ⟨d, ?_, rfl, rfl⟩
    rw [ht, cells_modify, if_neg ?_]
    · exact hd
    · rintro heq
      exact hnot (List.mem_map.mpr ⟨y, hy, heq⟩)
  have hlists : t.lists = s.lists := by rw [ht]; rfl
  refine ⟨⟨?_, ?_, ?_⟩, hlists⟩
  · rw [ht]
    exact hwf.bounded.modify _ _
  · intro q
    have hcount : t.count q = s.count q := by
      unfold count
      rw [ht, cells_modify]
      split
      · cases s.cells q <;> rfl
      · rfl
    rw [hcount, ht, refs_modify (f := fun c => { c with value := f c.value }) (fun _ => rfl)]
    exact hwf.balanced q
  · intro j hj
    rw [hlists] at hj
    have hheads : t.heads = s.heads := by rw [ht]; rfl
    rw [hheads]
    by_cases hij : j = i
    · subst hij
      rw [Function.update_self]
      refine (hframe hwalk ?_).trans ?_
      · intro hmem
        obtain ⟨y, hy, heq⟩ := List.mem_map.mp hmem
        exact hdisjoint y hy (List.mem_map.mpr ⟨x, List.mem_cons_self, heq.symm⟩)
      · have hcell : t.cells x.1 = some { c with value := f c.value } := by
          rw [ht, cells_modify, if_pos rfl, hc]
          rfl
        have hrest := Seg.cons (c := { c with value := f c.value }) hcell
          (hframe hys (List.nodup_cons.mp hnodup).1)
        rw [← hv]
        exact hrest
    · rw [Function.update_of_ne hij]
      exact hframe (hwf.chains j hj)
        (hgone j hj hij x (List.mem_append_right _ (List.mem_singleton.mpr rfl)))

/-- A list gets new contents from its head on. -/
theorem chains_writeHead (h : ∀ j < s.lists, Seg s (s.heads j) (contents j) none) (i : ℕ)
    (hys : Seg s o ys none) : ∀ j < (s.write o (.head i)).lists, Seg (s.write o (.head i))
      ((s.write o (.head i)).heads j) (Function.update contents i ys j) none := by
  have hwalk : Seg s (s.heads i) [] (s.heads i) := .nil _
  exact chains_write h hwalk List.nodup_nil (fun _ _ _ x hx => by cases hx) hys
    fun x hx => by cases hx

/-- A new cell in front of a list. -/
theorem Wf.push (hwf : s.Wf none contents) (hi : i < s.lists) (v : α) {t : Store α}
    (ht : t = (s.alloc ⟨s.heads i, 1, v⟩).write (some s.brk) (.head i)) :
    t.Wf none (Function.update contents i ((s.brk, v) :: contents i)) ∧ t.lists = s.lists := by
  have hb₁ := hwf.bounded.alloc ⟨s.heads i, 1, v⟩
  have hvalid : (s.alloc ⟨s.heads i, 1, v⟩).Valid (.head i) := .inl ⟨i, hi, rfl⟩
  have hlists : t.lists = s.lists := by rw [ht]; rfl
  have hfresh : s.count s.brk = 0 := by
    unfold count
    rw [hwf.bounded.cells _ (Nat.le_refl _)]
    rfl
  have hnew : Seg (s.alloc ⟨s.heads i, 1, v⟩) (some s.brk) ((s.brk, v) :: contents i) none := by
    refine .cons (c := ⟨s.heads i, 1, v⟩) ?_ ((hwf.chains i hi).alloc hwf.bounded _)
    rw [cells_alloc]
    exact if_pos rfl
  refine ⟨⟨?_, ?_, ?_⟩, hlists⟩
  · rw [ht]
    exact hb₁.write _ hvalid
  · intro q
    have hrefs := refs_write hb₁ hvalid (some s.brk) q
    rw [refs_alloc, hwf.refs_eq_count, ind_some] at hrefs
    change _ + ind (s.heads i) q = s.count q + ind (s.heads i) q + _ at hrefs
    rw [ht, count_write, count_alloc hwf.bounded, ind_none]
    dsimp only
    omega
  · rw [ht]
    exact chains_writeHead (s := s.alloc ⟨s.heads i, 1, v⟩)
      (fun j hj => (hwf.chains j hj).alloc hwf.bounded _) i hnew

/-- A new list with the cells of another one. -/
theorem Wf.newList (hwf : s.Wf none contents) {xs : List (ℕ × α)} (hseg : Seg s o xs none)
    (ho : ∀ p, o = some p → 0 < s.count p) :
    ((s.acquire o).newList o).Wf none (Function.update contents s.lists xs) where
  bounded := (hwf.bounded.acquire o).newList o
  balanced q := by
    have hcount : ((s.acquire o).newList o).count q = (s.acquire o).count q := rfl
    rw [hcount, count_acquire ho, refs_newList, refs_acquire, hwf.refs_eq_count]
    rfl
  chains j hj := by
    have hold : ∀ {o' : Option ℕ} {ys : List (ℕ × α)}, Seg s o' ys none →
        Seg ((s.acquire o).newList o) o' ys none :=
      fun h => (h.acquire o).frame fun x _ c hc => ⟨c, hc, rfl, rfl⟩
    change j < (s.acquire o).lists + 1 at hj
    rw [lists_acquire] at hj
    show Seg _ (Function.update (s.acquire o).heads (s.acquire o).lists o j) _ none
    rw [lists_acquire, heads_acquire]
    by_cases hj' : j = s.lists
    · subst hj'
      rw [Function.update_self, Function.update_self]
      exact hold hseg
    · rw [Function.update_of_ne hj', Function.update_of_ne hj']
      exact hold (hwf.chains j (by omega))

/-- An empty list comes to share the cells of another one. -/
theorem Wf.share (hwf : s.Wf none contents) (hi : i < s.lists) (hempty : s.heads i = none)
    {xs : List (ℕ × α)} (hseg : Seg s o xs none) (ho : ∀ p, o = some p → 0 < s.count p) :
    ((s.write o (.head i)).acquire o).Wf none (Function.update contents i xs) where
  bounded := (hwf.bounded.write o (.inl ⟨i, hi, rfl⟩)).acquire o
  balanced q := by
    have hrefs := refs_write hwf.bounded (.inl ⟨i, hi, rfl⟩) o q
    have hread : s.read (.head i) = none := hempty
    rw [hread, ind_none, hwf.refs_eq_count] at hrefs
    rw [count_acquire (by rw [show (s.write o (.head i)).count = s.count from rfl]; exact ho),
      count_write, refs_acquire, ind_none]
    omega
  chains j hj := by
    rw [lists_acquire] at hj
    rw [heads_acquire]
    exact (chains_writeHead hwf.chains i hseg j hj).acquire o

/-- A list is emptied, and its link is kept for later. -/
theorem Wf.takeHead (hwf : s.Wf none contents) (hi : i < s.lists) :
    (s.write none (.head i)).Wf (s.heads i) (Function.update contents i []) where
  bounded := hwf.bounded.write none (.inl ⟨i, hi, rfl⟩)
  balanced q := by
    have hrefs := refs_write hwf.bounded (.inl ⟨i, hi, rfl⟩) none q
    rw [ind_none, hwf.refs_eq_count] at hrefs
    rw [count_write]
    exact hrefs.symm
  chains := chains_writeHead hwf.chains i (.nil none)

/-- A link that is kept gives back one of several references. -/
theorem Wf.dropShared (hwf : s.Wf (some p) contents) (hmany : 1 < s.count p) :
    (s.recount p (· - 1)).Wf none contents where
  bounded := hwf.bounded.modify _ _
  balanced q := by
    have hq := hwf.balanced q
    rw [ind_some] at hq
    rw [count_recount _ _ _ (by omega), refs_recount, ind_none]
    split <;> simp_all
  chains j hj := (hwf.chains j hj).recount _ _

/-- A link that is kept is the only one to its cell, which is freed. -/
theorem Wf.dropOwned (hwf : s.Wf (some p) contents) (hone : s.count p ≤ 1)
    (hc : s.cells p = some c) : (s.free p).Wf c.next contents where
  bounded := hwf.bounded.free _
  balanced q := by
    have hp := hwf.balanced p
    have hq := hwf.balanced q
    have hfree := refs_free hwf.bounded hc q
    rw [ind_self] at hp
    rw [ind_some] at hq
    rw [count_free]
    by_cases heq : q = p
    · subst heq
      rw [if_pos rfl] at *
      omega
    · rw [if_neg heq] at *
      omega
  chains j hj := by
    refine (hwf.chains j hj).free fun hmem => ?_
    obtain ⟨y, hy, rfl⟩ := List.mem_map.mp hmem
    obtain ⟨ys, zs, heq⟩ := List.append_of_mem hy
    have hchain := hwf.chains j hj
    rw [heq] at hchain
    have hpos := hchain.refs_pos hwf.bounded
    have hp := hwf.balanced y.1
    rw [ind_self] at hp
    omega

end Ns3.Lib.Store
