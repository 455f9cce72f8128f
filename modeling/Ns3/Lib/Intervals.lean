import Mathlib.Data.List.Basic
import Mathlib.Data.List.Sublists
import Mathlib.Algebra.GroupWithZero.Nat

/-!
# Disjoint intervals

A list of intervals, each an offset and a length, in order and disjoint. `trim`
cuts a new interval, from `h` to `t`, down to what no old one has, and takes
out old ones it covers; `place` puts an interval in; `Tiles` says that
intervals fill a range without a gap.
-/

namespace Ns3.Lib.Intervals

/-- The first interval ends before the second begins, and begins before it. -/
def Before (c c' : ℕ × ℕ) : Prop := c.1 + c.2 ≤ c'.1 ∧ c.1 < c'.1

/-- The sum of the lengths. -/
def total (cs : List (ℕ × ℕ)) : ℕ := (cs.map (·.2)).sum

@[simp] theorem total_nil : total [] = 0 := rfl

@[simp] theorem total_cons (c : ℕ × ℕ) (cs : List (ℕ × ℕ)) : total (c :: cs) = c.2 + total cs := by
  simp [total]

@[simp] theorem total_append (cs cs' : List (ℕ × ℕ)) :
    total (cs ++ cs') = total cs + total cs' := by
  simp [total]

theorem total_sublist {cs cs' : List (ℕ × ℕ)} (h : cs'.Sublist cs) : total cs' ≤ total cs := by
  induction h with
  | slnil => exact le_rfl
  | cons c _ ih =>
    rw [total_cons]
    omega
  | cons_cons c _ ih =>
    rw [total_cons, total_cons]
    omega

/-! ## Tiles -/

/-- The intervals fill the range from `x` to `n`; none is empty. -/
def Tiles (x n : ℕ) : List (ℕ × ℕ) → Prop
  | [] => x = n
  | c :: cs => c.1 = x ∧ 0 < c.2 ∧ Tiles (x + c.2) n cs

theorem Tiles.le {x n : ℕ} {cs : List (ℕ × ℕ)} (h : Tiles x n cs) : x ≤ n := by
  induction cs generalizing x with
  | nil => exact Nat.le_of_eq h
  | cons c cs ih =>
    have := ih h.2.2
    omega

theorem Tiles.total {x n : ℕ} {cs : List (ℕ × ℕ)} (h : Tiles x n cs) : total cs = n - x := by
  induction cs generalizing x with
  | nil =>
    obtain rfl : x = n := h
    simp
  | cons c cs ih =>
    rw [total_cons, ih h.2.2]
    have := h.2.2.le
    omega

/-- The range ends where its last interval does, or is empty. -/
theorem Tiles.end_le {x n B : ℕ} {cs : List (ℕ × ℕ)} (h : Tiles x n cs) (hx : x ≤ B)
    (hcs : ∀ c ∈ cs, c.2 = 0 ∨ c.1 + c.2 ≤ B) : n ≤ B := by
  induction cs generalizing x with
  | nil =>
    obtain rfl : x = n := h
    exact hx
  | cons c cs ih =>
    obtain ⟨rfl, hpos, hrest⟩ := h
    have hc := hcs c List.mem_cons_self
    exact ih hrest (by omega) fun d hd => hcs d (List.mem_cons_of_mem _ hd)

theorem Tiles.append {x n n' : ℕ} {cs cs' : List (ℕ × ℕ)} (h : Tiles x n cs)
    (h' : Tiles n n' cs') : Tiles x n' (cs ++ cs') := by
  induction cs generalizing x with
  | nil =>
    obtain rfl : x = n := h
    exact h'
  | cons c cs ih => exact ⟨h.1, h.2.1, ih h.2.2⟩

theorem Tiles.mem {x n : ℕ} {cs : List (ℕ × ℕ)} (h : Tiles x n cs) {c : ℕ × ℕ} (hc : c ∈ cs) :
    x ≤ c.1 ∧ 0 < c.2 ∧ c.1 + c.2 ≤ n := by
  induction cs generalizing x with
  | nil => cases hc
  | cons d cs ih =>
    have hle := h.2.2.le
    obtain ⟨hd, hpos, hrest⟩ := h
    rcases List.mem_cons.mp hc with rfl | hmem
    · omega
    · have := ih hrest hmem
      omega

/-- Every place of the range is in one of the intervals. -/
theorem Tiles.cover {x n k : ℕ} {cs : List (ℕ × ℕ)} (h : Tiles x n cs) (hx : x ≤ k) (hn : k < n) :
    ∃ c ∈ cs, c.1 ≤ k ∧ k < c.1 + c.2 := by
  induction cs generalizing x with
  | nil =>
    obtain rfl : x = n := h
    omega
  | cons d cs ih =>
    obtain ⟨rfl, hpos, hrest⟩ := h
    by_cases hk : k < d.1 + d.2
    · exact ⟨d, List.mem_cons_self, hx, hk⟩
    · obtain ⟨c, hc, hin⟩ := ih hrest (by omega)
      exact ⟨c, List.mem_cons_of_mem _ hc, hin⟩

theorem Tiles.pairwise {x n : ℕ} {cs : List (ℕ × ℕ)} (h : Tiles x n cs) : cs.Pairwise Before := by
  induction cs generalizing x with
  | nil => exact .nil
  | cons d cs ih =>
    obtain ⟨rfl, hpos, hrest⟩ := h
    refine List.pairwise_cons.mpr ⟨fun c hc => ?_, ih hrest⟩
    have := hrest.mem hc
    unfold Before
    omega

/-! ## Trimming -/

/-- What is left of the range from `h` to `t` and of the intervals. -/
def trim (h t : ℕ) : List (ℕ × ℕ) → ℕ × ℕ × List (ℕ × ℕ)
  | [] => (h, t, [])
  | c :: cs =>
    if t < c.1 then (h, t, c :: cs)
    else if c.1 + c.2 ≤ h then
      let r := trim h t cs
      (r.1, r.2.1, c :: r.2.2)
    else if h < c.1 ∧ c.1 + c.2 < t then trim h t cs
    else
      let r := trim (if c.1 ≤ h then c.1 + c.2 else h) (if t ≤ c.1 + c.2 then c.1 else t) cs
      (r.1, r.2.1, c :: r.2.2)

theorem trim_sublist {h t : ℕ} {cs : List (ℕ × ℕ)} : (trim h t cs).2.2.Sublist cs := by
  induction cs generalizing h t with
  | nil => exact .slnil
  | cons c cs ih =>
    unfold trim
    split
    · exact .refl _
    split
    · exact ih.cons_cons c
    split
    · exact ih.cons c
    · exact ih.cons_cons c

theorem trim_head_le {h t : ℕ} {cs : List (ℕ × ℕ)} : h ≤ (trim h t cs).1 := by
  induction cs generalizing h t with
  | nil => exact le_rfl
  | cons c cs ih =>
    unfold trim
    split
    · exact le_rfl
    split
    · exact ih
    split
    · exact ih
    · refine le_trans ?_ ih
      split <;> omega

theorem trim_head_lt {h t B : ℕ} {cs : List (ℕ × ℕ)} (hh : h < B)
    (hcs : ∀ c ∈ cs, c.1 + c.2 < B) : (trim h t cs).1 < B := by
  induction cs generalizing h t with
  | nil => exact hh
  | cons c cs ih =>
    have hc := hcs c List.mem_cons_self
    have hcs' : ∀ d ∈ cs, d.1 + d.2 < B := fun d hd => hcs d (List.mem_cons_of_mem _ hd)
    unfold trim
    split
    · exact hh
    split
    · exact ih hh hcs'
    split
    · exact ih hh hcs'
    · exact ih (by split <;> omega) hcs'

theorem trim_tail_le {h t : ℕ} {cs : List (ℕ × ℕ)} : (trim h t cs).2.1 ≤ t := by
  induction cs generalizing h t with
  | nil => exact le_rfl
  | cons c cs ih =>
    unfold trim
    split
    · exact le_rfl
    split
    · exact ih
    split
    · exact ih
    · refine le_trans ih ?_
      split <;> omega

/-- Unless nothing is left of the range, the intervals that are left keep off it. -/
theorem trim_disjoint {h t : ℕ} {cs : List (ℕ × ℕ)} (hcs : cs.Pairwise Before)
    (hlt : (trim h t cs).1 < (trim h t cs).2.1) :
    ∀ c ∈ (trim h t cs).2.2, c.1 + c.2 ≤ (trim h t cs).1 ∨ (trim h t cs).2.1 ≤ c.1 := by
  induction cs generalizing h t with
  | nil => exact fun c hc => by cases hc
  | cons d cs ih =>
    obtain ⟨hd, hcs⟩ := List.pairwise_cons.mp hcs
    unfold trim at hlt ⊢
    split at hlt
    · rename_i hout
      rw [if_pos hout]
      intro c hc
      rcases List.mem_cons.mp hc with rfl | hmem
      · exact .inr hout.le
      · have := (hd c hmem).2
        exact .inr (by dsimp only; omega)
    rename_i hin
    rw [if_neg hin]
    split at hlt
    · rename_i hbelow
      rw [if_pos hbelow]
      intro c hc
      rcases List.mem_cons.mp hc with rfl | hmem
      · exact .inl (hbelow.trans trim_head_le)
      · exact ih hcs hlt c hmem
    rename_i hover
    rw [if_neg hover]
    split at hlt
    · rename_i hnested
      rw [if_pos hnested]
      exact ih hcs hlt
    · rename_i hcut
      rw [if_neg hcut]
      intro c hc
      rcases List.mem_cons.mp hc with rfl | hmem
      · -- an interval that covers the whole range leaves nothing of it
        have hhead := @trim_head_le (if c.1 ≤ h then c.1 + c.2 else h)
          (if t ≤ c.1 + c.2 then c.1 else t) cs
        have htail := @trim_tail_le (if c.1 ≤ h then c.1 + c.2 else h)
          (if t ≤ c.1 + c.2 then c.1 else t) cs
        dsimp only at hlt ⊢
        split_ifs at hhead htail hlt ⊢ <;> omega
      · exact ih hcs hlt c hmem

/-- Intervals below the range are left alone. -/
theorem trim_append {h t : ℕ} {cs ds : List (ℕ × ℕ)}
    (hcs : ∀ c ∈ cs, c.1 + c.2 ≤ h ∧ c.1 ≤ t) :
    trim h t (cs ++ ds) = ((trim h t ds).1, (trim h t ds).2.1, cs ++ (trim h t ds).2.2) := by
  induction cs with
  | nil => rfl
  | cons c cs ih =>
    obtain ⟨hbelow, hin⟩ := hcs c List.mem_cons_self
    have hrest := ih fun d hd => hcs d (List.mem_cons_of_mem _ hd)
    rw [List.cons_append, trim, if_neg (by omega), if_pos hbelow, hrest]
    rfl

/-- A range that ends before the intervals begin leaves them alone, and is left alone. -/
theorem trim_of_lt {h t : ℕ} {cs : List (ℕ × ℕ)} (hcs : ∀ c ∈ cs, t < c.1) :
    trim h t cs = (h, t, cs) := by
  cases cs with
  | nil => rfl
  | cons c cs =>
    unfold trim
    rw [if_pos (hcs c List.mem_cons_self)]

/-- The head is where it was, unless one of the intervals reaches over it. -/
theorem trim_head_eq {h t : ℕ} {cs : List (ℕ × ℕ)} (hcs : ∀ c ∈ cs, c.1 ≤ h → c.1 + c.2 ≤ h) :
    (trim h t cs).1 = h := by
  induction cs generalizing t with
  | nil => rfl
  | cons c cs ih =>
    have hc := hcs c List.mem_cons_self
    have hcs' : ∀ d ∈ cs, d.1 ≤ h → d.1 + d.2 ≤ h := fun d hd => hcs d (List.mem_cons_of_mem _ hd)
    unfold trim
    split
    · rfl
    split
    · exact ih hcs'
    split
    · exact ih hcs'
    · rw [if_neg (by omega)]
      exact ih hcs'

theorem le_trim_tail {h t B : ℕ} {cs : List (ℕ × ℕ)} (ht : B ≤ t) (hcs : ∀ c ∈ cs, B ≤ c.1) :
    B ≤ (trim h t cs).2.1 := by
  induction cs generalizing h t with
  | nil => exact ht
  | cons c cs ih =>
    have hc := hcs c List.mem_cons_self
    have hcs' : ∀ d ∈ cs, B ≤ d.1 := fun d hd => hcs d (List.mem_cons_of_mem _ hd)
    unfold trim
    split
    · exact ht
    split
    · exact ih ht hcs'
    split
    · exact ih ht hcs'
    · exact ih (by split <;> omega) hcs'

/-- An interval is taken out only if what is left of the range covers it. -/
theorem trim_erased {h t : ℕ} {cs : List (ℕ × ℕ)} (hcs : cs.Pairwise Before) {c : ℕ × ℕ}
    (hc : c ∈ cs) (herased : c ∉ (trim h t cs).2.2) :
    (trim h t cs).1 < c.1 ∧ c.1 + c.2 ≤ (trim h t cs).2.1 ∧ c.1 + c.2 < t := by
  induction cs generalizing h t with
  | nil => cases hc
  | cons d cs ih =>
    obtain ⟨hd, hcs⟩ := List.pairwise_cons.mp hcs
    unfold trim at herased ⊢
    split at herased
    · exact absurd hc herased
    rename_i hin
    rw [if_neg hin]
    split at herased
    · rename_i hbelow
      rw [if_pos hbelow]
      rcases List.mem_cons.mp hc with rfl | hmem
      · exact absurd List.mem_cons_self herased
      · exact ih hcs hmem fun h => herased (List.mem_cons_of_mem _ h)
    rename_i hover
    rw [if_neg hover]
    split at herased
    · rename_i hnested
      rw [if_pos hnested]
      rcases List.mem_cons.mp hc with rfl | hmem
      · have hhead : (trim h t cs).1 = h := trim_head_eq fun e he hle => by
          have := (hd e he).2
          omega
        have htail := le_trim_tail (h := h) hnested.2.le fun e he => (hd e he).1
        rw [hhead]
        exact ⟨hnested.1, htail, hnested.2⟩
      · exact ih hcs hmem herased
    · rename_i hcut
      rw [if_neg hcut]
      rcases List.mem_cons.mp hc with rfl | hmem
      · exact absurd List.mem_cons_self herased
      · obtain ⟨hhead, htail, hlt⟩ := ih hcs hmem fun h => herased (List.mem_cons_of_mem _ h)
        refine ⟨hhead, htail, hlt.trans_le ?_⟩
        split
        · omega
        · exact le_rfl

/-! ## Putting an interval in -/

/-- The interval before the first one that begins after it, in the place of one that begins where
it does. -/
def place (c : ℕ × ℕ) : List (ℕ × ℕ) → List (ℕ × ℕ)
  | [] => [c]
  | d :: cs =>
    if c.1 < d.1 then c :: d :: cs
    else if c.1 = d.1 then c :: cs
    else d :: place c cs

theorem mem_place {c d : ℕ × ℕ} {cs : List (ℕ × ℕ)} (h : d ∈ place c cs) : d = c ∨ d ∈ cs := by
  induction cs with
  | nil => exact .inl (List.mem_singleton.mp h)
  | cons e cs ih =>
    unfold place at h
    split at h
    · exact List.mem_cons.mp h
    split at h
    · exact (List.mem_cons.mp h).imp id (List.mem_cons_of_mem _)
    · rcases List.mem_cons.mp h with rfl | hmem
      · exact .inr List.mem_cons_self
      · exact (ih hmem).imp id (List.mem_cons_of_mem _)

theorem mem_place_self (c : ℕ × ℕ) (cs : List (ℕ × ℕ)) : c ∈ place c cs := by
  induction cs with
  | nil => exact List.mem_singleton_self c
  | cons e cs ih =>
    unfold place
    split
    · exact List.mem_cons_self
    split
    · exact List.mem_cons_self
    · exact List.mem_cons_of_mem _ ih

theorem mem_place_of_mem {c d : ℕ × ℕ} {cs : List (ℕ × ℕ)} (hd : d ∈ cs) (hne : d.1 ≠ c.1) :
    d ∈ place c cs := by
  induction cs with
  | nil => cases hd
  | cons e cs ih =>
    unfold place
    split
    · exact List.mem_cons_of_mem _ hd
    split
    · rename_i heq
      rcases List.mem_cons.mp hd with rfl | hmem
      · exact absurd heq.symm hne
      · exact List.mem_cons_of_mem _ hmem
    · rcases List.mem_cons.mp hd with rfl | hmem
      · exact List.mem_cons_self
      · exact List.mem_cons_of_mem _ (ih hmem)

/-- Of the old intervals at most an empty one is lost. -/
theorem total_place {c : ℕ × ℕ} {cs : List (ℕ × ℕ)} (h : ∀ d ∈ cs, d.1 = c.1 → d.2 = 0) :
    total (place c cs) = c.2 + total cs := by
  induction cs with
  | nil => rfl
  | cons e cs ih =>
    unfold place
    split
    · rw [total_cons]
    split
    · rename_i heq
      rw [total_cons, total_cons, h e List.mem_cons_self heq.symm, Nat.zero_add]
    · rw [total_cons, total_cons, ih fun d hd => h d (List.mem_cons_of_mem _ hd)]
      omega

theorem pairwise_place {c : ℕ × ℕ} {cs : List (ℕ × ℕ)} (hcs : cs.Pairwise Before)
    (hoff : ∀ d ∈ cs, d.1 + d.2 ≤ c.1 ∨ c.1 + c.2 ≤ d.1) : (place c cs).Pairwise Before := by
  induction cs with
  | nil => exact List.pairwise_singleton _ _
  | cons e cs ih =>
    obtain ⟨he, hrest⟩ := List.pairwise_cons.mp hcs
    have hoff' : ∀ d ∈ cs, d.1 + d.2 ≤ c.1 ∨ c.1 + c.2 ≤ d.1 :=
      fun d hd => hoff d (List.mem_cons_of_mem _ hd)
    have hafter : ∀ d ∈ cs, c.1 ≤ e.1 → Before c d := by
      intro d hd hce
      have := (he d hd).2
      have := hoff' d hd
      unfold Before
      omega
    unfold place
    split
    · rename_i hlt
      refine List.pairwise_cons.mpr ⟨fun d hd => ?_, hcs⟩
      rcases List.mem_cons.mp hd with rfl | hmem
      · have := hoff d List.mem_cons_self
        unfold Before
        omega
      · exact hafter d hmem hlt.le
    split
    · rename_i heq
      exact List.pairwise_cons.mpr ⟨fun d hd => hafter d hd heq.le, hrest⟩
    · rename_i hne hne'
      refine List.pairwise_cons.mpr ⟨fun d hd => ?_, ih hrest hoff'⟩
      rcases mem_place hd with rfl | hmem
      · have := hoff e List.mem_cons_self
        unfold Before
        omega
      · exact he d hmem

theorem place_append {c : ℕ × ℕ} {cs ds : List (ℕ × ℕ)} (h : ∀ d ∈ cs, d.1 < c.1) :
    place c (cs ++ ds) = cs ++ place c ds := by
  induction cs with
  | nil => rfl
  | cons d cs ih =>
    have hd := h d List.mem_cons_self
    rw [List.cons_append, place, if_neg (by omega), if_neg (by omega),
      ih fun e he => h e (List.mem_cons_of_mem _ he)]
    rfl

/-! ## What follows without a gap -/

/-- The intervals from `n` on that follow without a gap, and those that are left. -/
theorem exists_run {n : ℕ} {cs : List (ℕ × ℕ)} (hcs : cs.Pairwise Before) (hn : ∀ c ∈ cs, n ≤ c.1) :
    ∃ n' taken rest, cs = taken ++ rest ∧ Tiles n n' taken ∧
      ∀ c ∈ rest, n' ≤ c.1 ∧ (c.1 = n' → c.2 = 0) := by
  induction cs generalizing n with
  | nil => exact ⟨n, [], [], rfl, rfl, fun c hc => by cases hc⟩
  | cons c cs ih =>
    obtain ⟨hc, hcs⟩ := List.pairwise_cons.mp hcs
    have hnc := hn c List.mem_cons_self
    by_cases hrun : c.1 = n ∧ 0 < c.2
    · obtain ⟨rfl, hpos⟩ := hrun
      obtain ⟨n', taken, rest, rfl, htiles, hrest⟩ := ih hcs fun d hd => (hc d hd).1
      exact ⟨n', c :: taken, rest, rfl, ⟨rfl, hpos, htiles⟩, hrest⟩
    · refine ⟨n, [], c :: cs, rfl, rfl, fun d hd => ?_⟩
      rcases List.mem_cons.mp hd with rfl | hmem
      · omega
      · have := (hc d hmem).2
        omega

/-! ## Intervals apart -/

/-- The interval has this place. -/
def Has (c : ℕ × ℕ) (k : ℕ) : Prop := c.1 ≤ k ∧ k < c.1 + c.2

/-- One of the two intervals ends before the other begins. -/
def Apart (c c' : ℕ × ℕ) : Prop := c.1 + c.2 ≤ c'.1 ∨ c'.1 + c'.2 ≤ c.1

theorem apart_comm {c c' : ℕ × ℕ} : Apart c c' ↔ Apart c' c := or_comm

/-- Intervals that touch are as far from a third one as both of them are. -/
theorem Apart.join {c c' d : ℕ × ℕ} (hd : 0 < d.2) (htouch : c.1 + c.2 = c'.1) (h : Apart c d)
    (h' : Apart c' d) : Apart (c.1, c.2 + c'.2) d := by
  unfold Apart at *
  dsimp only
  omega

theorem Has.join {c c' : ℕ × ℕ} {k : ℕ} (htouch : c.1 + c.2 = c'.1)
    (h : Has (c.1, c.2 + c'.2) k) : Has c k ∨ Has c' k := by
  unfold Has at *
  dsimp only at h
  omega

/-- Disjoint intervals between two places are no longer in all than the range. -/
theorem total_le {n L : ℕ} {cs : List (ℕ × ℕ)} (hcs : cs.Pairwise Before) (hn : ∀ c ∈ cs, n ≤ c.1)
    (hL : ∀ c ∈ cs, c.2 = 0 ∨ c.1 + c.2 ≤ L) : total cs ≤ L - n := by
  induction cs generalizing n with
  | nil => exact Nat.zero_le _
  | cons c cs ih =>
    obtain ⟨hc, hcs⟩ := List.pairwise_cons.mp hcs
    have hnc := hn c List.mem_cons_self
    have hLc := hL c List.mem_cons_self
    have hrest := ih hcs (fun d hd => (hc d hd).1) fun d hd => hL d (List.mem_cons_of_mem _ hd)
    rw [total_cons]
    omega

end Ns3.Lib.Intervals
