import Mathlib.Logic.Equiv.Basic
import Mathlib.Order.Lattice

/-!
# Binary heaps

The positions of a binary heap are numbered from 1: the parent of `i` is `i / 2`.
An array is a function on positions with a bound `n` that positions stay
below, and the elements are compared by their keys. An exchange of two positions
is `swapped`; sifting an element up or down is a sequence of exchanges with a
parent or with the lesser child. `UpOrder` and `DownOrder` are what holds in
between, when all that may be wrong is at one position.
-/

namespace Ns3.Lib.BinaryHeap

variable {α κ : Type} [LinearOrder κ] {key : α → κ} {f g : ℕ → α} {n i j k : ℕ}

/-- No element is less than its parent. -/
def Ordered (key : α → κ) (f : ℕ → α) (n : ℕ) : Prop :=
  ∀ i, 2 ≤ i → i < n → key (f (i / 2)) ≤ key (f i)

/-- The least element of a heap is at the root. -/
theorem Ordered.root_le (h : Ordered key f n) (hi : 1 ≤ i) (hin : i < n) :
    key (f 1) ≤ key (f i) := by
  induction i using Nat.strong_induction_on with
  | _ i ih =>
    rcases hi.lt_or_eq with hlt | rfl
    · exact (ih (i / 2) (by omega) (by omega) (by omega)).trans (h i hlt hin)
    · exact le_rfl

theorem Ordered.mono {m : ℕ} (h : Ordered key f n) (hm : m ≤ n) : Ordered key f m :=
  fun i h2 hi => h i h2 (by omega)

/-! ## Exchanges -/

def swapped (f : ℕ → α) (i j : ℕ) : ℕ → α := f ∘ Equiv.swap i j

theorem swapped_left : swapped f i j i = f j := congrArg f (Equiv.swap_apply_left i j)

theorem swapped_right : swapped f i j j = f i := congrArg f (Equiv.swap_apply_right i j)

theorem swapped_of_ne (hi : k ≠ i) (hj : k ≠ j) : swapped f i j k = f k :=
  congrArg f (Equiv.swap_apply_of_ne_of_ne hi hj)

/-- The same elements in another order. -/
def Rearranged (n : ℕ) (f g : ℕ → α) : Prop :=
  ∃ σ : Equiv.Perm ℕ, (∀ i, 1 ≤ i ∧ i < n ↔ 1 ≤ σ i ∧ σ i < n) ∧
    ∀ i, 1 ≤ i → i < n → g i = f (σ i)

theorem Rearranged.refl : Rearranged n f f := ⟨Equiv.refl ℕ, fun _ => Iff.rfl, fun _ _ _ => rfl⟩

theorem Rearranged.trans {e : ℕ → α} (h : Rearranged n e f) (h' : Rearranged n f g) :
    Rearranged n e g := by
  obtain ⟨σ, hσ, hf⟩ := h
  obtain ⟨τ, hτ, hg⟩ := h'
  refine ⟨τ.trans σ, fun i => (hτ i).trans (hσ (τ i)), fun i h1 hn => ?_⟩
  obtain ⟨h1', hn'⟩ := (hτ i).mp ⟨h1, hn⟩
  exact (hg i h1 hn).trans (hf (τ i) h1' hn')

theorem Rearranged.swapped (hi : 1 ≤ i) (hin : i < n) (hj : 1 ≤ j) (hjn : j < n) :
    Rearranged n f (swapped f i j) := by
  refine ⟨Equiv.swap i j, fun k => ?_, fun _ _ _ => rfl⟩
  by_cases hki : k = i
  · subst hki
    rw [Equiv.swap_apply_left]
    omega
  by_cases hkj : k = j
  · subst hkj
    rw [Equiv.swap_apply_right]
    omega
  · rw [Equiv.swap_apply_of_ne_of_ne hki hkj]

/-- The element is at a position of the heap. -/
def Holds (n : ℕ) (f : ℕ → α) (a : α) : Prop := ∃ i, 1 ≤ i ∧ i < n ∧ f i = a

theorem Rearranged.holds_iff (h : Rearranged n f g) {a : α} : Holds n g a ↔ Holds n f a := by
  obtain ⟨σ, hσ, hg⟩ := h
  constructor
  · rintro ⟨i, h1, hn, rfl⟩
    obtain ⟨h1', hn'⟩ := (hσ i).mp ⟨h1, hn⟩
    exact ⟨σ i, h1', hn', (hg i h1 hn).symm⟩
  · rintro ⟨i, h1, hn, rfl⟩
    have hinv : σ (σ.symm i) = i := σ.apply_symm_apply i
    obtain ⟨h1', hn'⟩ := (hσ (σ.symm i)).mpr (by rw [hinv]; exact ⟨h1, hn⟩)
    exact ⟨σ.symm i, h1', hn', by rw [hg _ h1' hn', hinv]⟩

/-- Different positions have elements with different names. -/
def Distinct {ι : Type} (name : α → ι) (n : ℕ) (f : ℕ → α) : Prop :=
  ∀ i j, 1 ≤ i → i < n → 1 ≤ j → j < n → name (f i) = name (f j) → i = j

theorem Rearranged.distinct {ι : Type} {name : α → ι} (h : Rearranged n f g)
    (hd : Distinct name n f) : Distinct name n g := by
  obtain ⟨σ, hσ, hg⟩ := h
  intro i j hi hin hj hjn heq
  obtain ⟨hi', hin'⟩ := (hσ i).mp ⟨hi, hin⟩
  obtain ⟨hj', hjn'⟩ := (hσ j).mp ⟨hj, hjn⟩
  rw [hg i hi hin, hg j hj hjn] at heq
  exact σ.injective (hd _ _ hi' hin' hj' hjn' heq)

/-! ## Sifting up -/

/-- Only the element at `k` may be less than its parent, and the elements under it are in order with
that parent. -/
structure UpOrder (key : α → κ) (f : ℕ → α) (n k : ℕ) : Prop where
  off : ∀ i, 2 ≤ i → i < n → i ≠ k → key (f (i / 2)) ≤ key (f i)
  bridge : 2 ≤ k → ∀ i, i < n → i / 2 = k → key (f (k / 2)) ≤ key (f i)

theorem UpOrder.finish (h : UpOrder key f n k) (hk : 2 ≤ k → key (f (k / 2)) ≤ key (f k)) :
    Ordered key f n := by
  intro i h2 hi
  rcases eq_or_ne i k with rfl | hne
  · exact hk h2
  · exact h.off i h2 hi hne

/-- An exchange with the parent takes what is wrong one level up. -/
theorem UpOrder.move (h : UpOrder key f n k) (hk : 2 ≤ k) (hkn : k < n)
    (hlt : key (f k) < key (f (k / 2))) : UpOrder key (swapped f k (k / 2)) n (k / 2) := by
  constructor
  · intro i h2 hi hne
    rcases eq_or_ne i k with rfl | hik
    · rw [swapped_left, swapped_right]
      exact hlt.le
    · rw [swapped_of_ne hik hne]
      rcases eq_or_ne (i / 2) k with hpk | hpk
      · rw [hpk, swapped_left]
        exact h.bridge hk i hi hpk
      rcases eq_or_ne (i / 2) (k / 2) with hpp | hpp
      · rw [hpp, swapped_right]
        exact hlt.le.trans (hpp ▸ h.off i h2 hi hik)
      · rw [swapped_of_ne hpk hpp]
        exact h.off i h2 hi hik
  · intro hk2 i hi hpi
    have hupper := h.off (k / 2) hk2 (by omega) (by omega)
    rw [swapped_of_ne (k := k / 2 / 2) (by omega) (by omega)]
    rcases eq_or_ne i k with rfl | hik
    · rw [swapped_left]
      exact hupper
    · rw [swapped_of_ne hik (by omega)]
      have hparent := h.off i (by omega) hi hik
      rw [hpi] at hparent
      exact hupper.trans hparent

/-! ## Sifting down -/

/-- Only the children of `k` may be less than their parent, and they are in order with the parent of
`k`. -/
structure DownOrder (key : α → κ) (f : ℕ → α) (n k : ℕ) : Prop where
  off : ∀ i, 2 ≤ i → i < n → i / 2 ≠ k → key (f (i / 2)) ≤ key (f i)
  bridge : 2 ≤ k → ∀ i, i < n → i / 2 = k → key (f (k / 2)) ≤ key (f i)

theorem DownOrder.finish (h : DownOrder key f n k)
    (hk : ∀ i, 2 ≤ i → i < n → i / 2 = k → key (f k) ≤ key (f i)) : Ordered key f n := by
  intro i h2 hi
  rcases eq_or_ne (i / 2) k with hpk | hne
  · rw [hpk]
    exact hk i h2 hi hpk
  · exact h.off i h2 hi hne

/-- An exchange with the lesser child takes what is wrong one level down. -/
theorem DownOrder.move {c : ℕ} (h : DownOrder key f n k) (hk : 1 ≤ k) (hc : c / 2 = k) (hcn : c < n)
    (hleast : ∀ i, 2 ≤ i → i < n → i / 2 = k → key (f c) ≤ key (f i))
    (hle : key (f c) ≤ key (f k)) : DownOrder key (swapped f k c) n c := by
  have hkc : k < c := by omega
  constructor
  · intro i h2 hi hne
    rcases eq_or_ne i k with rfl | hik
    · rw [swapped_left, swapped_of_ne (k := i / 2) (by omega) hne]
      exact h.bridge h2 c hcn hc
    rcases eq_or_ne i c with rfl | hic
    · rw [swapped_right, hc, swapped_left]
      exact hle
    rw [swapped_of_ne hik hic]
    rcases eq_or_ne (i / 2) k with hpk | hpk
    · rw [hpk, swapped_left]
      exact hleast i h2 hi hpk
    · rw [swapped_of_ne hpk hne]
      exact h.off i h2 hi hpk
  · intro hc2 i hi hpi
    rw [hc, swapped_left, swapped_of_ne (k := i) (by omega) (by omega)]
    have hparent := h.off i (by omega) hi (by omega)
    rwa [hpi] at hparent

/-- After the element at `k` is replaced by one that is not less than the parent of `k`. -/
theorem Ordered.downOrder (h : Ordered key f n) (hg : ∀ i, i < n → i ≠ k → g i = f i) (hk : 1 ≤ k)
    (hparent : 2 ≤ k → k < n → key (f (k / 2)) ≤ key (g k)) : DownOrder key g n k := by
  constructor
  · intro i h2 hi hne
    rw [hg (i / 2) (by omega) hne]
    rcases eq_or_ne i k with rfl | hik
    · exact hparent h2 hi
    · rw [hg i hi hik]
      exact h i h2 hi
  · intro hk2 i hi hpi
    rw [hg (k / 2) (by omega) (by omega), hg i hi (by omega)]
    refine (h k hk2 (by omega)).trans ?_
    have hle := h i (by omega) hi
    rwa [hpi] at hle

end Ns3.Lib.BinaryHeap
