import Ns3.Lib.Words
import Ns3.Network.NixVector
import Mathlib.Algebra.BigOperators.Group.List.Basic

/-!
# The round trip of a `NixVector`

What was added last is extracted first. An extraction shifts a word by all its
bits when a multiple of 32 bits is left, which is the total width of what was
added up to that index: `roundTrips_iff`.
-/

namespace Ns3.Network

open Ns3.Lib

/-- An index that fits the number of bits it is added with. -/
structure NeighborIndex where
  index : BitVec 32
  width : ℕ
  pos : 0 < width
  le : width ≤ 32
  lt : index.toNat < 2 ^ width

def totalWidth (es : List NeighborIndex) : ℕ := (es.map NeighborIndex.width).sum

@[simp] theorem totalWidth_nil : totalWidth [] = 0 := rfl

theorem totalWidth_append (es es' : List NeighborIndex) :
    totalWidth (es ++ es') = totalWidth es + totalWidth es' := by
  simp [totalWidth]

@[simp] theorem totalWidth_singleton (e : NeighborIndex) : totalWidth [e] = e.width := by
  simp [totalWidth]

namespace NixVector

def addAll (v : NixVector) (es : List NeighborIndex) : Option NixVector :=
  es.foldlM (fun v e => v.addNeighborIndex e.index e.width) v

def extractAll : NixVector → List ℕ → Option (List (BitVec 32) × NixVector)
  | v, [] => some ([], v)
  | v, n :: ns => do
    let (x, v) ← v.extractNeighborIndex n
    let (xs, v) ← extractAll v ns
    return (x :: xs, v)

/-- The indices come back in the opposite order, and at no point does it matter whether the vector
is written out and read back in. -/
structure RoundTrips (es : List NeighborIndex) : Prop where
  indices : ∃ v v', new.addAll es = some v ∧
    v.extractAll (es.reverse.map NeighborIndex.width) = some (es.reverse.map NeighborIndex.index, v')
  added : ∀ before after v, es = before ++ after → new.addAll before = some v → v.reload = some v
  extracted : ∀ v ns ns' out v', new.addAll es = some v →
    es.reverse.map NeighborIndex.width = ns ++ ns' → v.extractAll ns = some (out, v') →
      v'.reload = some v'

variable {v v' : NixVector} {es : List NeighborIndex} {e : NeighborIndex} {T n : ℕ}

/-! ## Adding -/

/-- `T` bits have been added, the last of them to the last word. -/
structure Packed (v : NixVector) (T : ℕ) : Prop where
  used : v.used = 0
  total : v.totalBitSize = T % 2 ^ 32
  words : ∃ full last, v.nixVector = full ++ [last] ∧
    T = 32 * full.length + v.currentVectorBitSize
  size : v.currentVectorBitSize ≤ 32
  blank : ∀ i, T ≤ i → bitAt v.nixVector i = false

theorem packed_new : Packed new 0 where
  used := rfl
  total := rfl
  words := ⟨[], 0, rfl, rfl⟩
  size := Nat.zero_le _
  blank i _ := by simp [new]

theorem shl_of_lt {x : BitVec 32} (h : n < 32) : shl x n = some (x <<< n) := if_pos h

theorem shr_of_lt {x : BitVec 32} (h : n < 32) : shr x n = some (x >>> n) := if_pos h

theorem getLsbD_of_width_le (e : NeighborIndex) {i : ℕ} (h : e.width ≤ i) :
    e.index.getLsbD i = false :=
  Nat.testBit_lt_two_pow (lt_of_lt_of_le e.lt (Nat.pow_le_pow_right (by decide) h))

/-- The word that an index starts in, of which `c` bits are in use. -/
theorem getLsbD_fill {x last : BitVec 32} {c k : ℕ} (hblank : ∀ k, c ≤ k → last.getLsbD k = false)
    (hk : k < 32) : (x <<< c ||| last).getLsbD k =
      if k < c then last.getLsbD k else x.getLsbD (k - c) := by
  rw [BitVec.getLsbD_or, BitVec.getLsbD_shiftLeft]
  by_cases hc : k < c
  · simp [hc]
  · rw [hblank k (by omega), Bool.or_false, if_neg hc]
    simp [hc, hk]

theorem Packed.last_blank {full : List (BitVec 32)} {last : BitVec 32} (h : Packed v T)
    (hwords : v.nixVector = full ++ [last])
    (hT : T = 32 * full.length + v.currentVectorBitSize) (k : ℕ)
    (hk : v.currentVectorBitSize ≤ k) : last.getLsbD k = false := by
  have hb := h.blank (32 * full.length + k) (by omega)
  rw [hwords, bitAt_append, if_neg (by omega), bitAt_singleton, Nat.add_sub_cancel_left] at hb
  exact hb

/-- An index starts behind the `c` bits in use of the last word, and `rest` has what is left of it. -/
theorem bits_fill {full rest : List (BitVec 32)} {last x : BitVec 32} {c : ℕ} (hc : c ≤ 32)
    (hblank : ∀ k, c ≤ k → last.getLsbD k = false)
    (hrest : ∀ j, bitAt rest j = x.getLsbD (32 + j - c)) (i : ℕ) :
    bitAt (full ++ (x <<< c ||| last) :: rest) i =
      if i < 32 * full.length + c then bitAt (full ++ [last]) i
      else x.getLsbD (i - (32 * full.length + c)) := by
  rw [bitAt_append, bitAt_append, bitAt_singleton]
  by_cases hin : i < 32 * full.length
  · rw [if_pos hin, if_pos hin, if_pos (Nat.lt_add_right c hin)]
  · obtain ⟨j, rfl⟩ := Nat.exists_eq_add_of_le (Nat.le_of_not_lt hin)
    simp only [if_neg hin, Nat.add_sub_cancel_left, Nat.add_lt_add_iff_left, Nat.add_sub_add_left,
      bitAt_cons]
    by_cases hword : j < 32
    · rw [if_pos hword, getLsbD_fill hblank hword]
    · obtain ⟨k, rfl⟩ := Nat.exists_eq_add_of_le (Nat.le_of_not_lt hword)
      have hused : ¬ 32 + k < c := by omega
      rw [if_neg hword, if_neg hused, Nat.add_sub_cancel_left, hrest]

/-- An index is put behind the bits that are there. -/
theorem Packed.add (h : Packed v T) (e : NeighborIndex) :
    ∃ v', v.addNeighborIndex e.index e.width = some v' ∧ Packed v' (T + e.width) ∧
      ∀ i, bitAt v'.nixVector i =
        if i < T then bitAt v.nixVector i else e.index.getLsbD (i - T) := by
  obtain ⟨full, last, hwords, hT⟩ := h.words
  have hpos := e.pos
  have hle := e.le
  have hsize := h.size
  have hlast := h.last_blank hwords hT
  have hback : v.nixVector.getLast? = some last := by simp [hwords]
  have hinit : v.nixVector.dropLast = full := by simp [hwords]
  have htotal : add32 v.totalBitSize e.width = (T + e.width) % 2 ^ 32 := by
    rw [h.total, add32, Nat.mod_add_mod]
  have hcur : add32 v.currentVectorBitSize e.width = v.currentVectorBitSize + e.width :=
    Nat.mod_eq_of_lt (by omega)
  -- the bits behind the index are those of the index, which are 0
  have hblank : ∀ {ws : List (BitVec 32)}, (∀ i, bitAt ws i =
      if i < T then bitAt v.nixVector i else e.index.getLsbD (i - T)) →
      ∀ i, T + e.width ≤ i → bitAt ws i = false := by
    intro ws hws i hi
    have hout : ¬ i < T := Nat.not_lt.mpr (le_trans (Nat.le_add_right _ _) hi)
    rw [hws, if_neg hout, getLsbD_of_width_le e (Nat.le_sub_of_add_le' hi)]
  unfold addNeighborIndex
  rw [if_neg (Nat.not_lt.mpr hle), hcur, htotal]
  by_cases hover : 32 < v.currentVectorBitSize + e.width
  · rw [if_pos hover]
    by_cases hfull : v.currentVectorBitSize = 32
    · rw [if_pos hfull]
      have hTlen : T = 32 * (full.length + 1) := by rw [hT, hfull, Nat.mul_add_one]
      have hws : ∀ i, bitAt (v.nixVector ++ [e.index]) i =
          if i < T then bitAt v.nixVector i else e.index.getLsbD (i - T) := by
        intro i
        rw [bitAt_append, bitAt_singleton, hwords, List.length_append, List.length_singleton, hTlen]
      refine ⟨_, rfl, ⟨h.used, rfl, ⟨v.nixVector, e.index, rfl, ?_⟩, hle, hblank hws⟩, hws⟩
      rw [hwords, List.length_append, List.length_singleton, hTlen]
    · have hlt : v.currentVectorBitSize < 32 := Nat.lt_of_le_of_ne hsize hfull
      have hrest : sub32 32 v.currentVectorBitSize = 32 - v.currentVectorBitSize :=
        sub32_of_le hsize (by decide)
      have hnext : sub32 e.width (32 - v.currentVectorBitSize) =
          v.currentVectorBitSize + e.width - 32 := by
        rw [sub32_of_le (by omega) (lt_of_le_of_lt hle (by decide))]
        omega
      have hws : ∀ i, bitAt (full ++ [e.index <<< v.currentVectorBitSize ||| last,
          e.index >>> (32 - v.currentVectorBitSize)]) i =
          if i < T then bitAt v.nixVector i else e.index.getLsbD (i - T) := by
        rw [hT, hwords]
        refine bits_fill hsize hlast fun j => ?_
        rw [bitAt_singleton, BitVec.getLsbD_ushiftRight, Nat.sub_add_comm hsize]
      rw [if_neg hfull, hrest, hnext, shl_of_lt hlt, shr_of_lt (by omega), hback, hinit]
      refine ⟨_, rfl, ⟨h.used, rfl, ⟨full ++ [_], _, (List.append_assoc _ [_] [_]).symm, ?_⟩, ?_,
        hblank hws⟩, hws⟩
      · rw [List.length_append, List.length_singleton]
        dsimp only
        omega
      · dsimp only
        omega
  · have hlt : v.currentVectorBitSize < 32 := by omega
    have hws : ∀ i, bitAt (full ++ [e.index <<< v.currentVectorBitSize ||| last]) i =
        if i < T then bitAt v.nixVector i else e.index.getLsbD (i - T) := by
      rw [hT, hwords]
      refine bits_fill hsize hlast fun j => ?_
      rw [bitAt_nil, getLsbD_of_width_le e (by omega)]
    rw [if_neg hover, shl_of_lt hlt, hback, hinit]
    refine ⟨_, rfl, ⟨h.used, rfl, ⟨full, _, rfl, ?_⟩, Nat.le_of_not_lt hover, hblank hws⟩, hws⟩
    rw [hT, Nat.add_assoc]

/-- Each index is at the place where those before it end. -/
def Holds (v : NixVector) (start : ℕ) (es : List NeighborIndex) : Prop :=
  ∀ before e after, es = before ++ e :: after → ∀ j < e.width,
    bitAt v.nixVector (start + totalWidth before + j) = e.index.getLsbD j

theorem Packed.addAll (h : Packed v T) (es : List NeighborIndex) :
    ∃ v', v.addAll es = some v' ∧ Packed v' (T + totalWidth es) ∧
      (∀ i < T, bitAt v'.nixVector i = bitAt v.nixVector i) ∧ v'.Holds T es := by
  induction es generalizing v T with
  | nil =>
    refine ⟨v, rfl, h, fun _ _ => rfl, ?_⟩
    rintro before e after heq
    simp at heq
  | cons e es ih =>
    obtain ⟨v₁, h₁, hpacked₁, hbits₁⟩ := h.add e
    obtain ⟨v₂, h₂, hpacked₂, hkeep, hholds⟩ := ih hpacked₁
    have htotal : totalWidth (e :: es) = e.width + totalWidth es := by simp [totalWidth]
    refine ⟨v₂, ?_, ?_, ?_, ?_⟩
    · simp only [NixVector.addAll, List.foldlM_cons, h₁, Option.bind_eq_bind, Option.bind_some]
      exact h₂
    · rw [htotal, ← Nat.add_assoc]
      exact hpacked₂
    · intro i hi
      rw [hkeep i (by omega), hbits₁, if_pos hi]
    · rintro before e' after heq j hj
      cases before with
      | nil =>
        obtain ⟨rfl, -⟩ := List.cons.inj heq
        rw [totalWidth_nil, Nat.add_zero, hkeep _ (by omega), hbits₁, if_neg (by omega),
          Nat.add_sub_cancel_left]
      | cons b before =>
        obtain ⟨rfl, htail⟩ := List.cons.inj heq
        have hb : totalWidth (e :: before) = e.width + totalWidth before := by simp [totalWidth]
        rw [hb, ← Nat.add_assoc]
        exact hholds before e' after htail j hj

/-! ## Extracting -/

/-- At a multiple of 32 bits a word is shifted by 32. -/
theorem extract_none (hrem : v.getRemainingBits % 32 = 0) : v.extractNeighborIndex n = none := by
  have hshl : ∀ x, shl x 32 = none := fun x => rfl
  unfold extractNeighborIndex
  dsimp only
  split_ifs
  · rfl
  · rfl
  · rfl
  · cases hword : v.nixVector[(v.getRemainingBits - 1) / 32]? with
    | none => rfl
    | some word => simp [hrem, hshl]
  · cases hword : v.nixVector[(v.getRemainingBits - 1) / 32]? with
    | none => rfl
    | some word => simp [hrem, hshl]

/-- Elsewhere the top `n` bits of what is left are taken. -/
theorem extract_some (hrem : v.getRemainingBits % 32 ≠ 0) (hpos : 0 < n) (hle : n ≤ 32)
    (hn : n ≤ v.getRemainingBits) (hlen : v.getRemainingBits ≤ 32 * v.nixVector.length) :
    ∃ x, v.extractNeighborIndex n = some (x, { v with used := add32 v.used n }) ∧
      ∀ j, x.getLsbD j =
        (decide (j < n) && bitAt v.nixVector (v.getRemainingBits - n + j)) := by
  -- the last bit left is bit `r` of word `q`, the bits of a word counted from 1
  obtain ⟨q, r, hr, hr32, hR⟩ : ∃ q r, 0 < r ∧ r < 32 ∧ v.getRemainingBits = 32 * q + r :=
    ⟨_, _, Nat.pos_of_ne_zero hrem, Nat.mod_lt _ (by decide), (Nat.div_add_mod _ 32).symm⟩
  rw [hR] at hn hlen
  have hmod : (32 * q + r) % 32 = r := by rw [Nat.mul_add_mod, Nat.mod_eq_of_lt hr32]
  have hlast : 32 * q + r - 1 = 32 * q + (r - 1) := Nat.add_sub_assoc hr _
  have hdiv : (32 * q + (r - 1)) / 32 = q := by omega
  have hbit : (32 * q + (r - 1)) % 32 = r - 1 := by omega
  unfold extractNeighborIndex
  rw [hR]
  dsimp only
  rw [if_neg (by omega), if_neg (by omega), if_neg (by omega), hlast, hdiv, hbit, hmod]
  obtain ⟨word, hword⟩ : ∃ word, v.nixVector[q]? = some word :=
    ⟨_, List.getElem?_eq_getElem (by omega)⟩
  rw [hword, Option.bind_eq_bind, Option.bind_some]
  clear hR hrem hlen hlast hdiv hbit hmod
  by_cases hspan : 0 < q ∧ r - 1 < n - 1
  · rw [if_pos hspan]
    -- `d` bits are taken from the word below
    obtain ⟨p, rfl⟩ : ∃ p, q = p + 1 := ⟨q - 1, by omega⟩
    obtain ⟨d, hd, rfl⟩ : ∃ d, 0 < d ∧ n = r + d := ⟨n - r, by omega, by omega⟩
    rw [Nat.add_sub_cancel]
    obtain ⟨below, hbelow⟩ : ∃ below, v.nixVector[p]? = some below :=
      ⟨_, List.getElem?_eq_getElem (by have := (List.getElem?_eq_some_iff.mp hword).1; omega)⟩
    have hplace : 32 * (p + 1) + r - (r + d) = 32 * p + (32 - d) := by omega
    simp only [Nat.add_sub_cancel_left, Option.bind_some, shl_of_lt (show 32 - r < 32 by omega),
      shr_of_lt (show 32 - r - d < 32 by omega), hbelow, shr_of_lt (show 32 - d < 32 by omega),
      hplace]
    refine ⟨_, rfl, fun j => ?_⟩
    rw [BitVec.getLsbD_or, BitVec.getLsbD_ushiftRight, BitVec.getLsbD_ushiftRight,
      BitVec.getLsbD_shiftLeft]
    by_cases hlow : j < d
    · have habove : 32 - r - d + j < 32 - r := by omega
      rw [Nat.add_assoc, bitAt_of_getElem? hbelow (by omega)]
      simp [habove, Nat.lt_add_left r hlow]
    · obtain ⟨i, rfl⟩ := Nat.exists_eq_add_of_le (Nat.le_of_not_lt hlow)
      have hshift : 32 - r - d + (d + i) = 32 - r + i := by omega
      have hat : 32 * p + (32 - d) + (d + i) = 32 * (p + 1) + i := by omega
      rw [hshift, hat, Nat.add_sub_cancel_left, BitVec.getLsbD_of_ge below _ (by omega)]
      by_cases hi : i < r
      · rw [bitAt_of_getElem? hword (by omega)]
        have hin : 32 - r + i < 32 := by omega
        have hj : d + i < r + d := by omega
        simp [hin, hj]
      · have hout : ¬ 32 - r + i < 32 := by omega
        have hj : ¬ d + i < r + d := by omega
        simp [hout, hj]
  · rw [if_neg hspan]
    -- all of them are in the word
    obtain ⟨c, rfl⟩ : ∃ c, r = n + c := ⟨r - n, by omega⟩
    have hplace : 32 * q + (n + c) - n = 32 * q + c := by omega
    simp only [Option.bind_some, shl_of_lt (show 32 - (n + c) < 32 by omega),
      shr_of_lt (show 32 - n < 32 by omega), hplace]
    refine ⟨_, rfl, fun j => ?_⟩
    rw [BitVec.getLsbD_ushiftRight, BitVec.getLsbD_shiftLeft]
    have hshift : 32 - n + j = 32 - (n + c) + (c + j) := by omega
    rw [hshift, Nat.add_sub_cancel_left, Nat.add_assoc]
    by_cases hj : j < n
    · rw [bitAt_of_getElem? hword (by omega)]
      have hin : 32 - (n + c) + (c + j) < 32 := by omega
      simp [hin, hj]
    · have hout : ¬ 32 - (n + c) + (c + j) < 32 := by omega
      simp [hout, hj]

/-- An extraction changes the number of used bits, which it can do only as long as bits are left. -/
theorem extract_shape {x : BitVec 32} (h : v.extractNeighborIndex n = some (x, v')) :
    v' = { v with used := add32 v.used n } ∧ n ≤ v.getRemainingBits := by
  unfold extractNeighborIndex at h
  dsimp only at h
  split_ifs at h with _ hn
  · simp only [Option.bind_eq_bind, Option.bind_eq_some_iff] at h
    obtain ⟨_, -, _, -, _, -, _, -, _, -, hout⟩ := h
    cases hout
    exact ⟨rfl, Nat.not_lt.mp hn⟩
  · simp only [Option.bind_eq_bind, Option.bind_eq_some_iff] at h
    obtain ⟨_, -, _, -, _, -, hout⟩ := h
    cases hout
    exact ⟨rfl, Nat.not_lt.mp hn⟩

theorem remaining_used (hused : v.used < 2 ^ 32) (hn : n ≤ v.getRemainingBits) :
    getRemainingBits { v with used := add32 v.used n } = v.getRemainingBits - n := by
  unfold getRemainingBits sub32 add32 at *
  dsimp only
  omega

/-- No more bits are extracted than are left. -/
theorem extractAll_shape {ns : List ℕ} {out : List (BitVec 32)} (hused : v.used < 2 ^ 32)
    (h : v.extractAll ns = some (out, v')) :
    ns.sum ≤ v.getRemainingBits ∧ ∃ used < 2 ^ 32, v' = { v with used := used } := by
  induction ns generalizing v out with
  | nil =>
    cases h
    exact ⟨Nat.zero_le _, _, hused, rfl⟩
  | cons n ns ih =>
    simp only [extractAll, Option.bind_eq_bind, Option.bind_eq_some_iff] at h
    obtain ⟨⟨x, v₁⟩, h₁, ⟨xs, v₂⟩, h₂, hout⟩ := h
    cases hout
    obtain ⟨rfl, hn⟩ := extract_shape h₁
    have hused₁ : add32 v.used n < 2 ^ 32 := Nat.mod_lt _ (Nat.two_pow_pos 32)
    obtain ⟨hsum, used, hlt, hv'⟩ := ih hused₁ h₂
    rw [remaining_used hused hn] at hsum
    refine ⟨?_, used, hlt, hv'⟩
    rw [List.sum_cons]
    omega

/-- The indices come back as long as no extraction meets a multiple of 32. -/
theorem extractAll_iff (hused : v.used < 2 ^ 32) (hrem : v.getRemainingBits = totalWidth es)
    (hlen : totalWidth es ≤ 32 * v.nixVector.length) (hholds : v.Holds 0 es) :
    (∃ v', v.extractAll (es.reverse.map NeighborIndex.width) =
        some (es.reverse.map NeighborIndex.index, v')) ↔
      ∀ before, before <+: es → before ≠ [] → ¬ 32 ∣ totalWidth before := by
  induction es using List.reverseRecOn generalizing v with
  | nil =>
    constructor
    · rintro - before hbefore hne
      exact absurd (List.prefix_nil.mp hbefore) hne
    · exact fun _ => ⟨v, rfl⟩
  | append_singleton es e ih =>
    have hpos := e.pos
    have hle := e.le
    have htotal : totalWidth (es ++ [e]) = totalWidth es + e.width := by simp [totalWidth_append]
    rw [List.reverse_append, List.reverse_singleton, List.singleton_append, List.map_cons,
      List.map_cons]
    simp only [extractAll, Option.bind_eq_bind]
    by_cases hbound : 32 ∣ totalWidth (es ++ [e])
    · rw [extract_none (by rw [hrem]; exact Nat.mod_eq_zero_of_dvd hbound)]
      constructor
      · rintro ⟨v', h⟩
        cases h
      · exact fun h => absurd hbound (h _ (List.prefix_refl _) (by simp))
    · have hmod : v.getRemainingBits % 32 ≠ 0 := by
        rw [hrem]
        exact fun h => hbound (Nat.dvd_of_mod_eq_zero h)
      have hn : e.width ≤ v.getRemainingBits := by omega
      obtain ⟨x, hx, hbits⟩ := extract_some hmod hpos hle hn (by omega)
      obtain rfl : x = e.index := by
        apply BitVec.eq_of_getLsbD_eq
        intro j hj
        rw [hbits]
        by_cases hin : j < e.width
        · have hat := hholds es e [] rfl j hin
          have hplace : v.getRemainingBits - e.width + j = 0 + totalWidth es + j := by omega
          rw [hplace, hat]
          simp [hin]
        · rw [getLsbD_of_width_le e (by omega)]
          simp [hin]
      have hrem₁ := remaining_used hused hn
      have hused₁ : add32 v.used e.width < 2 ^ 32 := Nat.mod_lt _ (Nat.two_pow_pos 32)
      have hrest := ih (v := { v with used := add32 v.used e.width }) hused₁ (by omega)
        (le_trans (by omega) hlen) fun before e' after heq => hholds before e' (after ++ [e])
          (by rw [heq, List.append_assoc, List.cons_append])
      rw [hx, Option.bind_some]
      constructor
      · rintro ⟨v', h⟩ before hbefore hne
        rcases List.prefix_concat_iff.mp hbefore with rfl | hshort
        · exact hbound
        · simp only [Option.bind_eq_some_iff] at h
          obtain ⟨⟨xs, v₂⟩, h₂, hout⟩ := h
          cases hout
          exact hrest.mp ⟨_, h₂⟩ before hshort hne
      · intro h
        obtain ⟨v', hv'⟩ := hrest.mpr fun before hbefore hne =>
          h before (hbefore.trans (List.prefix_append _ _)) hne
        exact ⟨v', by rw [hv']; rfl⟩

/-! ## Writing out and reading in -/

theorem writeWords_eq {maxSize size : ℕ} {ws : List (BitVec 32)}
    (hsize : size + 4 * ws.length ≤ maxSize) (hmax : maxSize < 2 ^ 32) :
    writeWords maxSize size ws = some ws := by
  induction ws generalizing size with
  | nil => rfl
  | cons w ws ih =>
    rw [List.length_cons] at hsize
    have hadd : add32 size 4 = size + 4 := Nat.mod_eq_of_lt (by omega)
    rw [writeWords, hadd, if_pos (by omega), ih (by omega), Option.map_some]

theorem readWords_eq {ws : List (BitVec 32)} (h : 4 * ws.length < 2 ^ 32) :
    readWords (4 * ws.length) ws = some ws := by
  induction ws with
  | nil => rfl
  | cons w ws ih =>
    rw [List.length_cons] at h ⊢
    have hsub : sub32 (4 * (ws.length + 1)) 4 = 4 * ws.length :=
      sub32_of_le (by omega) h
    rw [readWords, if_neg (by omega), hsub, ih (by omega), Option.map_some]

theorem reload_eq (hused : v.used < 2 ^ 32) (hcur : v.currentVectorBitSize < 2 ^ 32)
    (htotal : v.totalBitSize < 2 ^ 32) (hlen : 16 + 4 * v.nixVector.length < 2 ^ 32) :
    v.reload = some v := by
  have hsize : v.getSerializedSize = 12 + 4 * v.nixVector.length := by
    unfold getSerializedSize
    omega
  have hadd : add32 (12 + 4 * v.nixVector.length) 4 = 16 + 4 * v.nixVector.length := by
    rw [add32, Nat.mod_eq_of_lt (by omega)]
    omega
  have hfour : ∀ a, a + 4 < 2 ^ 32 → sub32 (a + 4) 4 = a := fun a ha => by
    rw [sub32_of_le (Nat.le_add_left 4 a) ha, Nat.add_sub_cancel]
  have hsub : sub32 (sub32 (sub32 (sub32 (16 + 4 * v.nixVector.length) 4) 4) 4) 4 =
      4 * v.nixVector.length := by
    rw [show 16 + 4 * v.nixVector.length = 4 * v.nixVector.length + 4 + 4 + 4 + 4 by omega,
      hfour _ (by omega), hfour _ (by omega), hfour _ (by omega), hfour _ (by omega)]
  simp only [reload, serialize, hsize, hadd]
  rw [writeWords_eq (by simp only [List.length_cons]; omega) (by omega), Option.bind_eq_bind,
    Option.bind_some, deserialize, hsub, readWords_eq (by omega), Option.bind_eq_bind]
  simp only [Option.bind_some, BitVec.toNat_ofNat, Nat.mod_eq_of_lt hused,
    Nat.mod_eq_of_lt hcur, Nat.mod_eq_of_lt htotal]
  rfl

theorem Packed.reload (h : Packed v T) (hT : T < 2 ^ 32) {used : ℕ} (hused : used < 2 ^ 32) :
    NixVector.reload { v with used := used } = some { v with used := used } := by
  obtain ⟨full, last, hwords, hlen⟩ := h.words
  have hsize := h.size
  refine reload_eq hused (lt_of_le_of_lt hsize (by decide)) ?_ ?_
  · rw [h.total]
    exact Nat.mod_lt _ (Nat.two_pow_pos 32)
  · simp only [hwords, List.length_append, List.length_singleton]
    omega

/-! ## The round trip -/

/-- The indices come back exactly when no number of bits up to one of them is a multiple of 32, and
all of them together are fewer than `2 ^ 32`. -/
theorem roundTrips_iff (es : List NeighborIndex) : RoundTrips es ↔
    totalWidth es < 2 ^ 32 ∧ ∀ before, before <+: es → before ≠ [] → ¬ 32 ∣ totalWidth before := by
  obtain ⟨v, hadd, hpacked, -, hholds⟩ := packed_new.addAll es
  rw [Nat.zero_add] at hpacked
  have hused : v.used < 2 ^ 32 := by
    rw [hpacked.used]
    decide
  have hrem : v.getRemainingBits = totalWidth es % 2 ^ 32 := by
    unfold getRemainingBits sub32
    rw [hpacked.used, hpacked.total]
    omega
  have hlen : totalWidth es ≤ 32 * v.nixVector.length := by
    obtain ⟨full, last, hwords, hT⟩ := hpacked.words
    have hsize := hpacked.size
    rw [hwords, List.length_append, List.length_singleton]
    omega
  have hsum : (es.reverse.map NeighborIndex.width).sum = totalWidth es := by
    rw [List.map_reverse, List.sum_reverse, totalWidth]
  constructor
  · rintro ⟨⟨v₁, v', h₁, hextract⟩, -, -⟩
    cases hadd.symm.trans h₁
    obtain ⟨hle, -⟩ := extractAll_shape hused hextract
    have hT : totalWidth es < 2 ^ 32 := by
      have hlt := Nat.mod_lt (totalWidth es) (Nat.two_pow_pos 32)
      omega
    rw [Nat.mod_eq_of_lt hT] at hrem
    exact ⟨hT, (extractAll_iff hused hrem hlen hholds).mp ⟨v', hextract⟩⟩
  · rintro ⟨hT, hbound⟩
    rw [Nat.mod_eq_of_lt hT] at hrem
    obtain ⟨v', hextract⟩ := (extractAll_iff hused hrem hlen hholds).mpr hbound
    refine ⟨⟨v, v', hadd, hextract⟩, ?_, ?_⟩
    · rintro before after v₁ rfl h₁
      obtain ⟨v₂, h₂, hpacked₂, -⟩ := packed_new.addAll before
      cases h₁.symm.trans h₂
      rw [totalWidth_append] at hT
      have hused₁ : v₁.used < 2 ^ 32 := by
        rw [hpacked₂.used]
        decide
      exact hpacked₂.reload (by omega) hused₁
    · intro v₁ ns ns' out v₂ h₁ _ h₂
      cases hadd.symm.trans h₁
      obtain ⟨-, used, hlt, rfl⟩ := extractAll_shape hused h₂
      exact hpacked.reload hT hlt

/-- One index of 32 bits: to extract it, its word is shifted by 32. -/
theorem not_roundTrips : ¬ RoundTrips [⟨1, 32, by decide, by decide, by decide⟩] := by
  rintro ⟨⟨v, v', hadd, hextract⟩, -, -⟩
  have hv : addAll new [⟨1, 32, by decide, by decide, by decide⟩] = some ⟨[1], 0, 32, 32⟩ := by
    decide
  cases hv.symm.trans hadd
  have hnone : extractAll ⟨[1], 0, 32, 32⟩ [32] = none := by decide
  cases hnone.symm.trans hextract

end NixVector

end Ns3.Network
