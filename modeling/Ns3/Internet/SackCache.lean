import Mathlib.Data.List.Pairwise
import Ns3.Internet.NextSeg

/-!
# The highest sacked item that `Update` keeps

`Update` replaces the highest sacked item by one that it sacks if that one ends
where the kept one begins, or further up. An item directly below the kept one
passes, so the order in which two neighbours get sacked matters: `cacheRun_iff`.
-/

namespace Ns3.Internet

open Ns3.Network
open SequenceNumber

namespace TcpTxBuffer

/-! ## Items at offsets -/

/-- The items with the offsets at which they begin. -/
def offsets (o : ℕ) : List TcpTxItem → List (ℕ × TcpTxItem)
  | [] => []
  | item :: items => (o, item) :: offsets (o + item.packet.length) items

/-- The offset at which the item ends. -/
def endOf (p : ℕ × TcpTxItem) : ℕ := p.1 + p.2.packet.length

/-- The items lie one after the other, and none is empty. -/
structure Spaced (ps : List (ℕ × TcpTxItem)) : Prop where
  nonempty : ∀ p ∈ ps, p.1 < endOf p
  order : ps.Pairwise fun p q => endOf p ≤ q.1

/-- The block covers the item. -/
def Covers (c : ℕ × ℕ) (p : ℕ × TcpTxItem) : Prop := c.1 ≤ p.1 ∧ endOf p ≤ c.2

instance (c : ℕ × ℕ) (p : ℕ × TcpTxItem) : Decidable (Covers c p) :=
  inferInstanceAs (Decidable (_ ∧ _))

/-- The item gets sacked if the block covers it. -/
def sackEntry (c : ℕ × ℕ) (p : ℕ × TcpTxItem) : ℕ × TcpTxItem :=
  if Covers c p ∧ p.2.sacked = false then (p.1, { p.2 with lost := false, sacked := true }) else p

/-- The items that the block gets sacked. -/
def newly (c : ℕ × ℕ) (ps : List (ℕ × TcpTxItem)) : List (ℕ × TcpTxItem) :=
  ps.filter fun p => Covers c p ∧ p.2.sacked = false

/-- The kept item, by its offset and its number, after one more gets sacked. -/
def cache (h : Option (ℕ × ℕ)) (p : ℕ × TcpTxItem) : Option (ℕ × ℕ) :=
  if ∀ q ∈ h, q.1 ≤ endOf p then some (p.1, p.2.ref) else h

/-- The items and the kept one after the blocks. -/
def cacheRun : List (ℕ × ℕ) → List (ℕ × TcpTxItem) → Option (ℕ × ℕ) →
    List (ℕ × TcpTxItem) × Option (ℕ × ℕ)
  | [], ps, h => (ps, h)
  | c :: cs, ps, h => cacheRun cs (ps.map (sackEntry c)) ((newly c ps).foldl cache h)

variable {c : ℕ × ℕ} {cs : List (ℕ × ℕ)} {p q : ℕ × TcpTxItem} {ps : List (ℕ × TcpTxItem)}
  {h : Option (ℕ × ℕ)} {m : ℕ}

@[simp] theorem sackEntry_fst (c : ℕ × ℕ) (p : ℕ × TcpTxItem) : (sackEntry c p).1 = p.1 := by
  unfold sackEntry
  split
  · rfl
  · rfl

@[simp] theorem endOf_sackEntry (c : ℕ × ℕ) (p : ℕ × TcpTxItem) :
    endOf (sackEntry c p) = endOf p := by
  unfold sackEntry
  split
  · rfl
  · rfl

theorem sackEntry_sacked : (sackEntry c p).2.sacked = true ↔ p.2.sacked = true ∨ Covers c p := by
  unfold sackEntry
  by_cases hs : p.2.sacked = true
  · simp [hs]
  · simp only [Bool.not_eq_true] at hs
    split
    · rename_i hc
      simp [hc.1]
    · rename_i hc
      simp only [hs, and_true] at hc
      simp [hs, hc]

theorem covers_sackEntry (d : ℕ × ℕ) : Covers d (sackEntry c p) ↔ Covers d p := by
  unfold Covers
  rw [sackEntry_fst, endOf_sackEntry]

theorem Spaced.sack (hps : Spaced ps) (c : ℕ × ℕ) : Spaced (ps.map (sackEntry c)) where
  nonempty := by
    intro q hq
    obtain ⟨p, hp, rfl⟩ := List.mem_map.mp hq
    rw [sackEntry_fst, endOf_sackEntry]
    exact hps.nonempty p hp
  order := by
    rw [List.pairwise_map]
    refine hps.order.imp fun {p q} hle => ?_
    rw [sackEntry_fst, endOf_sackEntry]
    exact hle

/-- Of two items, one lies below the other, if they are not the same. -/
theorem Spaced.below (hps : Spaced ps) (hp : p ∈ ps) (hq : q ∈ ps) :
    p = q ∨ endOf p ≤ q.1 ∨ endOf q ≤ p.1 :=
  List.Pairwise.forall_of_forall_of_flip
    (R := fun p q : ℕ × TcpTxItem => p = q ∨ endOf p ≤ q.1 ∨ endOf q ≤ p.1)
    (fun _ _ => .inl rfl) (hps.order.imp fun hle => .inr (.inl hle))
    (hps.order.imp fun hle => .inr (.inr hle)) hp hq

theorem Spaced.eq_of_fst (hps : Spaced ps) (hp : p ∈ ps) (hq : q ∈ ps) (heq : p.1 = q.1) :
    p = q := by
  have := hps.nonempty p hp
  have := hps.nonempty q hq
  rcases hps.below hp hq with hpq | hle | hle
  · exact hpq
  · omega
  · omega

theorem mem_newly : p ∈ newly c ps ↔ p ∈ ps ∧ Covers c p ∧ p.2.sacked = false := by
  unfold newly
  rw [List.mem_filter, decide_eq_true_eq]

/-! ## The kept item -/

theorem cache_of_le (hle : ∀ q ∈ h, q.1 ≤ endOf p) : cache h p = some (p.1, p.2.ref) := by
  unfold cache
  rw [if_pos hle]

theorem foldl_cache (h : Option (ℕ × ℕ)) (ps : List (ℕ × TcpTxItem)) :
    ps.foldl cache h = h ∨ ∃ p ∈ ps, ps.foldl cache h = some (p.1, p.2.ref) := by
  induction ps generalizing h with
  | nil => exact .inl rfl
  | cons p ps ih =>
    rw [List.foldl_cons]
    rcases ih (cache h p) with heq | ⟨q, hq, heq⟩
    · rw [heq]
      unfold cache
      split
      · exact .inr ⟨p, List.mem_cons_self, rfl⟩
      · exact .inl rfl
    · exact .inr ⟨q, List.mem_cons_of_mem p hq, heq⟩

theorem foldl_cache_ne (hh : h.map Prod.fst ≠ some m) (hps : ∀ p ∈ ps, p.1 ≠ m) :
    (ps.foldl cache h).map Prod.fst ≠ some m := by
  rcases foldl_cache h ps with heq | ⟨p, hp, heq⟩
  · rw [heq]
    exact hh
  · rw [heq]
    intro hm
    exact hps p hp (Option.some.inj hm)

theorem foldl_cache_le (hh : ∀ q ∈ h, q.1 ≤ m) (hps : ∀ p ∈ ps, p.1 ≤ m) :
    ∀ q ∈ ps.foldl cache h, q.1 ≤ m := by
  intro q hq
  rcases foldl_cache h ps with heq | ⟨p, hp, heq⟩
  · rw [heq] at hq
    exact hh q hq
  · rw [heq] at hq
    cases hq
    exact hps p hp

/-- The kept item stays while only items further down get sacked. -/
theorem foldl_cache_stays (hh : h.map Prod.fst = some m) (hps : ∀ p ∈ ps, endOf p < m) :
    ps.foldl cache h = h := by
  induction ps with
  | nil => rfl
  | cons p ps ih =>
    obtain ⟨q, rfl, rfl⟩ := Option.map_eq_some_iff.mp hh
    have hkeep : cache (some q) p = some q := by
      unfold cache
      rw [if_neg]
      intro hall
      have := hall q rfl
      have := hps p List.mem_cons_self
      omega
    rw [List.foldl_cons, hkeep]
    exact ih fun p hp => hps p (List.mem_cons_of_mem _ hp)

/-- The item directly below the kept one replaces it. -/
theorem foldl_cache_lost (hps : ∀ p ∈ ps, p.1 < m) (hp : p ∈ ps) (hend : endOf p = m)
    (hh : h.map Prod.fst = some m) : (ps.foldl cache h).map Prod.fst ≠ some m := by
  obtain ⟨a, d, rfl⟩ := List.append_of_mem hp
  rw [List.foldl_append, List.foldl_cons]
  have hle : ∀ q ∈ a.foldl cache h, q.1 ≤ m := by
    refine foldl_cache_le ?_ fun q hq => (hps q (List.mem_append_left _ hq)).le
    rintro q rfl
    exact (Option.some.inj hh).le
  rw [cache_of_le fun q hq => (hle q hq).trans hend.ge]
  have hlt := hps p hp
  refine foldl_cache_ne ?_ fun q hq => ?_
  · intro heq
    have : p.1 = m := Option.some.inj heq
    omega
  · have := hps q (List.mem_append_right _ (List.mem_cons_of_mem _ hq))
    omega

/-- The block that gets the highest item sacked makes it the kept one. -/
theorem foldl_cache_top (hps : Spaced ps) (hh : ∀ q ∈ h, q.1 ≤ p.1)
    (hp : p ∈ newly c ps) (htop : ∀ q ∈ newly c ps, q.1 ≤ p.1) :
    (newly c ps).foldl cache h = some (p.1, p.2.ref) := by
  have horder := hps.order.filter fun p => decide (Covers c p ∧ p.2.sacked = false)
  change (newly c ps).Pairwise _ at horder
  obtain ⟨a, d, heq⟩ := List.append_of_mem hp
  have hd : d = [] := by
    rw [List.eq_nil_iff_forall_not_mem]
    intro q hq
    rw [heq, List.pairwise_append, List.pairwise_cons] at horder
    have hle := horder.2.1.1 q hq
    have hlt := hps.nonempty p (mem_newly.mp hp).1
    have := htop q (heq ▸ List.mem_append_right a (List.mem_cons_of_mem p hq))
    omega
  subst hd
  rw [heq, List.foldl_append]
  show cache _ p = _
  have hlt := hps.nonempty p (mem_newly.mp hp).1
  have hle : ∀ q ∈ a.foldl cache h, q.1 ≤ p.1 :=
    foldl_cache_le hh fun q hq => htop q (heq ▸ List.mem_append_left _ hq)
  exact cache_of_le fun q hq => (hle q hq).trans hlt.le

/-! ## A run of blocks -/

/-- The item at `m` is sacked. -/
def SackedAt (m : ℕ) (ps : List (ℕ × TcpTxItem)) : Prop := ∃ p ∈ ps, p.1 = m ∧ p.2.sacked = true

/-- An item that ends at `m` gets sacked when the one that begins there is sacked already. -/
def SackedLate (m : ℕ) (cs : List (ℕ × ℕ)) (ps : List (ℕ × TcpTxItem)) : Prop :=
  ∃ p ∈ ps, endOf p = m ∧ p.2.sacked = false ∧ ∃ before c after, cs = before ++ c :: after ∧
    (SackedAt m ps ∨ ∃ q ∈ ps, q.1 = m ∧ ∃ d ∈ before, Covers d q) ∧
    (∀ d ∈ before, ¬ Covers d p) ∧ Covers c p

theorem sackedAt_sack :
    SackedAt m (ps.map (sackEntry c)) ↔ SackedAt m ps ∨ ∃ q ∈ ps, q.1 = m ∧ Covers c q := by
  constructor
  · rintro ⟨q, hq, heq, hs⟩
    obtain ⟨p, hp, rfl⟩ := List.mem_map.mp hq
    rw [sackEntry_fst] at heq
    rcases sackEntry_sacked.mp hs with hs | hc
    · exact .inl ⟨p, hp, heq, hs⟩
    · exact .inr ⟨p, hp, heq, hc⟩
  · rintro (⟨p, hp, heq, hs⟩ | ⟨p, hp, heq, hc⟩)
    · exact ⟨_, List.mem_map_of_mem hp, by rw [sackEntry_fst, heq], sackEntry_sacked.mpr (.inl hs)⟩
    · exact ⟨_, List.mem_map_of_mem hp, by rw [sackEntry_fst, heq], sackEntry_sacked.mpr (.inr hc)⟩

theorem sackEntry_open :
    (sackEntry c p).2.sacked = false ↔ p.2.sacked = false ∧ ¬ Covers c p := by
  rw [← Bool.not_eq_true, sackEntry_sacked, not_or, Bool.not_eq_true]

/-- Sacked late by the first block, or by a later one. -/
theorem sackedLate_cons :
    SackedLate m (c :: cs) ps ↔
      (SackedAt m ps ∧ ∃ p ∈ newly c ps, endOf p = m) ∨
        SackedLate m cs (ps.map (sackEntry c)) := by
  constructor
  · rintro ⟨p, hp, hend, hopen, before, d, after, heq, hat, hnot, hcov⟩
    cases before with
    | nil =>
      cases heq
      refine .inl ⟨?_, p, mem_newly.mpr ⟨hp, hcov, hopen⟩, hend⟩
      rcases hat with hat | ⟨q, -, -, d, hd, -⟩
      · exact hat
      · exact absurd hd List.not_mem_nil
    | cons e before =>
      cases heq
      refine .inr ⟨_, List.mem_map_of_mem hp, by rw [endOf_sackEntry, hend],
        sackEntry_open.mpr ⟨hopen, hnot c List.mem_cons_self⟩, before, d, after, rfl, ?_, ?_, ?_⟩
      · rcases hat with hat | ⟨q, hq, hqm, e, he, hce⟩
        · exact .inl (sackedAt_sack.mpr (.inl hat))
        · rcases List.mem_cons.mp he with rfl | he
          · exact .inl (sackedAt_sack.mpr (.inr ⟨q, hq, hqm, hce⟩))
          · exact .inr ⟨_, List.mem_map_of_mem hq, by rw [sackEntry_fst, hqm], e, he,
              (covers_sackEntry e).mpr hce⟩
      · intro e he hce
        exact hnot e (List.mem_cons_of_mem _ he) ((covers_sackEntry e).mp hce)
      · exact (covers_sackEntry d).mpr hcov
  · rintro (⟨hat, p, hp, hend⟩ | ⟨p', hp', hend, hopen, before, d, after, rfl, hat, hnot, hcov⟩)
    · obtain ⟨hp, hcov, hopen⟩ := mem_newly.mp hp
      exact ⟨p, hp, hend, hopen, [], c, cs, rfl, .inl hat, fun d hd => absurd hd List.not_mem_nil,
        hcov⟩
    · obtain ⟨p, hp, rfl⟩ := List.mem_map.mp hp'
      rw [endOf_sackEntry] at hend
      obtain ⟨hopen, hc⟩ := sackEntry_open.mp hopen
      refine ⟨p, hp, hend, hopen, c :: before, d, after, rfl, ?_, ?_, (covers_sackEntry d).mp hcov⟩
      · rcases hat with hat | ⟨q', hq', hqm, e, he, hce⟩
        · rcases sackedAt_sack.mp hat with hat | ⟨q, hq, hqm, hcq⟩
          · exact .inl hat
          · exact .inr ⟨q, hq, hqm, c, List.mem_cons_self, hcq⟩
        · obtain ⟨q, hq, rfl⟩ := List.mem_map.mp hq'
          rw [sackEntry_fst] at hqm
          exact .inr ⟨q, hq, hqm, e, List.mem_cons_of_mem _ he, (covers_sackEntry e).mp hce⟩
      · rintro e he hce
        rcases List.mem_cons.mp he with rfl | he
        · exact hc hce
        · exact hnot e he ((covers_sackEntry e).mpr hce)

theorem Spaced.run (hps : Spaced ps) (cs : List (ℕ × ℕ)) (h : Option (ℕ × ℕ)) :
    Spaced (cacheRun cs ps h).1 := by
  induction cs generalizing ps h with
  | nil => exact hps
  | cons c cs ih => exact ih (hps.sack c) _

/-- What is sacked after the blocks was sacked, or one of them covers it. -/
theorem sackedAt_cacheRun :
    SackedAt m (cacheRun cs ps h).1 ↔
      ∃ p ∈ ps, p.1 = m ∧ (p.2.sacked = true ∨ ∃ c ∈ cs, Covers c p) := by
  induction cs generalizing ps h with
  | nil =>
    show (∃ p ∈ ps, p.1 = m ∧ p.2.sacked = true) ↔ _
    simp
  | cons c cs ih =>
    unfold cacheRun
    rw [ih]
    constructor
    · rintro ⟨q, hq, heq, hor⟩
      obtain ⟨p, hp, rfl⟩ := List.mem_map.mp hq
      rw [sackEntry_fst] at heq
      refine ⟨p, hp, heq, ?_⟩
      rcases hor with hs | ⟨d, hd, hcov⟩
      · rcases sackEntry_sacked.mp hs with hs | hc
        · exact .inl hs
        · exact .inr ⟨c, List.mem_cons_self, hc⟩
      · exact .inr ⟨d, List.mem_cons_of_mem c hd, (covers_sackEntry d).mp hcov⟩
    · rintro ⟨p, hp, heq, hor⟩
      refine ⟨_, List.mem_map_of_mem hp, by rw [sackEntry_fst, heq], ?_⟩
      rw [sackEntry_sacked]
      rcases hor with hs | ⟨d, hd, hcov⟩
      · exact .inl (.inl hs)
      · rcases List.mem_cons.mp hd with rfl | hd
        · exact .inl (.inr hcov)
        · exact .inr ⟨d, hd, (covers_sackEntry d).mpr hcov⟩

theorem sackEntry_ref (c : ℕ × ℕ) (p : ℕ × TcpTxItem) : (sackEntry c p).2.ref = p.2.ref := by
  unfold sackEntry
  split
  · rfl
  · rfl

/-- An item keeps its offset and its number. -/
theorem mem_cacheRun (hp : p ∈ (cacheRun cs ps h).1) :
    ∃ q ∈ ps, q.1 = p.1 ∧ q.2.ref = p.2.ref := by
  induction cs generalizing ps h with
  | nil => exact ⟨p, hp, rfl, rfl⟩
  | cons c cs ih =>
    obtain ⟨q', hq', hfst, href⟩ := ih hp
    obtain ⟨q, hq, rfl⟩ := List.mem_map.mp hq'
    rw [sackEntry_fst] at hfst
    rw [sackEntry_ref] at href
    exact ⟨q, hq, hfst, href⟩

/-- An item that is not sacked after the blocks is as it was. -/
theorem mem_cacheRun_open (hp : p ∈ (cacheRun cs ps h).1) (hopen : p.2.sacked = false) :
    p ∈ ps := by
  induction cs generalizing ps h with
  | nil => exact hp
  | cons c cs ih =>
    obtain ⟨q, hq, rfl⟩ := List.mem_map.mp (ih hp)
    have hnot := sackEntry_open.mp hopen
    rw [sackEntry, if_neg fun hboth => hnot.2 hboth.1]
    exact hq

/-- The kept item is the one from before, or one of the items. -/
theorem kept_cacheRun {k : ℕ × ℕ} (hk : (cacheRun cs ps h).2 = some k) :
    h = some k ∨ ∃ q ∈ ps, k = (q.1, q.2.ref) := by
  induction cs generalizing ps h with
  | nil => exact .inl hk
  | cons c cs ih =>
    rcases ih hk with hk | ⟨q', hq', rfl⟩
    · rcases foldl_cache h (newly c ps) with heq | ⟨p, hp, heq⟩
      · exact .inl (heq ▸ hk)
      · rw [heq] at hk
        exact .inr ⟨p, (mem_newly.mp hp).1, (Option.some.inj hk).symm⟩
    · obtain ⟨q, hq, rfl⟩ := List.mem_map.mp hq'
      exact .inr ⟨q, hq, by rw [sackEntry_fst, sackEntry_ref]⟩

theorem Spaced.newly_ne (hps : Spaced ps) (hat : SackedAt m ps) (hp : p ∈ newly c ps) :
    p.1 ≠ m := by
  intro heq
  obtain ⟨q, hq, hqm, hs⟩ := hat
  obtain ⟨hp, -, hopen⟩ := mem_newly.mp hp
  rw [hps.eq_of_fst hp hq (heq.trans hqm.symm), hs] at hopen
  cases hopen

/-- Once the highest sacked item is not the kept one, it does not become it again. -/
theorem cacheRun_ne (hps : Spaced ps) (hat : SackedAt m ps) (hh : h.map Prod.fst ≠ some m) :
    (cacheRun cs ps h).2.map Prod.fst ≠ some m := by
  induction cs generalizing ps h with
  | nil => exact hh
  | cons c cs ih =>
    unfold cacheRun
    exact ih (hps.sack c) (sackedAt_sack.mpr (.inl hat))
      (foldl_cache_ne hh fun p hp => hps.newly_ne hat hp)

/-- The item at `m` is the highest one that is sacked after the blocks, and it is the kept one then,
unless the one below gets sacked after it. -/
theorem cacheRun_iff (hps : Spaced ps)
    (hbelow : ∀ p ∈ ps, p.2.sacked = true ∨ (∃ c ∈ cs, Covers c p) → p.1 ≤ m)
    (htop : ∃ p ∈ ps, p.1 = m ∧ (p.2.sacked = true ∨ ∃ c ∈ cs, Covers c p))
    (hh : SackedAt m ps → h.map Prod.fst = some m) (hle : ∀ q ∈ h, q.1 ≤ m) :
    (cacheRun cs ps h).2.map Prod.fst = some m ↔ ¬ SackedLate m cs ps := by
  induction cs generalizing ps h with
  | nil =>
    obtain ⟨p, hp, hpm, hs | ⟨c, hc, -⟩⟩ := htop
    · refine iff_of_true (hh ⟨p, hp, hpm, hs⟩) ?_
      rintro ⟨-, -, -, -, before, c, after, heq, -⟩
      exact absurd heq (by simp)
    · exact absurd hc List.not_mem_nil
  | cons c cs ih =>
    have hnew : ∀ p ∈ newly c ps, p.1 ≤ m := fun p hp =>
      hbelow p (mem_newly.mp hp).1 (.inr ⟨c, List.mem_cons_self, (mem_newly.mp hp).2.1⟩)
    have hbelow' : ∀ p ∈ ps.map (sackEntry c),
        p.2.sacked = true ∨ (∃ d ∈ cs, Covers d p) → p.1 ≤ m := by
      intro p' hp' hor
      obtain ⟨p, hp, rfl⟩ := List.mem_map.mp hp'
      rw [sackEntry_fst]
      rcases hor with hs | ⟨d, hd, hcov⟩
      · rcases sackEntry_sacked.mp hs with hs | hc
        · exact hbelow p hp (.inl hs)
        · exact hbelow p hp (.inr ⟨c, List.mem_cons_self, hc⟩)
      · exact hbelow p hp (.inr ⟨d, List.mem_cons_of_mem c hd, (covers_sackEntry d).mp hcov⟩)
    have htop' : ∃ p ∈ ps.map (sackEntry c),
        p.1 = m ∧ (p.2.sacked = true ∨ ∃ d ∈ cs, Covers d p) := by
      obtain ⟨p, hp, hpm, hor⟩ := htop
      refine ⟨_, List.mem_map_of_mem hp, by rw [sackEntry_fst, hpm], ?_⟩
      rw [sackEntry_sacked]
      rcases hor with hs | ⟨d, hd, hcov⟩
      · exact .inl (.inl hs)
      · rcases List.mem_cons.mp hd with rfl | hd
        · exact .inl (.inr hcov)
        · exact .inr ⟨d, hd, (covers_sackEntry d).mpr hcov⟩
    have hle' := foldl_cache_le hle hnew
    unfold cacheRun
    rw [sackedLate_cons]
    by_cases hat : SackedAt m ps
    · have hlt : ∀ p ∈ newly c ps, p.1 < m := fun p hp =>
        lt_of_le_of_ne (hnew p hp) (hps.newly_ne hat hp)
      by_cases hlow : ∃ p ∈ newly c ps, endOf p = m
      · -- the kept item moves down, and it cannot come back
        obtain ⟨p, hp, hend⟩ := hlow
        have hlost := foldl_cache_lost hlt hp hend (hh hat)
        exact iff_of_false
          (cacheRun_ne (hps.sack c) (sackedAt_sack.mpr (.inl hat)) hlost)
          fun hnot => hnot (.inl ⟨hat, p, hp, hend⟩)
      · have hstay : (newly c ps).foldl cache h = h := by
          refine foldl_cache_stays (hh hat) fun p hp => ?_
          obtain ⟨q, hq, hqm, -⟩ := hat
          have hlt := hlt p hp
          rcases hps.below (mem_newly.mp hp).1 hq with rfl | hend | hend
          · omega
          · exact lt_of_le_of_ne (hqm ▸ hend) fun heq => hlow ⟨p, hp, heq⟩
          · have := hps.nonempty q hq
            omega
        rw [ih (hps.sack c) hbelow' htop' (fun _ => ?_) hle', or_iff_right]
        · exact fun hl => hlow hl.2
        · rw [hstay]
          exact hh hat
    · rw [ih (hps.sack c) hbelow' htop' ?_ hle', or_iff_right]
      · exact fun hl => hat hl.1
      · intro hat'
        rcases sackedAt_sack.mp hat' with hs | ⟨q, hq, hqm, hcov⟩
        · exact absurd hs hat
        · -- the block gets it sacked
          have hopen : q.2.sacked = false := by
            rw [← Bool.not_eq_true]
            exact fun hs => hat ⟨q, hq, hqm, hs⟩
          subst hqm
          rw [foldl_cache_top hps hle (mem_newly.mpr ⟨hq, hcov, hopen⟩) hnew]
          rfl

/-! ## The loops of `Update` -/

section

variable {b : TcpTxBuffer} {start : SequenceNumber32} {o : ℕ} {items : List TcpTxItem}
  {t : SackCounts}

theorem begins_eq (start : SequenceNumber32) (o : ℕ) (items : List TcpTxItem) :
    begins (seqAt start o) items = (offsets o items).map fun p => (seqAt start p.1, p.2) := by
  induction items generalizing o with
  | nil => rfl
  | cons item items ih =>
    show (seqAt start o, item) :: begins (seqAt start o + item.packet.getSize) items = _
    rw [add_getSize, ih]
    rfl

theorem map_snd_offsets (o : ℕ) (items : List TcpTxItem) :
    (offsets o items).map Prod.snd = items := by
  induction items generalizing o with
  | nil => rfl
  | cons item items ih =>
    show item :: (offsets _ items).map Prod.snd = _
    rw [ih]

theorem offsets_bounds (hp : p ∈ offsets o items) : o ≤ p.1 ∧ endOf p ≤ o + totalSize items := by
  induction items generalizing o with
  | nil => cases hp
  | cons item items ih =>
    rw [totalSize_cons]
    rcases List.mem_cons.mp hp with rfl | hp
    · unfold endOf
      dsimp only
      omega
    · have := ih hp
      omega

theorem spaced_offsets (o : ℕ) (hitems : ∀ item ∈ items, item.packet ≠ []) :
    Spaced (offsets o items) := by
  induction items generalizing o with
  | nil => exact ⟨fun p hp => absurd hp List.not_mem_nil, .nil⟩
  | cons item items ih =>
    have htail := ih (o + item.packet.length) fun i hi => hitems i (List.mem_cons_of_mem _ hi)
    have hpos := List.length_pos_of_ne_nil (hitems item List.mem_cons_self)
    constructor
    · intro p hp
      rcases List.mem_cons.mp hp with rfl | hp
      · unfold endOf
        dsimp only
        omega
      · exact htail.nonempty p hp
    · exact List.pairwise_cons.mpr ⟨fun q hq => (offsets_bounds hq).1, htail.order⟩

theorem offsets_cons (o : ℕ) (item : TcpTxItem) (items : List TcpTxItem) :
    offsets o (item :: items) = (o, item) :: offsets (o + item.packet.length) items := rfl

theorem newly_cons_pos (hp : Covers c p ∧ p.2.sacked = false) :
    newly c (p :: ps) = p :: newly c ps :=
  List.filter_cons_of_pos (by simpa using hp)

theorem newly_cons_neg (hp : ¬ (Covers c p ∧ p.2.sacked = false)) :
    newly c (p :: ps) = newly c ps :=
  List.filter_cons_of_neg (by simpa using hp)

theorem newly_of_not (hps : ∀ p ∈ ps, ¬ Covers c p) : newly c ps = [] := by
  rw [newly, List.filter_eq_nil_iff]
  intro p hp hdec
  exact hps p hp (of_decide_eq_true hdec).1

/-- A block that gets no item sacked changes nothing. -/
theorem map_sackEntry_of_newly (hnil : newly c ps = []) : ps.map (sackEntry c) = ps := by
  rw [newly, List.filter_eq_nil_iff] at hnil
  calc ps.map (sackEntry c) = ps.map id := by
        refine List.map_congr_left fun p hp => ?_
        have hnot := hnil p hp
        rw [decide_eq_true_eq] at hnot
        exact if_neg hnot
    _ = ps := List.map_id ps

/-- The cached item, as `Update` has it. -/
def place (start : SequenceNumber32) : Option (ℕ × ℕ) → Option ℕ × SequenceNumber32
  | none => (none, 0)
  | some q => (some q.2, seqAt start q.1)

/-- The block, in sequence numbers. -/
def toBlock (start : SequenceNumber32) (c : ℕ × ℕ) : SackBlock := (seqAt start c.1, seqAt start c.2)

/-- An item gets sacked: the counts. -/
def sackCount (start : SequenceNumber32) (t : SackCounts) (p : ℕ × TcpTxItem) : SackCounts :=
  t.sack p.2 (seqAt start p.1)

/-- A block gets the items sacked that it covers, one after the other. -/
theorem sackItems_eq (start : SequenceNumber32) (o : ℕ) (items : List TcpTxItem) (t : SackCounts)
    (hc : c.1 < 2 ^ 31 ∧ c.2 < 2 ^ 31) (ho : o + totalSize items < 2 ^ 31) :
    offsets o (sackItems (toBlock start c) items (seqAt start o) t).1 =
        (offsets o items).map (sackEntry c) ∧
      (sackItems (toBlock start c) items (seqAt start o) t).2 =
        (newly c (offsets o items)).foldl (sackCount start) t := by
  induction items generalizing o t with
  | nil => exact ⟨rfl, rfl⟩
  | cons item items ih =>
    rw [totalSize_cons] at ho
    have hnext : seqAt start o + item.packet.getSize = seqAt start (o + item.packet.length) :=
      add_getSize ..
    have hcov : (Ge (seqAt start o) (toBlock start c).1 ∧
        Le (seqAt start (o + item.packet.length)) (toBlock start c).2) ↔ Covers c (o, item) := by
      unfold toBlock Covers endOf
      dsimp only
      rw [ge_seqAt (by omega) hc.1, le_seqAt (by omega) hc.2]
    have hgt : Gt (seqAt start (o + item.packet.length)) (toBlock start c).2 ↔
        c.2 < o + item.packet.length := gt_seqAt (by omega) hc.2
    have hih := fun t => ih (o + item.packet.length) t (by omega)
    unfold sackItems
    dsimp only
    rw [hnext, offsets_cons, List.map_cons]
    by_cases hc' : Covers c (o, item)
    · rw [if_pos (hcov.mpr hc')]
      by_cases hs : item.sacked = true
      · have hnot : ¬ (Covers c (o, item) ∧ item.sacked = false) := fun h => by simp [hs] at h
        rw [if_pos hs, offsets_cons, (hih t).1, (hih t).2, newly_cons_neg hnot, sackEntry,
          if_neg hnot]
        exact ⟨rfl, rfl⟩
      · have hopen : item.sacked = false := by simpa using hs
        have hyes : Covers c (o, item) ∧ item.sacked = false := ⟨hc', hopen⟩
        rw [if_neg hs, offsets_cons, (hih _).1, (hih _).2, newly_cons_pos hyes, sackEntry,
          if_pos hyes]
        exact ⟨rfl, rfl⟩
    · have hnot : ¬ (Covers c (o, item) ∧ item.sacked = false) := fun h => hc' h.1
      rw [if_neg (fun h => hc' (hcov.mp h)), newly_cons_neg hnot, sackEntry, if_neg hnot]
      by_cases hpast : c.2 < o + item.packet.length
      · -- the block ends here, and covers no further item
        have hnone : ∀ p ∈ offsets (o + item.packet.length) items, ¬ Covers c p := by
          intro p hp hcp
          have := hcp.2
          have := (offsets_bounds hp).1
          unfold endOf at *
          omega
        have hnil := newly_of_not hnone
        rw [if_pos (hgt.mpr hpast), map_sackEntry_of_newly hnil, hnil]
        exact ⟨rfl, rfl⟩
      · rw [if_neg (fun h => hpast (hgt.mp h)), offsets_cons, (hih t).1, (hih t).2]
        exact ⟨rfl, rfl⟩

/-- The counts keep the same item as `cache`. -/
theorem foldl_sackCount_highest (hh : ∀ q ∈ h, q.1 < 2 ^ 31) (hps : ∀ p ∈ ps, endOf p < 2 ^ 31)
    (ht : t.highestSack = place start h) :
    (ps.foldl (sackCount start) t).highestSack = place start (ps.foldl cache h) := by
  induction ps generalizing t h with
  | nil => exact ht
  | cons p ps ih =>
    have hp := hps p List.mem_cons_self
    have hfst : p.1 < 2 ^ 31 := by
      unfold endOf at hp
      omega
    rw [List.foldl_cons, List.foldl_cons]
    refine ih (fun q hq => ?_) (fun q hq => hps q (List.mem_cons_of_mem p hq)) ?_
    · unfold cache at hq
      split at hq
      · cases hq
        exact hfst
      · exact hh q hq
    · have hend : seqAt start p.1 + p.2.packet.getSize = seqAt start (endOf p) := add_getSize ..
      show (if t.highestSack.1 = none ∨ Le t.highestSack.2 (seqAt start p.1 + p.2.packet.getSize)
        then (some p.2.ref, seqAt start p.1) else t.highestSack) = _
      rw [ht, hend]
      cases h with
      | none => rfl
      | some q =>
        unfold cache place
        by_cases hle : q.1 ≤ endOf p
        · rw [if_pos (.inr ((le_seqAt (hh q rfl) hp).mpr hle)), if_pos (by simpa using hle)]
        · rw [if_neg, if_neg (by simpa using hle)]
          rintro (hnone | hle')
          · cases hnone
          · exact hle ((le_seqAt (hh q rfl) hp).mp hle')

/-- The bytes of the items that are sacked. -/
def sackedSize (ps : List (ℕ × TcpTxItem)) : ℕ :=
  totalSize ((ps.filter fun p => p.2.sacked).map Prod.snd)

theorem sackedSize_cons (p : ℕ × TcpTxItem) (ps : List (ℕ × TcpTxItem)) :
    sackedSize (p :: ps) = (if p.2.sacked = true then p.2.packet.length else 0) + sackedSize ps := by
  unfold sackedSize
  rw [List.filter_cons]
  split
  · rw [List.map_cons, totalSize_cons]
  · exact (Nat.zero_add _).symm

theorem foldl_sackCount_bytes (ps : List (ℕ × TcpTxItem)) (t : SackCounts) :
    (ps.foldl (sackCount start) t).bytesSacked =
      t.bytesSacked + BitVec.ofNat 32 (totalSize (ps.map Prod.snd)) := by
  induction ps generalizing t with
  | nil => exact (BitVec.add_zero _).symm
  | cons p ps ih =>
    rw [List.foldl_cons, ih, List.map_cons, totalSize_cons, BitVec.ofNat_add, ← BitVec.add_assoc]
    rfl

theorem sackedSize_sack (c : ℕ × ℕ) (ps : List (ℕ × TcpTxItem)) :
    sackedSize (ps.map (sackEntry c)) =
      sackedSize ps + totalSize ((newly c ps).map Prod.snd) := by
  induction ps with
  | nil => rfl
  | cons p ps ih =>
    rw [List.map_cons, sackedSize_cons, sackedSize_cons, ih]
    by_cases hp : Covers c p ∧ p.2.sacked = false
    · rw [newly_cons_pos hp, sackEntry, if_pos hp, List.map_cons, totalSize_cons, hp.2,
        if_pos rfl, if_neg Bool.false_ne_true]
      dsimp only
      omega
    · rw [newly_cons_neg hp, sackEntry, if_neg hp, Nat.add_assoc]

theorem sackedSize_le (ps : List (ℕ × TcpTxItem)) :
    sackedSize ps ≤ totalSize (ps.map Prod.snd) := by
  induction ps with
  | nil => exact le_rfl
  | cons p ps ih =>
    rw [sackedSize_cons, List.map_cons, totalSize_cons]
    split
    · omega
    · omega

theorem exists_sacked (hpos : 0 < sackedSize ps) : ∃ p ∈ ps, p.2.sacked = true := by
  by_contra hnone
  push Not at hnone
  have hnil : (ps.filter fun p => p.2.sacked) = [] := List.filter_eq_nil_iff.mpr hnone
  unfold sackedSize at hpos
  rw [hnil] at hpos
  exact absurd hpos (Nat.lt_irrefl 0)

theorem sackedSize_cacheRun (cs : List (ℕ × ℕ)) (ps : List (ℕ × TcpTxItem))
    (h : Option (ℕ × ℕ)) : sackedSize ps ≤ sackedSize (cacheRun cs ps h).1 := by
  induction cs generalizing ps h with
  | nil => exact le_rfl
  | cons c cs ih =>
    have hle := ih (ps.map (sackEntry c)) ((newly c ps).foldl cache h)
    rw [sackedSize_sack] at hle
    exact (Nat.le_add_right ..).trans hle

/-- Blocks that get no byte sacked change nothing. -/
theorem cacheRun_of_sackedSize (hps : Spaced ps)
    (heq : sackedSize (cacheRun cs ps h).1 = sackedSize ps) : cacheRun cs ps h = (ps, h) := by
  induction cs generalizing h with
  | nil => rfl
  | cons c cs ih =>
    rw [cacheRun] at heq ⊢
    have hle := sackedSize_cacheRun cs (ps.map (sackEntry c)) ((newly c ps).foldl cache h)
    rw [heq, sackedSize_sack] at hle
    have hnil : newly c ps = [] := by
      rw [List.eq_nil_iff_forall_not_mem]
      intro p hp
      obtain ⟨a, d, hsplit⟩ := List.append_of_mem hp
      have hpos := hps.nonempty p (mem_newly.mp hp).1
      rw [hsplit, List.map_append, List.map_cons, totalSize_append, totalSize_cons] at hle
      unfold endOf at hpos
      omega
    rw [hnil, map_sackEntry_of_newly hnil] at heq ⊢
    exact ih heq

/-! ### What stays -/

/-- What the marks of an item leave as it is. -/
def shape (item : TcpTxItem) : ℕ × Packet := (item.ref, item.packet)

theorem totalSize_of_shape {items items' : List TcpTxItem}
    (heq : items.map shape = items'.map shape) : totalSize items = totalSize items' := by
  have hsize : ∀ items : List TcpTxItem,
      totalSize items = ((items.map shape).map fun x => x.2.length).sum := by
    intro items
    rw [List.map_map]
    rfl
  rw [hsize, hsize, heq]

theorem nonempty_of_shape {items items' : List TcpTxItem}
    (heq : items.map shape = items'.map shape) (hitems : ∀ item ∈ items', item.packet ≠ []) :
    ∀ item ∈ items, item.packet ≠ [] := by
  intro item hitem
  obtain ⟨item', hitem', hshape⟩ := List.mem_map.mp (heq ▸ List.mem_map_of_mem hitem)
  have hpacket : item'.packet = item.packet := congrArg Prod.snd hshape
  rw [← hpacket]
  exact hitems item' hitem'

theorem refs_of_shape {items items' : List TcpTxItem}
    (heq : items.map shape = items'.map shape) :
    items.map TcpTxItem.ref = items'.map TcpTxItem.ref := by
  have href : ∀ items : List TcpTxItem,
      items.map TcpTxItem.ref = (items.map shape).map Prod.fst := by
    intro items
    rw [List.map_map]
    rfl
  rw [href, heq, ← href]

theorem shape_sackItems (block : SackBlock) (items : List TcpTxItem) (start : SequenceNumber32)
    (t : SackCounts) : (sackItems block items start t).1.map shape = items.map shape := by
  induction items generalizing start t with
  | nil => rfl
  | cons item items ih =>
    unfold sackItems
    dsimp only
    split
    · split
      · rw [List.map_cons, ih, List.map_cons]
      · rw [List.map_cons, ih, List.map_cons]
        rfl
    · split
      · rfl
      · rw [List.map_cons, ih, List.map_cons]

theorem shape_sackBlocks (list : List SackBlock) (items : List TcpTxItem) (t : SackCounts) :
    (b.sackBlocks list items t).2.1.map shape = items.map shape := by
  induction list generalizing items t with
  | nil => rfl
  | cons block list ih =>
    unfold sackBlocks
    split
    · rfl
    · dsimp only
      rw [ih, shape_sackItems]

/-- The loop over the blocks is a run of `cacheRun`, for blocks within the sent items. -/
theorem sackBlocks_eq (items : List TcpTxItem) (t : SackCounts) (h : Option (ℕ × ℕ))
    (hsent : b.sentSize = BitVec.ofNat 32 (totalSize items))
    (hbound : totalSize items < 2 ^ 31)
    (hcs : ∀ c ∈ cs, c.1 ≤ totalSize items ∧ c.2 ≤ totalSize items)
    (ht : t.highestSack = place b.firstByteSeq h) (hh : ∀ q ∈ h, q.1 < 2 ^ 31) :
    ∃ items' t', b.sackBlocks (cs.map (toBlock b.firstByteSeq)) items t = (true, items', t') ∧
      offsets 0 items' = (cacheRun cs (offsets 0 items) h).1 ∧
      t'.highestSack = place b.firstByteSeq (cacheRun cs (offsets 0 items) h).2 ∧
      t'.bytesSacked = t.bytesSacked +
        BitVec.ofNat 32 (sackedSize (offsets 0 items') - sackedSize (offsets 0 items)) := by
  induction cs generalizing items t h with
  | nil =>
    refine ⟨items, t, rfl, rfl, ht, ?_⟩
    rw [Nat.sub_self]
    exact (BitVec.add_zero _).symm
  | cons c cs ih =>
    obtain ⟨hlow, hhigh⟩ := hcs c List.mem_cons_self
    have hinside : ¬ Lt (b.firstByteSeq + b.sentSize) (toBlock b.firstByteSeq c).1 := by
      rw [hsent]
      show ¬ Lt (seqAt b.firstByteSeq (totalSize items)) (seqAt b.firstByteSeq c.1)
      rw [lt_seqAt hbound (by omega)]
      omega
    have hshape := shape_sackItems (toBlock b.firstByteSeq c) items b.firstByteSeq t
    have hsize := totalSize_of_shape hshape
    have hends : ∀ p ∈ offsets 0 items, endOf p < 2 ^ 31 := by
      intro p hp
      have := (offsets_bounds hp).2
      omega
    obtain ⟨hitems, hcounts⟩ := sackItems_eq (c := c) b.firstByteSeq 0 items t
      ⟨by omega, by omega⟩ (by omega)
    rw [seqAt_zero] at hitems hcounts
    have hnew : ∀ p ∈ newly c (offsets 0 items), endOf p < 2 ^ 31 := fun p hp =>
      hends p (mem_newly.mp hp).1
    obtain ⟨items', t', hrun, hps, hkept, hbytes⟩ := ih
      (sackItems (toBlock b.firstByteSeq c) items b.firstByteSeq t).1
      (sackItems (toBlock b.firstByteSeq c) items b.firstByteSeq t).2
      ((newly c (offsets 0 items)).foldl cache h)
      (by rw [hsize, hsent]) (by rw [hsize]; exact hbound)
      (fun d hd => by rw [hsize]; exact hcs d (List.mem_cons_of_mem c hd))
      (by rw [hcounts]; exact foldl_sackCount_highest hh hnew ht)
      (fun q hq => by
        have hle := foldl_cache_le (m := 2 ^ 31 - 1) (fun q hq => Nat.le_pred_of_lt (hh q hq))
          (fun p hp => ?_) q hq
        · omega
        · have := hnew p hp
          unfold endOf at this
          omega)
    rw [hitems] at hps hkept hbytes
    refine ⟨items', t', ?_, hps, hkept, ?_⟩
    · rw [List.map_cons, sackBlocks, if_neg hinside]
      exact hrun
    · have hle := sackedSize_cacheRun cs ((offsets 0 items).map (sackEntry c))
        ((newly c (offsets 0 items)).foldl cache h)
      rw [← hps, sackedSize_sack] at hle
      rw [hbytes, hcounts, foldl_sackCount_bytes, sackedSize_sack, BitVec.add_assoc,
        ← BitVec.ofNat_add]
      congr 2
      omega

end

end TcpTxBuffer

end Ns3.Internet
