import Ns3.Internet.Ipv4AddressGenerator

/-!
# The ranges stand for the addresses that were added

The ranges stay sorted and disjoint, and have the addresses that were added.
Whether a network is free is read off the ends of the ranges, so that one which
lies within a range, away from its ends, is taken for free.
-/

namespace Ns3.Internet.Ipv4AddressGenerator

variable {entries entries' : List AddressEntry} {e : AddressEntry} {addr a : BitVec 32}

def Covers (entries : List AddressEntry) (a : BitVec 32) : Prop :=
  ∃ e ∈ entries, e.addrLow ≤ a ∧ a ≤ e.addrHigh

@[simp] theorem covers_nil : ¬ Covers [] a := by
  simp [Covers]

@[simp] theorem covers_cons :
    Covers (e :: entries) a ↔ (e.addrLow ≤ a ∧ a ≤ e.addrHigh) ∨ Covers entries a := by
  simp [Covers]

/-- Sorted, disjoint, and without the address 0. -/
structure Tidy (entries : List AddressEntry) : Prop where
  sorted : entries.Pairwise fun e e' => e.addrHigh < e'.addrLow
  range : ∀ e ∈ entries, e.addrLow ≤ e.addrHigh
  nonzero : ∀ e ∈ entries, e.addrLow ≠ 0

theorem tidy_nil : Tidy [] := ⟨.nil, by simp, by simp⟩

theorem tidy_cons : Tidy (e :: entries) ↔
    (e.addrLow ≤ e.addrHigh ∧ e.addrLow ≠ 0) ∧ (∀ a, Covers entries a → e.addrHigh < a) ∧
      Tidy entries := by
  constructor
  · rintro ⟨hsorted, hrange, hnonzero⟩
    obtain ⟨hhead, htail⟩ := List.pairwise_cons.mp hsorted
    refine ⟨⟨hrange e (by simp), hnonzero e (by simp)⟩, ?_, htail,
      fun e' he' => hrange e' (by simp [he']), fun e' he' => hnonzero e' (by simp [he'])⟩
    rintro a ⟨e', he', hlow, -⟩
    have := hhead e' he'
    bv_omega
  · rintro ⟨⟨hle, hne⟩, hbelow, htail⟩
    refine ⟨List.pairwise_cons.mpr ⟨fun e' he' => ?_, htail.sorted⟩, ?_, ?_⟩
    · exact hbelow _ ⟨e', he', BitVec.le_refl _, htail.range e' he'⟩
    · exact List.forall_mem_cons.mpr ⟨hle, htail.range⟩
    · exact List.forall_mem_cons.mpr ⟨hne, htail.nonzero⟩

/-- What it means to add an address, for the answer and the ranges that are left. -/
structure Adds (addr : BitVec 32) (entries : List AddressEntry) (r : Bool × List AddressEntry) :
    Prop where
  tidy : Tidy r.2
  fresh : r.1 = true ↔ ¬ Covers entries addr
  covers : ∀ a, Covers r.2 a ↔ a = addr ∨ Covers entries a

theorem adds_collision (h : Tidy entries) (hc : Covers entries addr) :
    Adds addr entries (false, entries) where
  tidy := h
  fresh := by simp [hc]
  covers a := by
    constructor
    · exact .inr
    · rintro (rfl | ha)
      · exact hc
      · exact ha

theorem le_singleton : (addr ≤ a ∧ a ≤ addr) ↔ a = addr := by
  constructor
  · rintro ⟨h₁, h₂⟩
    bv_omega
  · rintro rfl
    exact ⟨BitVec.le_refl _, BitVec.le_refl _⟩

/-- The first range takes the address in. -/
theorem adds_head {i i' : AddressEntry} {rest : List AddressEntry} (h : Tidy (i :: rest))
    (hnot : ¬ Covers (i :: rest) addr) (hne : i'.addrLow ≠ 0)
    (hrange : ∀ a, (i'.addrLow ≤ a ∧ a ≤ i'.addrHigh) ↔
      a = addr ∨ (i.addrLow ≤ a ∧ a ≤ i.addrHigh))
    (hbelow : ∀ a, Covers rest a → i'.addrHigh < a) : Adds addr (i :: rest) (true, i' :: rest) where
  tidy := by
    obtain ⟨⟨hle, -⟩, -, htail⟩ := tidy_cons.mp h
    obtain ⟨h₁, h₂⟩ := (hrange i.addrLow).mpr (.inr ⟨BitVec.le_refl _, hle⟩)
    exact tidy_cons.mpr ⟨⟨BitVec.le_trans h₁ h₂, hne⟩, hbelow, htail⟩
  fresh := by simp [hnot]
  covers a := by rw [covers_cons, covers_cons, hrange, or_assoc]

theorem Adds.cons {i : AddressEntry} {rest : List AddressEntry} {r : Bool × List AddressEntry}
    (h : Tidy (i :: rest)) (hlt : i.addrHigh < addr) (hr : Adds addr rest r) :
    Adds addr (i :: rest) (r.1, i :: r.2) where
  tidy := by
    obtain ⟨hi, hbelow, -⟩ := tidy_cons.mp h
    refine tidy_cons.mpr ⟨hi, fun a ha => ?_, hr.tidy⟩
    rcases (hr.covers a).mp ha with rfl | ha
    · exact hlt
    · exact hbelow a ha
  fresh := by
    have hout : ¬ (i.addrLow ≤ addr ∧ addr ≤ i.addrHigh) := by
      rintro ⟨-, hle⟩
      bv_omega
    rw [hr.fresh, covers_cons]
    simp [hout]
  covers a := by
    rw [covers_cons, covers_cons, hr.covers]
    exact or_left_comm

/-- `AddAllocated` in test mode. -/
theorem addLoop_spec (h : Tidy entries) (hne : addr ≠ 0) :
    ∃ r, addLoop true addr entries = some r ∧ Adds addr entries r := by
  induction entries with
  | nil =>
    refine ⟨_, rfl, ⟨tidy_cons.mpr ⟨⟨BitVec.le_refl _, hne⟩, by simp, tidy_nil⟩, by simp, ?_⟩⟩
    intro a
    rw [covers_cons]
    exact or_congr le_singleton Iff.rfl
  | cons i rest ih =>
    obtain ⟨⟨hle, hlow⟩, hbelow, htail⟩ := tidy_cons.mp h
    rw [addLoop]
    by_cases hin : i.addrLow ≤ addr ∧ addr ≤ i.addrHigh
    · rw [if_pos hin]
      exact ⟨_, rfl, adds_collision h (covers_cons.mpr (.inl hin))⟩
    rw [if_neg hin]
    have hnot : (∀ a, Covers rest a → a ≠ addr) → ¬ Covers (i :: rest) addr := by
      intro hrest hc
      rcases covers_cons.mp hc with hi | hr
      · exact hin hi
      · exact hrest addr hr rfl
    by_cases hbefore : addr < i.addrLow - 1
    · rw [if_pos hbefore]
      have hfresh : ¬ Covers (i :: rest) addr := by
        refine hnot fun a ha heq => ?_
        have := hbelow a ha
        bv_omega
      refine ⟨_, rfl, ⟨tidy_cons.mpr ⟨⟨BitVec.le_refl _, hne⟩, ?_, h⟩, by simp [hfresh], ?_⟩⟩
      · intro a ha
        rcases covers_cons.mp ha with ⟨h₁, -⟩ | hr
        · bv_omega
        · have := hbelow a hr
          bv_omega
      · intro a
        rw [covers_cons]
        exact or_congr le_singleton Iff.rfl
    rw [if_neg hbefore]
    by_cases hnext : addr = i.addrHigh + 1
    · rw [if_pos hnext]
      -- the ranges behind start at the address or after it
      have hle' : ∀ a, Covers rest a → addr ≤ a := by
        intro a ha
        have := hbelow a ha
        bv_omega
      by_cases hhead : rest.head?.any (addr == ·.addrLow)
      · rw [if_pos hhead]
        refine ⟨_, rfl, adds_collision h (covers_cons.mpr (.inr ?_))⟩
        cases rest with
        | nil => simp at hhead
        | cons j rest =>
          obtain ⟨⟨hj, -⟩, -, -⟩ := tidy_cons.mp htail
          have hat : addr = j.addrLow := by simpa using hhead
          exact covers_cons.mpr (.inl ⟨by rw [hat]; exact BitVec.le_refl _, hat ▸ hj⟩)
      · rw [if_neg hhead]
        have hlt : ∀ a, Covers rest a → addr < a := by
          intro a ha
          cases rest with
          | nil => exact absurd ha covers_nil
          | cons j rest =>
            obtain ⟨⟨hj, -⟩, hafter, -⟩ := tidy_cons.mp htail
            have hat : addr ≠ j.addrLow := by simpa using hhead
            have hfirst := hle' j.addrLow (covers_cons.mpr (.inl ⟨BitVec.le_refl _, hj⟩))
            rcases covers_cons.mp ha with ⟨h₁, -⟩ | hr
            · bv_omega
            · have := hafter a hr
              bv_omega
        refine ⟨_, rfl, adds_head h (hnot fun a ha heq => ?_) hlow (fun a => ?_) hlt⟩
        · have := hlt a ha
          bv_omega
        · dsimp only
          bv_omega
    rw [if_neg hnext]
    by_cases hprev : addr = i.addrLow - 1
    · rw [if_pos hprev]
      refine ⟨_, rfl, adds_head h (hnot fun a ha heq => ?_) hne (fun a => ?_) hbelow⟩
      · have := hbelow a ha
        bv_omega
      · dsimp only
        bv_omega
    · rw [if_neg hprev]
      obtain ⟨r, hr, hadds⟩ := ih htail
      refine ⟨_, by rw [hr]; rfl, hadds.cons h ?_⟩
      bv_omega

/-! ## Every sequence of additions -/

/-- A generator in test mode, which has given out nothing. -/
def testGenerator : Ipv4AddressGenerator := ⟨[], true⟩

def addAll (s : Ipv4AddressGenerator) (adds : List (BitVec 32)) : Option Ipv4AddressGenerator :=
  adds.foldlM (fun s a => (s.addAllocated a).map Prod.snd) s

/-- What the generator answers is about the set of the addresses that were added. -/
structure KeepsBooks (s : Ipv4AddressGenerator) (adds : List (BitVec 32))
    (network mask : BitVec 32) : Prop where
  sorted : s.entries.Pairwise fun e e' => e.addrHigh < e'.addrLow
  range : ∀ e ∈ s.entries, e.addrLow ≤ e.addrHigh
  covers : ∀ a, Covers s.entries a ↔ a ∈ adds
  added : ∀ a ≠ 0, ∃ s', s.addAllocated a = some (decide (a ∉ adds), s')
  address : ∀ a ≠ 0, s.isAddressAllocated a = some (decide (a ∉ adds))
  network : s.isNetworkAllocated network mask = some (decide (∀ a ∈ adds, a &&& mask ≠ network))

/-- A range has addresses of the network between its ends, and no range ends in the network. -/
def Missed (entries : List AddressEntry) (network mask : BitVec 32) : Prop :=
  (∃ e ∈ entries, ∃ a, e.addrLow < a ∧ a < e.addrHigh ∧ a &&& mask = network) ∧
    ∀ e ∈ entries, e.addrLow &&& mask ≠ network ∧ e.addrHigh &&& mask ≠ network

theorem addAllocated_spec {s : Ipv4AddressGenerator} (hs : s.test = true) (h : Tidy s.entries)
    (hne : addr ≠ 0) : ∃ r, s.addAllocated addr = some (r.1, { s with entries := r.2 }) ∧
      Adds addr s.entries r := by
  obtain ⟨r, hr, hadds⟩ := addLoop_spec h hne
  refine ⟨r, ?_, hadds⟩
  rw [addAllocated, if_neg hne, hs, hr, Option.map_some]

/-- The ranges have what was added, whatever the order. -/
theorem addAll_spec {s : Ipv4AddressGenerator} {adds : List (BitVec 32)} (hs : s.test = true)
    (h : Tidy s.entries) (hadds : ∀ a ∈ adds, a ≠ 0) :
    ∃ s', s.addAll adds = some s' ∧ s'.test = true ∧ Tidy s'.entries ∧
      ∀ a, Covers s'.entries a ↔ a ∈ adds ∨ Covers s.entries a := by
  induction adds generalizing s with
  | nil => exact ⟨s, rfl, hs, h, fun a => by simp⟩
  | cons b adds ih =>
    obtain ⟨hb, hrest⟩ := List.forall_mem_cons.mp hadds
    obtain ⟨r, hr, hadd⟩ := addAllocated_spec hs h hb
    obtain ⟨s', hs', htest, htidy, hcovers⟩ :=
      ih (s := { s with entries := r.2 }) hs hadd.tidy hrest
    refine ⟨s', ?_, htest, htidy, fun a => ?_⟩
    · simp only [addAll, List.foldlM_cons, hr, Option.map_some, Option.bind_eq_bind,
        Option.bind_some]
      exact hs'
    · rw [hcovers, hadd.covers, List.mem_cons]
      exact or_left_comm.trans or_assoc.symm

theorem isAddressAllocated_eq {s : Ipv4AddressGenerator} (hne : a ≠ 0) {free : Bool}
    (h : free = true ↔ ¬ Covers s.entries a) : s.isAddressAllocated a = some free := by
  rw [isAddressAllocated, if_neg hne, Option.some_inj, Bool.eq_iff_iff, h, Bool.not_eq_true',
    ← Bool.not_eq_true, not_iff_not]
  simp [Covers]

/-- A network is found free exactly when no range ends in it. -/
theorem isNetworkAllocated_eq {s : Ipv4AddressGenerator} {network mask : BitVec 32}
    (hnet : network &&& mask = network) {free : Bool} :
    s.isNetworkAllocated network mask = some free ↔ (free = true ↔
      ∀ e ∈ s.entries, e.addrLow &&& mask ≠ network ∧ e.addrHigh &&& mask ≠ network) := by
  rw [isNetworkAllocated, if_neg (by simp [hnet]), Option.some_inj, Bool.eq_iff_iff,
    Bool.not_eq_true', ← Bool.not_eq_true]
  have hany : ¬ (s.entries.any fun i =>
      network = i.addrLow &&& mask ∨ network = i.addrHigh &&& mask) = true ↔
      ∀ e ∈ s.entries, e.addrLow &&& mask ≠ network ∧ e.addrHigh &&& mask ≠ network := by
    simp only [List.any_eq_true, decide_eq_true_eq, not_exists, not_and, not_or, ne_eq,
      @eq_comm _ network]
  rw [hany]
  exact Iff.comm

/-- **The books.** After any additions the ranges are sorted and disjoint and have what was added,
and the answers about addresses are right; that about a network is, exactly when no range passes
over addresses of it while none ends in it. -/
theorem keepsBooks_iff {adds : List (BitVec 32)} (hadds : ∀ a ∈ adds, a ≠ 0)
    {network mask : BitVec 32} (hnet : network &&& mask = network) :
    ∃ s, testGenerator.addAll adds = some s ∧
      (s.KeepsBooks adds network mask ↔ ¬ Missed s.entries network mask) := by
  obtain ⟨s, hs, htest, htidy, hcov⟩ := addAll_spec (s := testGenerator) rfl tidy_nil hadds
  have hcovers : ∀ a, Covers s.entries a ↔ a ∈ adds := fun a =>
    (hcov a).trans (or_iff_left covers_nil)
  refine ⟨s, hs, ?_⟩
  have hbooks : s.KeepsBooks adds network mask ↔
      s.isNetworkAllocated network mask = some (decide (∀ a ∈ adds, a &&& mask ≠ network)) := by
    refine ⟨KeepsBooks.network, fun h => ⟨htidy.sorted, htidy.range, hcovers, ?_, ?_, h⟩⟩
    · intro a ha
      obtain ⟨r, hr, hadd⟩ := addAllocated_spec htest htidy ha
      have hfresh : r.1 = decide (a ∉ adds) := by
        rw [Bool.eq_iff_iff, hadd.fresh, hcovers, decide_eq_true_iff]
      exact ⟨_, hfresh ▸ hr⟩
    · intro a ha
      exact isAddressAllocated_eq ha (by rw [hcovers, decide_eq_true_iff])
  rw [hbooks, isNetworkAllocated_eq hnet, decide_eq_true_iff]
  constructor
  · rintro hfree ⟨⟨e, he, a, hlow, hhigh, ha⟩, hends⟩
    have hmem := (hcovers a).mp ⟨e, he, BitVec.le_of_lt hlow, BitVec.le_of_lt hhigh⟩
    exact hfree.mpr hends a hmem ha
  · intro hmissed
    constructor
    · intro hnone e he
      have hle := htidy.range e he
      exact ⟨hnone _ ((hcovers _).mp ⟨e, he, BitVec.le_refl _, hle⟩),
        hnone _ ((hcovers _).mp ⟨e, he, hle, BitVec.le_refl _⟩)⟩
    · intro hends a hmem ha
      obtain ⟨e, he, hlow, hhigh⟩ := (hcovers a).mpr hmem
      obtain ⟨hl, hh⟩ := hends e he
      refine hmissed ⟨⟨e, he, a, ?_, ?_, ha⟩, hends⟩
      · have hne : e.addrLow ≠ a := fun heq => hl (heq ▸ ha)
        bv_omega
      · have hne : a ≠ e.addrHigh := fun heq => hh (heq ▸ ha)
        bv_omega

theorem keepsBooks_sample : ∃ s, testGenerator.addAll [0x0a000001, 0x0a000002] = some s ∧
    (s.KeepsBooks [0x0a000001, 0x0a000002] 0x0a000000 0xffffff00 ↔
      ¬ Missed s.entries 0x0a000000 0xffffff00) :=
  keepsBooks_iff (by simp) (by decide)

/-- The range from 10.0.0.3 to 10.0.0.8 passes over the four addresses of 10.0.0.4/30. -/
theorem not_keepsBooks : ∃ s, testGenerator.addAll [0x0a000003, 0x0a000004, 0x0a000005, 0x0a000006,
      0x0a000007, 0x0a000008] = some s ∧
    ¬ s.KeepsBooks [0x0a000003, 0x0a000004, 0x0a000005, 0x0a000006, 0x0a000007, 0x0a000008]
      0x0a000004 0xfffffffc := by
  have hadds : testGenerator.addAll [0x0a000003, 0x0a000004, 0x0a000005, 0x0a000006, 0x0a000007,
      0x0a000008] = some ⟨[⟨0x0a000003, 0x0a000008⟩], true⟩ := by decide
  refine ⟨_, hadds, fun h => ?_⟩
  have hfree : isNetworkAllocated ⟨[⟨0x0a000003, 0x0a000008⟩], true⟩ 0x0a000004 0xfffffffc =
      some true := by decide
  have hall := of_decide_eq_true (Option.some.inj (h.network.symm.trans hfree))
  exact hall 0x0a000004 (List.mem_cons_of_mem _ List.mem_cons_self) (by decide)

/-! ## Networks with a prefix -/

theorem toNat_and_prefix (x : BitVec 32) (m : ℕ) :
    (x &&& BitVec.allOnes 32 <<< m).toNat = x.toNat / 2 ^ m * 2 ^ m := by
  have hshift : x &&& BitVec.allOnes 32 <<< m = (x >>> m) <<< m := by
    ext i hi
    by_cases hm : i < m
    · simp [hm]
    · simp [hm, -BitVec.reduceAllOnes, Nat.add_sub_cancel' (Nat.not_lt.mp hm), hi]
  rw [hshift, BitVec.toNat_shiftLeft, BitVec.toNat_ushiftRight, Nat.shiftLeft_eq,
    Nat.shiftRight_eq_div_pow]
  exact Nat.mod_eq_of_lt (lt_of_le_of_lt (Nat.div_mul_le_self _ _) x.isLt)

/-- The addresses of a network lie between the network and its last address. -/
theorem and_prefix_iff {network : BitVec 32} {m : ℕ} (hm : m ≤ 32)
    (hnet : network &&& BitVec.allOnes 32 <<< m = network) :
    a &&& BitVec.allOnes 32 <<< m = network ↔
      network ≤ a ∧ a ≤ network ||| ~~~(BitVec.allOnes 32 <<< m) := by
  have hlast : network ||| ~~~(BitVec.allOnes 32 <<< m) =
      network + ~~~(BitVec.allOnes 32 <<< m) := by
    rw [BitVec.add_eq_or_of_and_eq_zero]
    rw [← hnet, BitVec.and_assoc]
    simp
  obtain ⟨k, hk⟩ := Nat.pow_dvd_pow 2 hm
  have hpos := Nat.two_pow_pos m
  have hmask := toNat_and_prefix (BitVec.allOnes 32) m
  have hn := toNat_and_prefix network m
  have hlt := network.isLt
  rw [BitVec.allOnes_and, BitVec.toNat_allOnes] at hmask
  rw [hnet] at hn
  rw [hlast, ← BitVec.toNat_inj, toNat_and_prefix, BitVec.le_def, BitVec.le_def, BitVec.toNat_add,
    BitVec.toNat_not, hmask]
  generalize 2 ^ m = K at *
  generalize network.toNat / K = q at hn
  rw [hk] at hlt ⊢
  have hq : q < k := by
    rw [hn, Nat.mul_comm] at hlt
    exact Nat.lt_of_mul_lt_mul_left hlt
  have hdiv : (K * k - 1) / K = k - 1 := by
    simpa using Nat.mul_sub_div 0 K k (Nat.mul_pos hpos (by omega))
  have hrest : K * k - 1 - (K * k - 1) / K * K = K - 1 := by
    rw [hdiv, Nat.sub_one_mul, Nat.mul_comm k K]
    have hle := Nat.le_mul_of_pos_right K (show 0 < k by omega)
    omega
  have hend : q * K + K ≤ K * k := by
    rw [← Nat.succ_mul, Nat.mul_comm K]
    exact Nat.mul_le_mul_right K hq
  rw [hrest, hn, Nat.mod_eq_of_lt (by omega), Nat.mul_left_inj (by omega),
    Nat.div_eq_iff hpos]
  omega

/-- An address is in one range. -/
theorem Tidy.unique {e e' : AddressEntry} (h : Tidy entries) (he : e ∈ entries) (he' : e' ∈ entries)
    (ha : e.addrLow ≤ a ∧ a ≤ e.addrHigh) (ha' : e'.addrLow ≤ a ∧ a ≤ e'.addrHigh) : e = e' := by
  induction entries with
  | nil => cases he
  | cons i rest ih =>
    obtain ⟨-, hbelow, htail⟩ := tidy_cons.mp h
    rcases List.mem_cons.mp he with rfl | hin
    · rcases List.mem_cons.mp he' with rfl | hin'
      · rfl
      · have := hbelow a ⟨e', hin', ha'⟩
        bv_omega
    · rcases List.mem_cons.mp he' with rfl | hin'
      · have := hbelow a ⟨e, hin, ha⟩
        bv_omega
      · exact ih htail hin hin'

/-- A network with a prefix is taken for free when a range starts before its first address and ends
after its last. -/
theorem missed_iff_of_prefix {network : BitVec 32} {m : ℕ} (h : Tidy entries) (hm : m ≤ 32)
    (hnet : network &&& BitVec.allOnes 32 <<< m = network) :
    Missed entries network (BitVec.allOnes 32 <<< m) ↔
      ∃ e ∈ entries, e.addrLow < network ∧
        network ||| ~~~(BitVec.allOnes 32 <<< m) < e.addrHigh := by
  have hself := (and_prefix_iff hm hnet).mp hnet
  simp only [Missed, ne_eq, and_prefix_iff hm hnet]
  constructor
  · rintro ⟨⟨e, he, a, hlow, hhigh, ha⟩, hends⟩
    obtain ⟨hl, hh⟩ := hends e he
    refine ⟨e, he, ?_, ?_⟩
    · bv_omega
    · bv_omega
  · rintro ⟨e, he, hlow, hhigh⟩
    refine ⟨⟨e, he, network, hlow, by bv_omega, hself⟩, fun e' he' => ⟨?_, ?_⟩⟩
    · intro hin
      have heq := h.unique he he' (a := e'.addrLow) ⟨by bv_omega, by bv_omega⟩
        ⟨BitVec.le_refl _, h.range e' he'⟩
      subst heq
      bv_omega
    · intro hin
      have heq := h.unique he he' (a := e'.addrHigh) ⟨by bv_omega, by bv_omega⟩
        ⟨h.range e' he', BitVec.le_refl _⟩
      subst heq
      bv_omega

end Ns3.Internet.Ipv4AddressGenerator
