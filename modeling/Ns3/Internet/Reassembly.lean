import Ns3.Lib.Run
import Ns3.Internet.Ipv4Fragmentation
import Mathlib.Data.List.TakeWhile
import Mathlib.Tactic.Common

/-!
# Reassembly of IPv4 fragments

A fragment of a datagram is what `DoFragmentation` makes of the datagram or of
one of its fragments. `Fragments` keeps one flag for "more fragments", and the
flag is that of the latest of the fragments that start the furthest on: so a
fragment that is not the last one, and starts after the last fragment of
another copy, hides that the datagram is complete.
-/

namespace Ns3.Internet

open Ns3.Lib Ns3.Network

/-! ## The datagrams and their keys -/

/-- What a payload of an IPv4 datagram can be. -/
abbrev Payload := { p : Packet // p.length ≤ 65535 - Ipv4Header.serializedSize }

/-- What the fragments of one datagram agree on. -/
abbrev Flow := UInt32 × UInt32 × UInt16 × UInt8

def Ipv4Header.flow (h : Ipv4Header) : Flow :=
  (h.source, h.destination, h.identification, h.protocol)

theorem shiftLeft_or_inj {a b c d k : ℕ} (hb : b < 2 ^ k) (hd : d < 2 ^ k)
    (h : a <<< k ||| b = c <<< k ||| d) : a = c ∧ b = d := by
  rw [← Nat.shiftLeft_add_eq_or_of_lt hb, ← Nat.shiftLeft_add_eq_or_of_lt hd,
    Nat.shiftLeft_eq, Nat.shiftLeft_eq] at h
  have hdiv := congrArg (· / 2 ^ k) h
  have hmod := congrArg (· % 2 ^ k) h
  simp only [Nat.mul_comm _ (2 ^ k), Nat.mul_add_div (Nat.two_pow_pos k),
    Nat.div_eq_of_lt hb, Nat.div_eq_of_lt hd, Nat.add_zero] at hdiv
  simp only [Nat.mul_comm _ (2 ^ k), Nat.mul_add_mod, Nat.mod_eq_of_lt hb,
    Nat.mod_eq_of_lt hd] at hmod
  exact ⟨hdiv, hmod⟩

/-- Datagrams do not share a key. -/
theorem fragmentKey_inj {h h' : Ipv4Header} : fragmentKey h = fragmentKey h' ↔ h.flow = h'.flow := by
  constructor
  · intro hkey
    have hpair := toLex.injective hkey
    simp only [Prod.mk.injEq] at hpair
    obtain ⟨haddr, hid⟩ := hpair
    have hd : ∀ x : UInt32, x.toNat < 2 ^ 32 := UInt32.toNat_lt
    have hp : ∀ x : UInt8, x.toNat < 2 ^ 16 := by
      intro x
      have := x.toNat_lt
      omega
    obtain ⟨h₁, h₂⟩ := shiftLeft_or_inj (hd _) (hd _) haddr
    obtain ⟨h₃, h₄⟩ := shiftLeft_or_inj (hp _) (hp _) hid
    unfold Ipv4Header.flow
    rw [UInt32.toNat_inj.mp h₁, UInt32.toNat_inj.mp h₂, UInt16.toNat_inj.mp h₃,
      UInt8.toNat_inj.mp h₄]
  · intro hflow
    simp only [Ipv4Header.flow, Prod.mk.injEq] at hflow
    obtain ⟨h₁, h₂, h₃, h₄⟩ := hflow
    rw [fragmentKey, fragmentKey, h₁, h₂, h₃, h₄]

/-! ## What the fragments are -/

/-- A part of the datagram that starts on a multiple of 8 and says whether it is the last one. -/
structure Slice (payload : Packet) (h : Ipv4Header) (p : Packet) : Prop where
  aligned : h.fragmentOffset % 8 = 0
  bytes : p = (payload.drop h.fragmentOffset).take p.length
  inside : h.fragmentOffset + p.length ≤ payload.length
  last : h.moreFragments = false ↔ h.fragmentOffset + p.length = payload.length
  nonempty : p.length = 0 → payload.length = 0

/-- A part of a part is a part, when it is the last one exactly if both are. -/
theorem Slice.part {payload p q : Packet} {h h' : Ipv4Header} {i : ℕ} (hs : Slice payload h p)
    (hi : i % 8 = 0) (hq : q = (p.drop i).take q.length) (hin : i + q.length ≤ p.length)
    (hoff : h'.fragmentOffset = i + h.fragmentOffset)
    (hmore : h'.moreFragments = false ↔ i + q.length = p.length ∧ h.moreFragments = false)
    (hne : q.length = 0 → p.length = 0) : Slice payload h' q where
  aligned := by
    have := hs.aligned
    omega
  bytes := by
    have hbytes := hs.bytes
    rw [hoff, Nat.add_comm, ← List.drop_drop]
    generalize payload.drop h.fragmentOffset = rest at hbytes ⊢
    rw [hbytes, List.drop_take, List.take_take] at hq
    have hmin : min q.length (p.length - i) = q.length := by omega
    rw [hmin] at hq
    exact hq
  inside := by
    have := hs.inside
    omega
  last := by
    have hin' := hs.inside
    rw [hmore, hs.last]
    omega
  nonempty h := hs.nonempty (hne h)

theorem fragmentSize_eq {mtu : ℕ} (hmtu : 68 ≤ mtu) (hlt : mtu < 2 ^ 16) :
    fragmentSize mtu = (mtu - 20) / 8 * 8 := by
  unfold fragmentSize Ipv4Header.serializedSize
  omega

section Fragmentation

variable {p : Packet} {h : Ipv4Header} {size : ℕ}

/-- One round of the loop, where nothing wraps. -/
theorem fragmentLoop_succ (hp : h.fragmentOffset + p.length ≤ 65515) (ha : h.fragmentOffset % 8 = 0)
    (hsize : size < 2 ^ 16) (fuel : ℕ) {offset : ℕ} (hoff : offset ≤ p.length)
    (hoa : offset % 8 = 0) (acc : List (Packet × Ipv4Header)) :
    fragmentLoop p h size (fuel + 1) offset acc =
      if offset + size < p.length then
        fragmentLoop p h size fuel (offset + size) (acc ++ [((p.drop offset).take size,
          { h with
            fragmentOffset := offset + h.fragmentOffset
            moreFragments := true
            payloadSize := size })])
      else some (acc ++ [(p.drop offset,
          { h with
            fragmentOffset := offset + h.fragmentOffset
            payloadSize := p.length - offset })]) := by
  have hlen : p.getSize.toNat = p.length := Packet.getSize_toNat (by omega)
  have hmod : (offset + size) % 2 ^ 32 = offset + size := by omega
  have hoffset : (offset + h.fragmentOffset) % 2 ^ 16 = offset + h.fragmentOffset := by omega
  have hset : h.setFragmentOffset (offset + h.fragmentOffset) =
      some { h with fragmentOffset := offset + h.fragmentOffset } := by
    unfold Ipv4Header.setFragmentOffset
    rw [if_pos (by omega)]
  rw [fragmentLoop]
  dsimp only
  rw [hlen, hmod, hoffset, hset]
  dsimp only
  by_cases hmore : offset + size < p.length
  · simp only [hmore, decide_true, if_true, Bool.true_or]
    rw [Packet.createFragment_eq (by omega) (by omega)]
    congr 2
    · omega
    · rw [Nat.mod_eq_of_lt hsize]
  · have hrest : (p.length + 2 ^ 32 - offset) % 2 ^ 32 = p.length - offset := by omega
    simp only [hmore, decide_false, Bool.false_eq_true, if_false, Bool.false_or, hrest]
    rw [Packet.createFragment_eq (by omega) (by omega), List.take_of_length_le (by simp)]
    have hpay : (p.length - offset) % 2 ^ 16 = p.length - offset := by omega
    rw [hpay]
    simp only [Ipv4Header.isLastFragment, Bool.not_not]

/-- Every fragment the loop makes of a part of the datagram is a part of it. -/
theorem fragmentLoop_slice {payload : Packet} (hs : Slice payload h p)
    (hpay : payload.length ≤ 65515) (hsize : size < 2 ^ 16) (hpos : 0 < size) (hsa : size % 8 = 0)
    {fuel offset : ℕ} {acc fs : List (Packet × Ipv4Header)} (hoff : offset ≤ p.length)
    (hrest : offset = p.length → p.length = 0) (hoa : offset % 8 = 0)
    (hacc : ∀ x ∈ acc, x.2.flow = h.flow ∧ Slice payload x.2 x.1)
    (hfs : fragmentLoop p h size fuel offset acc = some fs) :
    ∀ x ∈ fs, x.2.flow = h.flow ∧ Slice payload x.2 x.1 := by
  have hp : h.fragmentOffset + p.length ≤ 65515 := hs.inside.trans hpay
  induction fuel generalizing offset acc with
  | zero => cases hfs
  | succ fuel ih =>
    rw [fragmentLoop_succ hp hs.aligned hsize fuel hoff hoa] at hfs
    split_ifs at hfs with hmore
    · refine ih (by omega) (by omega) (by omega) ?_ hfs
      intro x hx
      rw [List.mem_append, List.mem_singleton] at hx
      rcases hx with hx | rfl
      · exact hacc x hx
      · have hlen : ((p.drop offset).take size).length = size := by
          rw [List.length_take, List.length_drop]
          omega
        refine ⟨rfl, hs.part (q := (p.drop offset).take size) hoa ?_ ?_ rfl ?_ ?_⟩
        · rw [hlen]
        · omega
        · rw [hlen]
          simp only [Bool.true_eq_false, false_iff, not_and]
          omega
        · omega
    · cases hfs
      intro x hx
      rw [List.mem_append, List.mem_singleton] at hx
      rcases hx with hx | rfl
      · exact hacc x hx
      · have hlen : (p.drop offset).length = p.length - offset := List.length_drop
        refine ⟨rfl, hs.part (q := p.drop offset) hoa ?_ ?_ rfl ?_ ?_⟩
        · rw [List.take_length]
        · omega
        · rw [hlen]
          simp only [iff_and_self]
          omega
        · omega

/-- The loop ends. -/
theorem fragmentLoop_isSome (hp : h.fragmentOffset + p.length ≤ 65515)
    (ha : h.fragmentOffset % 8 = 0) (hsize : size < 2 ^ 16) (hpos : 0 < size) (hsa : size % 8 = 0)
    {fuel offset : ℕ} {acc : List (Packet × Ipv4Header)} (hoff : offset ≤ p.length)
    (hoa : offset % 8 = 0) (hfuel : p.length - offset < fuel) :
    ∃ fs, fragmentLoop p h size fuel offset acc = some fs := by
  induction fuel generalizing offset acc with
  | zero => omega
  | succ fuel ih =>
    rw [fragmentLoop_succ hp ha hsize fuel hoff hoa]
    split_ifs with hmore
    · exact ih (by omega) (by omega) (by omega)
    · exact ⟨_, rfl⟩

end Fragmentation

/-- What `DoFragmentation` makes of a datagram, and of its fragments on their way. -/
inductive FragmentOf (payload : Packet) (d : Flow) : Ipv4Header → Packet → Prop
  | whole {h : Ipv4Header} (hflow : h.flow = d) (hmore : h.moreFragments = false)
      (hoffset : h.fragmentOffset = 0) : FragmentOf payload d h payload
  | again {h h' : Ipv4Header} {p q : Packet} {fuel mtu : ℕ} {fs : List (Packet × Ipv4Header)}
      (hf : FragmentOf payload d h p) (hmtu : 68 ≤ mtu) (hlt : mtu < 2 ^ 16)
      (hfs : doFragmentation fuel p h mtu = some fs) (hmem : (q, h') ∈ fs) :
      FragmentOf payload d h' q

theorem FragmentOf.slice {payload : Packet} (hpay : payload.length ≤ 65515) {d : Flow}
    {h : Ipv4Header} {p : Packet} (hf : FragmentOf payload d h p) :
    h.flow = d ∧ Slice payload h p := by
  induction hf with
  | whole hflow hmore hoffset =>
    refine ⟨hflow, ?_, ?_, ?_, ?_, id⟩
    · rw [hoffset]
    · rw [hoffset, List.drop_zero, List.take_length]
    · omega
    · rw [hmore, hoffset]
      simp
  | @again h h' p q fuel mtu fs _ hmtu hlt hfs hmem ih =>
    have hsize := fragmentSize_eq hmtu hlt
    obtain ⟨hflow, hs⟩ := fragmentLoop_slice ih.2 hpay (by omega) (by omega) (by omega)
      (Nat.zero_le _) (fun h => h.symm) (Nat.zero_mod 8) (by simp) hfs (q, h') hmem
    exact ⟨hflow.trans ih.1, hs⟩

/-- `DoFragmentation` ends on every fragment there can be. -/
theorem FragmentOf.doFragmentation_isSome {payload : Packet} (hpay : payload.length ≤ 65515)
    {d : Flow} {h : Ipv4Header} {p : Packet} (hf : FragmentOf payload d h p) {mtu : ℕ}
    (hmtu : 68 ≤ mtu) (hlt : mtu < 2 ^ 16) :
    ∃ fs, doFragmentation (p.length + 1) p h mtu = some fs := by
  have hsize := fragmentSize_eq hmtu hlt
  obtain ⟨-, hs⟩ := hf.slice hpay
  exact fragmentLoop_isSome (hs.inside.trans hpay) hs.aligned (by omega) (by omega) (by omega)
    (Nat.zero_le _) (Nat.zero_mod 8) (by omega)

/-! ## What has arrived -/

abbrev Delivery := Ipv4Header × Packet

/-- Every byte is in one of the fragments. -/
def Covered (payload : Packet) (ds : List Delivery) : Prop :=
  ∀ i < payload.length, ∃ d ∈ ds, d.1.fragmentOffset ≤ i ∧ i < d.1.fragmentOffset + d.2.length

def Complete (payload : Packet) (ds : List Delivery) : Prop :=
  (∃ d ∈ ds, d.1.moreFragments = false) ∧ Covered payload ds

instance (payload : Packet) (ds : List Delivery) : Decidable (Covered payload ds) :=
  inferInstanceAs (Decidable (∀ i < payload.length, ∃ d ∈ ds, _))

instance (payload : Packet) (ds : List Delivery) : Decidable (Complete payload ds) :=
  inferInstanceAs (Decidable (_ ∧ _))

/-- With the last of the fragments the datagram is complete, and was not before. -/
def FirstComplete (payload : Packet) (ds : List Delivery) (d : Delivery) : Prop :=
  Complete payload (ds ++ [d]) ∧ ¬ Complete payload ds

instance (payload : Packet) (ds : List Delivery) (d : Delivery) :
    Decidable (FirstComplete payload ds d) :=
  inferInstanceAs (Decidable (_ ∧ _))

def higher (top : Option Delivery) (d : Delivery) : Option Delivery :=
  match top with
  | none => some d
  | some t => if d.1.fragmentOffset < t.1.fragmentOffset then some t else some d

/-- The latest of the fragments that start the furthest on. -/
def latestTop (ds : List Delivery) : Option Delivery := ds.foldl higher none

theorem latestTop_append (ds : List Delivery) (d : Delivery) :
    latestTop (ds ++ [d]) = higher (latestTop ds) d := by
  rw [latestTop, List.foldl_append, List.foldl_cons, List.foldl_nil, latestTop]

theorem latestTop_eq_none {ds : List Delivery} (h : latestTop ds = none) : ds = [] := by
  induction ds using List.reverseRecOn with
  | nil => rfl
  | append_singleton ds d =>
    rw [latestTop_append] at h
    unfold higher at h
    split at h
    · cases h
    · split_ifs at h

theorem latestTop_eq_some {ds : List Delivery} {t : Delivery} (h : latestTop ds = some t) :
    t ∈ ds ∧ ∀ d ∈ ds, d.1.fragmentOffset ≤ t.1.fragmentOffset := by
  induction ds using List.reverseRecOn generalizing t with
  | nil => cases h
  | append_singleton ds d ih =>
    rw [latestTop_append] at h
    cases htop : latestTop ds with
    | none =>
      rw [htop] at h
      cases h
      cases latestTop_eq_none htop
      simp
    | some u =>
      obtain ⟨hu, hle⟩ := ih htop
      rw [htop, higher] at h
      split_ifs at h with hlt
      · cases h
        refine ⟨List.mem_append_left _ hu, ?_⟩
        intro d' hd'
        rw [List.mem_append, List.mem_singleton] at hd'
        rcases hd' with hd' | rfl
        · exact hle d' hd'
        · exact hlt.le
      · cases h
        refine ⟨by simp, ?_⟩
        intro d' hd'
        rw [List.mem_append, List.mem_singleton] at hd'
        rcases hd' with hd' | rfl
        · exact (hle d' hd').trans (Nat.le_of_not_lt hlt)
        · exact le_rfl

/-! ## The list of fragments -/

/-- The list and the flag, against what has arrived of the datagram. -/
structure Fragments.Holds (f : Fragments) (ds : List Delivery) : Prop where
  mem : ∀ it, it ∈ f.fragments ↔ ∃ d ∈ ds, it = (d.2, d.1.fragmentOffset)
  sorted : f.fragments.Pairwise (fun it it' => it.2 ≤ it'.2)
  flag : ∀ t, latestTop ds = some t → f.moreFragment = t.1.moreFragments

namespace Fragments

theorem holds_new (iter : ℕ) : (new iter).Holds [] where
  mem it := by simp [new]
  sorted := .nil
  flag t h := by cases h

theorem pairwise_insert {l : List (Packet × ℕ)} (h : l.Pairwise fun a b => a.2 ≤ b.2)
    (it : Packet × ℕ) :
    (l.takeWhile (fun a => a.2 ≤ it.2) ++ it :: l.dropWhile (fun a => a.2 ≤ it.2)).Pairwise
      fun a b => a.2 ≤ b.2 := by
  have hall : ∀ a ∈ l.takeWhile (fun a => a.2 ≤ it.2), a.2 ≤ it.2 := by
    intro a ha
    simpa using List.mem_takeWhile_imp ha
  have hrest : ∀ b ∈ l.dropWhile (fun a => a.2 ≤ it.2), it.2 ≤ b.2 := by
    induction l with
    | nil => simp
    | cons a l ih =>
      rw [List.pairwise_cons] at h
      by_cases ha : a.2 ≤ it.2
      · rw [List.dropWhile_cons_of_pos (by simpa using ha)]
        apply ih h.2
        intro b hb
        apply hall
        rw [List.takeWhile_cons_of_pos (by simpa using ha)]
        exact List.mem_cons_of_mem a hb
      · rw [List.dropWhile_cons_of_neg (by simpa using ha)]
        intro b hb
        rcases List.mem_cons.mp hb with rfl | hb
        · omega
        · have := h.1 b hb
          omega
  rw [List.pairwise_append, List.pairwise_cons]
  refine ⟨h.sublist (List.takeWhile_sublist _), ⟨hrest, h.sublist (List.dropWhile_sublist _)⟩, ?_⟩
  intro a ha b hb
  rcases List.mem_cons.mp hb with rfl | hb
  · exact hall a ha
  · exact (hall a ha).trans (hrest b hb)

/-- A fragment starts at or after all those there are exactly when nothing is behind it. -/
theorem dropWhile_isEmpty_iff {l : List (Packet × ℕ)} {o : ℕ} :
    (l.dropWhile fun a => a.2 ≤ o).isEmpty = true ↔ ∀ a ∈ l, a.2 ≤ o := by
  rw [List.isEmpty_iff, List.dropWhile_eq_nil_iff]
  simp

theorem Holds.addFragment {f : Fragments} {ds : List Delivery} (hf : f.Holds ds) (d : Delivery) :
    (f.addFragment d.2 d.1.fragmentOffset d.1.moreFragments).Holds (ds ++ [d]) where
  mem it := by
    have hsplit : ∀ it, it ∈ f.fragments ↔
        it ∈ f.fragments.takeWhile (fun a => a.2 ≤ d.1.fragmentOffset) ∨
          it ∈ f.fragments.dropWhile (fun a => a.2 ≤ d.1.fragmentOffset) := by
      intro it
      rw [← List.mem_append, List.takeWhile_append_dropWhile]
    unfold Fragments.addFragment
    simp only [List.mem_append, List.mem_cons, List.not_mem_nil, or_false]
    have hmem := hf.mem it
    rw [hsplit] at hmem
    constructor
    · rintro (h | rfl | h)
      · obtain ⟨d', hd', rfl⟩ := hmem.mp (.inl h)
        exact ⟨d', .inl hd', rfl⟩
      · exact ⟨d, .inr rfl, rfl⟩
      · obtain ⟨d', hd', rfl⟩ := hmem.mp (.inr h)
        exact ⟨d', .inl hd', rfl⟩
    · rintro ⟨d', hd' | rfl, rfl⟩
      · rcases hmem.mpr ⟨d', hd', rfl⟩ with h | h
        · exact .inl h
        · exact .inr (.inr h)
      · exact .inr (.inl rfl)
  sorted := pairwise_insert hf.sorted (d.2, d.1.fragmentOffset)
  flag t ht := by
    unfold Fragments.addFragment
    dsimp only
    rw [latestTop_append] at ht
    have hall : (∀ a ∈ f.fragments, a.2 ≤ d.1.fragmentOffset) ↔
        ∀ d' ∈ ds, d'.1.fragmentOffset ≤ d.1.fragmentOffset := by
      constructor
      · intro h d' hd'
        exact h _ ((hf.mem _).mpr ⟨d', hd', rfl⟩)
      · intro h a ha
        obtain ⟨d', hd', rfl⟩ := (hf.mem a).mp ha
        exact h d' hd'
    have hempty := dropWhile_isEmpty_iff.trans hall
    cases htop : latestTop ds with
    | none =>
      rw [htop] at ht
      cases ht
      cases latestTop_eq_none htop
      rw [if_pos (hempty.mpr (by simp))]
    | some u =>
      obtain ⟨hu, hle⟩ := latestTop_eq_some htop
      rw [htop, higher] at ht
      split_ifs at ht with hlt
      · cases ht
        have hne : ¬ ∀ d' ∈ ds, d'.1.fragmentOffset ≤ d.1.fragmentOffset := by
          intro h
          have := h t hu
          omega
        rw [if_neg (fun h => hne (hempty.mp h))]
        exact hf.flag t htop
      · cases ht
        have hle' : ∀ d' ∈ ds, d'.1.fragmentOffset ≤ d.1.fragmentOffset := by
          intro d' hd'
          have := hle d' hd'
          omega
        rw [if_pos (hempty.mpr hle')]

/-- The loop of `IsEntire` finds a gap exactly where a byte before a fragment is in none. -/
theorem isEntireLoop_iff {l : List (Packet × ℕ)} (hs : l.Pairwise fun a b => a.2 ≤ b.2)
    (hfit : ∀ it ∈ l, it.1.length + it.2 < 2 ^ 16) {e : ℕ} :
    isEntireLoop e l = true ↔ ∀ it ∈ l, ∀ i, e ≤ i → i < it.2 →
      ∃ it' ∈ l, it'.2 ≤ i ∧ i < it'.2 + it'.1.length := by
  induction l generalizing e with
  | nil => simp [isEntireLoop]
  | cons it l ih =>
    rw [List.pairwise_cons] at hs
    rw [List.forall_mem_cons] at hfit
    have ih := fun e => ih hs.2 hfit.2 (e := e)
    rw [isEntireLoop, Nat.mod_eq_of_lt hfit.1]
    split_ifs with hgap
    · simp only [false_iff]
      intro h
      obtain ⟨it', hit', hle, -⟩ := h it (by simp) e le_rfl hgap
      rcases List.mem_cons.mp hit' with rfl | hit'
      · omega
      · have := hs.1 it' hit'
        omega
    · rw [ih]
      constructor
      · intro h it' hit' i hi hlt
        by_cases hin : i < it.1.length + it.2
        · exact ⟨it, by simp, by omega, by omega⟩
        · rcases List.mem_cons.mp hit' with rfl | hit'
          · omega
          · obtain ⟨it'', hit'', hcov⟩ := h it' hit' i (by omega) hlt
            exact ⟨it'', List.mem_cons_of_mem it hit'', hcov⟩
      · intro h it' hit' i hi hlt
        obtain ⟨it'', hit'', hcov⟩ := h it' (List.mem_cons_of_mem it hit') i (by omega) hlt
        rcases List.mem_cons.mp hit'' with rfl | hit''
        · omega
        · exact ⟨it'', hit'', hcov⟩

/-- The loop of `GetPacket` over fragments without a gap goes on to the furthest end. -/
theorem getPacketLoop_eq {payload : Packet} (hpay : payload.length < 2 ^ 16)
    {l : List (Packet × ℕ)} {e : ℕ} (he : e ≤ payload.length)
    (hl : ∀ it ∈ l, it.1 = (payload.drop it.2).take it.1.length ∧
      it.2 + it.1.length ≤ payload.length)
    (hgap : isEntireLoop e l = true) :
    ∃ m, getPacketLoop (payload.take e) e l = payload.take m ∧ e ≤ m ∧
      ∀ it ∈ l, it.2 + it.1.length ≤ m := by
  induction l generalizing e with
  | nil => exact ⟨e, rfl, le_rfl, by simp⟩
  | cons it l ih =>
    rw [List.forall_mem_cons] at hl
    obtain ⟨⟨hbytes, hin⟩, hl⟩ := hl
    rw [isEntireLoop, Nat.mod_eq_of_lt (by omega)] at hgap
    split_ifs at hgap with hlt
    have hsize : it.1.getSize.toNat = it.1.length := Packet.getSize_toNat (by omega)
    -- what this fragment adds to the first `e` bytes
    have hstep : (if it.2 < e then
          if e - it.2 < it.1.getSize.toNat then
            payload.take e ++ it.1.createFragment (BitVec.ofNat 32 (e - it.2))
              (BitVec.ofNat 32 (it.1.getSize.toNat - (e - it.2)))
          else payload.take e
        else payload.take e ++ it.1) = payload.take (max e (it.1.length + it.2)) := by
      rw [hsize]
      split_ifs with hover hnew
      · rw [Packet.createFragment_eq (by omega) (by omega)]
        have hmax : max e (it.1.length + it.2) = e + (it.1.length - (e - it.2)) := by omega
        rw [hmax, List.take_add, hbytes, List.drop_take, List.take_take, List.drop_drop]
        have hlen : ((payload.drop it.2).take it.1.length).length = it.1.length := by
          rw [← hbytes]
        have hfrom : it.2 + (e - it.2) = e := by omega
        rw [hlen, hfrom, Nat.min_self]
      · rw [max_eq_left (by omega)]
      · have hmax : max e (it.1.length + it.2) = e + it.1.length := by omega
        have heq : it.2 = e := by omega
        rw [hmax, List.take_add, ← heq, ← hbytes]
    have hmod : (payload.take (max e (it.1.length + it.2))).length % 2 ^ 16 =
        max e (it.1.length + it.2) := by
      rw [List.length_take]
      omega
    obtain ⟨m, hm, hle, hall⟩ := ih (e := max e (it.1.length + it.2)) (by omega) hl hgap
    refine ⟨m, ?_, by omega, ?_⟩
    · rw [getPacketLoop]
      dsimp only
      rw [hstep, hmod, hm]
    · rw [List.forall_mem_cons]
      exact ⟨by omega, hall⟩

variable {payload : Packet} {f : Fragments} {ds : List Delivery}

/-- The flag and the list say that the datagram is complete exactly when it is and the latest of
the fragments that start the furthest on is a last one. -/
theorem Holds.isEntire_iff (hf : f.Holds ds) (hpay : payload.length < 2 ^ 16)
    (hds : ∀ d ∈ ds, Slice payload d.1 d.2) {t : Delivery} (ht : latestTop ds = some t) :
    f.isEntire = true ↔ Complete payload ds ∧ t.1.moreFragments = false := by
  obtain ⟨hmem, hle⟩ := latestTop_eq_some ht
  have hflag := hf.flag t ht
  have hne : f.fragments.isEmpty = false := by
    rw [List.isEmpty_eq_false_iff_exists_mem]
    exact ⟨_, (hf.mem _).mpr ⟨t, hmem, rfl⟩⟩
  have hfit : ∀ it ∈ f.fragments, it.1.length + it.2 < 2 ^ 16 := by
    intro it hit
    obtain ⟨d, hd, rfl⟩ := (hf.mem it).mp hit
    have := (hds d hd).inside
    dsimp only
    omega
  have hloop := isEntireLoop_iff hf.sorted hfit (e := 0)
  unfold isEntire
  rw [hne, Bool.not_false, Bool.and_true, Bool.and_eq_true, hloop, hflag]
  constructor
  · rintro ⟨hlast, hcov⟩
    have hlast : t.1.moreFragments = false := by simpa using hlast
    refine ⟨⟨⟨t, hmem, hlast⟩, ?_⟩, hlast⟩
    intro i hi
    by_cases hlow : i < t.1.fragmentOffset
    · obtain ⟨it, hit, hin⟩ :=
        hcov _ ((hf.mem _).mpr ⟨t, hmem, rfl⟩) i (Nat.zero_le i) hlow
      obtain ⟨d, hd, rfl⟩ := (hf.mem it).mp hit
      exact ⟨d, hd, hin⟩
    · have hend := (hds t hmem).last.mp hlast
      exact ⟨t, hmem, by omega, by omega⟩
  · rintro ⟨⟨-, hcov⟩, hlast⟩
    refine ⟨by rw [hlast]; rfl, ?_⟩
    intro it hit i _ hi
    obtain ⟨d, hd, rfl⟩ := (hf.mem it).mp hit
    have hin := (hds d hd).inside
    dsimp only at hi
    obtain ⟨d', hd', hcov'⟩ := hcov i (by omega)
    exact ⟨_, (hf.mem _).mpr ⟨d', hd', rfl⟩, hcov'⟩

/-- What is put together of a complete datagram is its payload. -/
theorem Holds.getPacket_eq (hf : f.Holds ds) (hpay : payload.length < 2 ^ 16)
    (hds : ∀ d ∈ ds, Slice payload d.1 d.2) (hentire : f.isEntire = true)
    (hcomplete : Complete payload ds) : f.getPacket = some payload := by
  have hl : ∀ it ∈ f.fragments, it.1 = (payload.drop it.2).take it.1.length ∧
      it.2 + it.1.length ≤ payload.length := by
    intro it hit
    obtain ⟨d, hd, rfl⟩ := (hf.mem it).mp hit
    exact ⟨(hds d hd).bytes, (hds d hd).inside⟩
  unfold isEntire at hentire
  rw [Bool.and_eq_true] at hentire
  have hgap := hentire.2
  obtain ⟨d, hd, hlast⟩ := hcomplete.1
  have hend := (hds d hd).last.mp hlast
  have hmem := (hf.mem _).mpr ⟨d, hd, rfl⟩
  unfold getPacket
  generalize f.fragments = fs at *
  cases fs with
  | nil => cases hmem
  | cons it rest =>
    obtain ⟨hit, hrest⟩ := List.forall_mem_cons.mp hl
    have hfirst : it.2 = 0 := by
      rw [isEntireLoop] at hgap
      split_ifs at hgap with h0
      omega
    rw [isEntireLoop, hfirst, if_neg (Nat.lt_irrefl 0), Nat.mod_eq_of_lt (by omega), Nat.add_zero,
      Nat.zero_max] at hgap
    rw [hfirst, List.drop_zero] at hit
    obtain ⟨m, hm, hle, hall⟩ := getPacketLoop_eq hpay (e := it.1.length) (by omega) hrest hgap
    dsimp only
    rw [Nat.mod_eq_of_lt (by omega)]
    rw [← hit.1] at hm
    have hfull : payload.length ≤ m := by
      rcases List.mem_cons.mp hmem with heq | hin
      · rw [← heq] at hle hfirst
        dsimp only at hle hfirst
        omega
      · have := hall _ hin
        dsimp only at this
        omega
    rw [hm, List.take_of_length_le hfull]

end Fragments

/-! ## The runs -/

/-- One call of `ProcessFragment`. -/
structure Arrival where
  now : ℤ
  packet : Packet
  ipHeader : Ipv4Header
  iif : ℕ
  deriving DecidableEq

/-- The protocol and, for each datagram, the fragments that have arrived since it was last
reported to be complete. -/
structure Reassembler where
  node : Ipv4L3Protocol
  arrived : Flow → List Delivery

namespace Reassembler

/-- The fragments of the datagram with the arrived one. -/
def arrivedWith (r : Reassembler) (a : Arrival) : List Delivery :=
  r.arrived a.ipHeader.flow ++ [(a.ipHeader, a.packet)]

def process (r : Reassembler) (a : Arrival) : Option ((Bool × Packet) × Reassembler) :=
  (r.node.processFragment a.now a.packet a.ipHeader a.iif).map fun out =>
    (out.1, ⟨out.2, Function.update r.arrived a.ipHeader.flow
      (if out.1.1 then [] else r.arrivedWith a)⟩)

/-- Fragments of many datagrams arrive, in any order and any number of times. -/
def system (payloads : Flow → Payload) : System Reassembler Arrival where
  init r := ∃ timeout, r = ⟨Ipv4L3Protocol.new timeout, fun _ => []⟩
  step r a r' :=
    FragmentOf (payloads a.ipHeader.flow).1 a.ipHeader.flow a.ipHeader a.packet ∧
      ∃ out, r.process a = some (out, r')

/-- Where the arrived fragment completes its datagram, the latest of the fragments that start the
furthest on is a last one. -/
def LastOnTop (payloads : Flow → Payload) (r : Reassembler) (a : Arrival) : Prop :=
  Complete (payloads a.ipHeader.flow).1 (r.arrivedWith a) →
    ∃ t, latestTop (r.arrivedWith a) = some t ∧ t.1.moreFragments = false

instance (payloads : Flow → Payload) : DecidableRel (LastOnTop payloads) := fun _ _ =>
  inferInstanceAs (Decidable (_ → ∃ t, t ∈ latestTop _ ∧ _))

/-- What is kept of each datagram is what has arrived of it. -/
structure Inv (payloads : Flow → Payload) (r : Reassembler) : Prop where
  slices : ∀ d, ∀ x ∈ r.arrived d, x.1.flow = d ∧ Slice (payloads d).1 x.1 x.2
  absent : ∀ h : Ipv4Header, r.node.fragments.find (fragmentKey h) = none → r.arrived h.flow = []
  holds : ∀ h : Ipv4Header, ∀ f, r.node.fragments.find (fragmentKey h) = some f →
    f.Holds (r.arrived h.flow)

variable {payloads : Flow → Payload} {r r' : Reassembler} {a : Arrival}

theorem latestTop_arrivedWith (r : Reassembler) (a : Arrival) :
    ∃ t, latestTop (r.arrivedWith a) = some t := by
  cases h : latestTop (r.arrivedWith a) with
  | none =>
    have hnil := latestTop_eq_none h
    unfold arrivedWith at hnil
    simp at hnil
  | some t => exact ⟨t, rfl⟩

/-- The fragments found are those of what has arrived; nothing else is touched yet. -/
theorem Inv.findFragments (h : Inv payloads r) (a : Arrival) :
    (r.node.findFragments a.now a.ipHeader a.iif).1.Holds (r.arrived a.ipHeader.flow) ∧
      (r.node.findFragments a.now a.ipHeader a.iif).2.fragments = r.node.fragments := by
  unfold Ipv4L3Protocol.findFragments
  split
  · next f hfind => exact ⟨h.holds a.ipHeader f hfind, rfl⟩
  · next hfind =>
    rw [h.absent a.ipHeader hfind]
    exact ⟨Fragments.holds_new _, rfl⟩

/-- One datagram's fragments are replaced, and so is what has arrived of it. -/
theorem Inv.update (h : Inv payloads r) {k : Ipv4Header} {o : Option Fragments}
    {ds : List Delivery} {s : Ipv4L3Protocol}
    (hs : ∀ k', s.fragments.find k' =
      if k' = fragmentKey k then o else r.node.fragments.find k')
    (hds : ∀ x ∈ ds, x.1.flow = k.flow ∧ Slice (payloads k.flow).1 x.1 x.2)
    (hnone : o = none → ds = []) (hsome : ∀ f, o = some f → f.Holds ds) :
    Inv payloads ⟨s, Function.update r.arrived k.flow ds⟩ where
  slices d x hx := by
    dsimp only at hx
    by_cases hd : d = k.flow
    · subst hd
      rw [Function.update_self] at hx
      exact hds x hx
    · rw [Function.update_of_ne hd] at hx
      exact h.slices d x hx
  absent k' hk' := by
    dsimp only at hk' ⊢
    simp only [hs, fragmentKey_inj] at hk'
    by_cases hflow : k'.flow = k.flow
    · rw [if_pos hflow] at hk'
      rw [hflow, Function.update_self, hnone hk']
    · rw [if_neg hflow] at hk'
      rw [Function.update_of_ne hflow, h.absent k' hk']
  holds k' f hk' := by
    dsimp only at hk' ⊢
    simp only [hs, fragmentKey_inj] at hk'
    by_cases hflow : k'.flow = k.flow
    · rw [if_pos hflow] at hk'
      rw [hflow, Function.update_self]
      exact hsome f hk'
    · rw [if_neg hflow] at hk'
      rw [Function.update_of_ne hflow]
      exact h.holds k' f hk'

/-- What one call does: it reports the datagram exactly when it is complete and a last fragment is
on top, and then hands on its payload. -/
theorem Inv.process (h : Inv payloads r)
    (hf : Slice (payloads a.ipHeader.flow).1 a.ipHeader a.packet)
    {t : Delivery} (ht : latestTop (r.arrivedWith a) = some t) :
    ∃ out r', r.process a = some (out, r') ∧ Inv payloads r' ∧
      r'.arrived = Function.update r.arrived a.ipHeader.flow
        (if out.1 then [] else r.arrivedWith a) ∧
      (out.1 = true ↔ Complete (payloads a.ipHeader.flow).1 (r.arrivedWith a) ∧
        t.1.moreFragments = false) ∧
      (out.1 = true → out.2 = (payloads a.ipHeader.flow).1) := by
  have hpay : (payloads a.ipHeader.flow).1.length < 2 ^ 16 := by
    have := (payloads a.ipHeader.flow).2
    omega
  have hslice : ∀ x ∈ r.arrivedWith a, x.1.flow = a.ipHeader.flow ∧
      Slice (payloads a.ipHeader.flow).1 x.1 x.2 := by
    intro x hx
    unfold arrivedWith at hx
    rw [List.mem_append, List.mem_singleton] at hx
    rcases hx with hx | rfl
    · exact h.slices _ x hx
    · exact ⟨rfl, hf⟩
  have hslice' := fun x hx => (hslice x hx).2
  obtain ⟨hfound, hs⟩ := h.findFragments a
  have hadd : Fragments.Holds _ (r.arrivedWith a) := hfound.addFragment (a.ipHeader, a.packet)
  unfold Reassembler.process Ipv4L3Protocol.processFragment
  simp only [Ipv4Header.isLastFragment, Bool.not_not]
  generalize r.node.findFragments a.now a.ipHeader a.iif = found at hs hadd ⊢
  dsimp only at hadd
  generalize found.1.addFragment a.packet a.ipHeader.fragmentOffset a.ipHeader.moreFragments = f
    at hadd ⊢
  have hiff := hadd.isEntire_iff hpay hslice' ht
  by_cases hentire : f.isEntire = true
  · obtain ⟨hcomplete, hlast⟩ := hiff.mp hentire
    have hwhole := hadd.getPacket_eq hpay hslice' hentire hcomplete
    rw [if_pos hentire, hwhole]
    refine ⟨(true, _), _, rfl, ?_, rfl, ?_, fun _ => rfl⟩
    · refine h.update (o := none) ?_ (by simp) (fun _ => rfl) (fun _ hsome => by cases hsome)
      intro k'
      dsimp only
      rw [StdMap.find_erase, hs]
    · simpa using ⟨hcomplete, hlast⟩
  · rw [if_neg hentire]
    refine ⟨(false, _), _, rfl, ?_, rfl, ?_, fun hfalse => by cases hfalse⟩
    · refine h.update (o := some f) ?_ hslice (fun hnone => by cases hnone) ?_
      · intro k'
        dsimp only
        rw [StdMap.find_assign, hs]
      · intro f' hf'
        cases hf'
        exact hadd
    · rw [← hiff]
      simpa using hentire

theorem inv_of_reachable (h : (system payloads).Reachable r) : Inv payloads r := by
  refine h.invariant (P := Inv payloads) ?_ ?_
  · rintro r ⟨timeout, rfl⟩
    exact ⟨by simp, fun _ _ => rfl, fun _ _ h => by cases h⟩
  · rintro r a r' hr ⟨hf, out, hout⟩
    obtain ⟨t, ht⟩ := latestTop_arrivedWith r a
    obtain ⟨out', r'', hproc, hr', -⟩ := hr.process (hf.slice (payloads _).2).2 ht
    rw [hproc] at hout
    cases hout
    exact hr'

theorem arrivedWith_of_update {out : Bool × Packet} {d : Flow}
    (h : r'.arrived = Function.update r.arrived a.ipHeader.flow
      (if out.1 then [] else r.arrivedWith a)) :
    r'.arrived d = r.arrived d ∨ r'.arrived d = [] ∨
      out.1 = false ∧ d = a.ipHeader.flow ∧ r'.arrived d = r.arrivedWith a := by
  rw [h]
  by_cases hd : d = a.ipHeader.flow
  · subst hd
    rw [Function.update_self]
    split_ifs with hout
    · exact .inr (.inl rfl)
    · exact .inr (.inr ⟨by simpa using hout, rfl, rfl⟩)
  · exact .inl (Function.update_of_ne hd _ _)

/-- Where a last fragment was on top whenever a datagram was completed, none is complete and
still waiting. -/
theorem incomplete_of_reachable
    (h : ((system payloads).restrict (LastOnTop payloads)).Reachable r) (d : Flow) :
    ¬ Complete (payloads d).1 (r.arrived d) := by
  have hboth : Inv payloads r ∧ ∀ d, ¬ Complete (payloads d).1 (r.arrived d) := by
    refine h.invariant (P := fun r => Inv payloads r ∧
      ∀ d, ¬ Complete (payloads d).1 (r.arrived d)) ?_ ?_
    · rintro r ⟨timeout, rfl⟩
      refine ⟨inv_of_reachable ⟨_, [], ⟨timeout, rfl⟩, .nil _⟩, ?_⟩
      rintro d ⟨⟨x, hx, -⟩, -⟩
      cases hx
    · rintro r a r' ⟨hr, hincomplete⟩ ⟨htop, hf, out, hout⟩
      obtain ⟨t, ht⟩ := latestTop_arrivedWith r a
      obtain ⟨out', r'', hproc, hr', harrived, hiff, -⟩ := hr.process (hf.slice (payloads _).2).2 ht
      rw [hproc] at hout
      cases hout
      refine ⟨hr', ?_⟩
      intro d hcomplete
      rcases arrivedWith_of_update (d := d) harrived with hsame | hnil | ⟨hnot, rfl, hwith⟩
      · rw [hsame] at hcomplete
        exact hincomplete d hcomplete
      · rw [hnil] at hcomplete
        obtain ⟨⟨x, hx, -⟩, -⟩ := hcomplete
        cases hx
      · rw [hwith] at hcomplete
        obtain ⟨t', ht', hlast⟩ := htop hcomplete
        rw [ht] at ht'
        cases ht'
        rw [hiff.mpr ⟨hcomplete, hlast⟩] at hnot
        cases hnot
  exact hboth.2 d

/-- In every run in which a last fragment was on top whenever a datagram was completed, the next
call returns, and it reports the datagram at the first moment it is complete, with its payload,
exactly when that also holds of the next fragment. -/
theorem reports_first_of_reachable
    (h : ((system payloads).restrict (LastOnTop payloads)).Reachable r)
    (hf : FragmentOf (payloads a.ipHeader.flow).1 a.ipHeader.flow a.ipHeader a.packet) :
    ∃ out r', r.process a = some (out, r') ∧
      (((out.1 = true ↔ FirstComplete (payloads a.ipHeader.flow).1
          (r.arrived a.ipHeader.flow) (a.ipHeader, a.packet)) ∧
        (out.1 = true → out.2 = (payloads a.ipHeader.flow).1)) ↔ LastOnTop payloads r a) := by
  obtain ⟨t, ht⟩ := latestTop_arrivedWith r a
  obtain ⟨out, r', hproc, -, -, hiff, hpayload⟩ :=
    (inv_of_reachable h.of_restrict).process (hf.slice (payloads _).2).2 ht
  refine ⟨out, r', hproc, ?_⟩
  have hfirst : FirstComplete (payloads a.ipHeader.flow).1 (r.arrived a.ipHeader.flow)
      (a.ipHeader, a.packet) ↔ Complete (payloads a.ipHeader.flow).1 (r.arrivedWith a) :=
    and_iff_left (incomplete_of_reachable h a.ipHeader.flow)
  have htop : LastOnTop payloads r a ↔
      (Complete (payloads a.ipHeader.flow).1 (r.arrivedWith a) → t.1.moreFragments = false) := by
    unfold LastOnTop
    simp only [ht, Option.some.injEq, exists_eq_left']
  rw [hfirst, htop, and_iff_left hpayload, hiff]
  constructor
  · intro h hcomplete
    exact (h.mpr hcomplete).2
  · intro h
    exact ⟨And.left, fun hcomplete => ⟨hcomplete, h hcomplete⟩⟩

/-! ### Two copies of one datagram -/

def samplePayload : Payload := ⟨List.replicate 145 7, by simp [Ipv4Header.serializedSize]⟩

def sampleHeader (moreFragments : Bool) (fragmentOffset payloadSize : ℕ) : Ipv4Header where
  source := 0x0a000001
  destination := 0x0a000002
  identification := 1
  protocol := 17
  moreFragments := moreFragments
  fragmentOffset := fragmentOffset
  payloadSize := payloadSize

def sampleArrival (moreFragments : Bool) (fragmentOffset payloadSize : ℕ) : Arrival :=
  ⟨0, List.replicate payloadSize 7, sampleHeader moreFragments fragmentOffset payloadSize, 1⟩

/-- The fragments of the copy that went through an MTU of 108, and one of the copy that went
through an MTU of 68. -/
def sampleArrivals : List Arrival :=
  [sampleArrival true 0 88, sampleArrival false 88 57, sampleArrival true 96 48]

theorem sampleArrivals_fragments : ∀ a ∈ sampleArrivals,
    FragmentOf samplePayload.1 a.ipHeader.flow a.ipHeader a.packet := by
  have hwhole : FragmentOf samplePayload.1 (sampleHeader false 0 145).flow
      (sampleHeader false 0 145) samplePayload.1 := .whole rfl rfl rfl
  have h108 : ∃ fs ∈ doFragmentation 4 samplePayload.1 (sampleHeader false 0 145) 108,
      (List.replicate 88 7, sampleHeader true 0 88) ∈ fs ∧
        (List.replicate 57 7, sampleHeader false 88 57) ∈ fs := by
    decide +kernel
  have h68 : ∃ fs ∈ doFragmentation 4 samplePayload.1 (sampleHeader false 0 145) 68,
      (List.replicate 48 7, sampleHeader true 96 48) ∈ fs := by
    decide +kernel
  obtain ⟨fs, hfs, hfirst, hlast⟩ := h108
  obtain ⟨fs', hfs', hthird⟩ := h68
  intro a ha
  simp only [sampleArrivals, List.mem_cons, List.not_mem_nil, or_false] at ha
  rcases ha with rfl | rfl | rfl
  · exact hwhole.again (by decide) (by decide) hfs hfirst
  · exact hwhole.again (by decide) (by decide) hfs hlast
  · exact hwhole.again (by decide) (by decide) hfs' hthird

/-- One of the sample fragments arrives. -/
def sampleStep (r : Reassembler) (a : Arrival) : Option Reassembler :=
  if a ∈ sampleArrivals then (r.process a).map Prod.snd else none

theorem step_of_sampleStep (r : Reassembler) (a : Arrival) (r' : Reassembler)
    (h : sampleStep r a = some r') : (system fun _ => samplePayload).step r a r' := by
  unfold sampleStep at h
  split_ifs at h with ha
  obtain ⟨out, hout, rfl⟩ := Option.map_eq_some_iff.mp h
  exact ⟨sampleArrivals_fragments a ha, out.1, hout⟩

/-- The last fragment of one copy, a later one of the other that is not the last, and the first
fragment: the datagram is complete and is not reported. -/
theorem complete_unreported : ∃ (payloads : Flow → Payload) (r : Reassembler) (a : Arrival),
    (system payloads).Reachable r ∧
      FragmentOf (payloads a.ipHeader.flow).1 a.ipHeader.flow a.ipHeader a.packet ∧
      FirstComplete (payloads a.ipHeader.flow).1 (r.arrived a.ipHeader.flow)
        (a.ipHeader, a.packet) ∧
      (r.process a).map (fun x => x.1.1) = some false := by
  have hinit : (system fun _ => samplePayload).init ⟨Ipv4L3Protocol.new 30, fun _ => []⟩ :=
    ⟨30, rfl⟩
  have hrun : (System.exec sampleStep (fun _ _ => True) ⟨Ipv4L3Protocol.new 30, fun _ => []⟩
      [sampleArrival false 88 57, sampleArrival true 96 48]).map (fun r =>
        (decide (FirstComplete samplePayload.1 (r.arrived (sampleHeader true 0 88).flow)
          (sampleHeader true 0 88, List.replicate 88 7)),
        (r.process (sampleArrival true 0 88)).map fun x => x.1.1)) = some (true, some false) := by
    decide +kernel
  obtain ⟨r, hr, hview⟩ := System.reachable_of_exec step_of_sampleStep hinit hrun
  rw [Prod.mk.injEq, decide_eq_true_eq] at hview
  exact ⟨_, r, sampleArrival true 0 88, hr.of_restrict,
    sampleArrivals_fragments _ (by decide), hview.1, hview.2⟩

/-- Without the other copy's fragment the datagram is reported with its last fragment. -/
theorem reports_first_of_reachable_sample :
    ∃ r : Reassembler, ((system fun _ => samplePayload).restrict
        (LastOnTop fun _ => samplePayload)).Reachable r ∧
      LastOnTop (fun _ => samplePayload) r (sampleArrival false 88 57) ∧
      ∃ out r', r.process (sampleArrival false 88 57) = some (out, r') ∧
        (out.1 = true → out.2 = samplePayload.1) := by
  have hinit : (system fun _ => samplePayload).init ⟨Ipv4L3Protocol.new 30, fun _ => []⟩ :=
    ⟨30, rfl⟩
  have hrun : (System.exec sampleStep (LastOnTop fun _ => samplePayload)
      ⟨Ipv4L3Protocol.new 30, fun _ => []⟩ [sampleArrival true 0 88]).map (fun r =>
        decide (LastOnTop (fun _ => samplePayload) r (sampleArrival false 88 57))) =
      some true := by
    decide +kernel
  obtain ⟨r, hr, hview⟩ := System.reachable_of_exec step_of_sampleStep hinit hrun
  have htop := of_decide_eq_true hview
  obtain ⟨out, r', hproc, hiff⟩ := reports_first_of_reachable (a := sampleArrival false 88 57) hr
    (sampleArrivals_fragments _ (by decide))
  exact ⟨r, hr, htop, out, r', hproc, (hiff.mpr htop).2⟩

end Reassembler

end Ns3.Internet
