import Ns3.Internet.Reassembly

/-!
# The timeout of fragments

`GetPartialPacket`, `HandleFragmentsTimeout` and `HandleTimeout` of
`ipv4-l3-protocol.cc`. What is put together of a datagram that is given up is
its longest gap-free start. A fragment that ends before the bytes put together
so far is asked for a part that starts behind its end.
-/

namespace Ns3.Internet

open Ns3.Lib Ns3.Network

/-- A call of `CreateFragment` on a packet of `size` bytes. -/
structure FragmentRequest where
  size : ℕ
  start : ℕ
  length : ℕ
  deriving DecidableEq

def FragmentRequest.InRange (r : FragmentRequest) : Prop := r.start + r.length ≤ r.size

instance FragmentRequest.decidableInRange : DecidablePred FragmentRequest.InRange := fun r =>
  inferInstanceAs (Decidable (r.start + r.length ≤ r.size))

namespace Fragments

/-- The loop of `GetPartialPacket`, with the requests it makes. -/
def getPartialPacketLoop : Packet → ℕ → List (Packet × ℕ) → Packet × List FragmentRequest
  | p, _, [] => (p, [])
  | p, lastEndOffset, it :: rest =>
    if it.2 < lastEndOffset then
      let size := it.1.getSize.toNat
      let newStart := lastEndOffset - it.2
      let newSize := (size + 2 ^ 32 - newStart) % 2 ^ 32
      let p := p ++ it.1.createFragment (BitVec.ofNat 32 newStart) (BitVec.ofNat 32 newSize)
      let out := getPartialPacketLoop p (p.length % 2 ^ 16) rest
      (out.1, ⟨size, newStart, newSize⟩ :: out.2)
    else
      let p := if lastEndOffset = it.2 then p ++ it.1 else p
      getPartialPacketLoop p (p.length % 2 ^ 16) rest

/-- `GetPartialPacket`, which reads the first fragment. -/
def getPartialPacket (f : Fragments) : Option (Packet × List FragmentRequest) :=
  match f.fragments with
  | [] => none
  | it :: _ => some (if 0 < it.2 then ([], []) else getPartialPacketLoop [] 0 f.fragments)

end Fragments

/-- What is handed on of a datagram that is given up: the header and the interface of `entry`,
and the packet. -/
structure FragmentsDrop where
  entry : FragmentsTimeout
  packet : Packet
  requests : List FragmentRequest
  deriving DecidableEq

namespace Ipv4L3Protocol

/-- `HandleFragmentsTimeout`, which reads the fragments of the key. -/
def handleFragmentsTimeout (s : Ipv4L3Protocol) (t : FragmentsTimeout) :
    Option (FragmentsDrop × Ipv4L3Protocol) := do
  let f ← s.fragments.find t.key
  let out ← f.getPartialPacket
  return (⟨t, out.1, out.2⟩, { s with fragments := s.fragments.erase t.key })

/-- The loop of `HandleTimeout` over the list of timeouts. -/
def timeoutLoop (now : ℤ) :
    List FragmentsTimeout → Ipv4L3Protocol → Option (List FragmentsDrop × Ipv4L3Protocol)
  | [], s => some ([], { s with timeoutEventList := [] })
  | t :: rest, s =>
    if t.time = now then do
      let dropped ← s.handleFragmentsTimeout t
      let out ← timeoutLoop now rest dropped.2
      return (dropped.1 :: out.1, out.2)
    else some ([], { s with timeoutEventList := t :: rest })

def handleTimeout (s : Ipv4L3Protocol) (now : ℤ) : Option (List FragmentsDrop × Ipv4L3Protocol) := do
  let out ← timeoutLoop now s.timeoutEventList s
  match out.2.timeoutEventList with
  | [] => return out
  | t :: _ => return (out.1, { out.2 with scheduled := out.2.scheduled ++ [now + (t.time - now)] })

end Ipv4L3Protocol

open Fragments

/-! ## The gap-free start -/

/-- Where the fragments, in the order of their offsets, come to from `e` on without a gap. -/
def runEnd : ℕ → List (Packet × ℕ) → ℕ
  | e, [] => e
  | e, it :: rest => if it.2 ≤ e then runEnd (max e (it.2 + it.1.length)) rest else runEnd e rest

/-- No fragment that the run comes to ends before the run does. -/
def InOrder : ℕ → List (Packet × ℕ) → Prop
  | _, [] => True
  | e, it :: rest =>
    (it.2 ≤ e → e ≤ it.2 + it.1.length) ∧
      InOrder (if it.2 ≤ e then max e (it.2 + it.1.length) else e) rest

theorem le_runEnd (e : ℕ) (l : List (Packet × ℕ)) : e ≤ runEnd e l := by
  induction l generalizing e with
  | nil => exact Nat.le_refl e
  | cons it l ih =>
    unfold runEnd
    split_ifs
    · exact (Nat.le_max_left _ _).trans (ih _)
    · exact ih e

/-- Behind a gap nothing is added. -/
theorem runEnd_of_gap {e : ℕ} {l : List (Packet × ℕ)} (h : ∀ it ∈ l, e < it.2) :
    runEnd e l = e := by
  induction l with
  | nil => rfl
  | cons it l ih =>
    rw [List.forall_mem_cons] at h
    rw [runEnd, if_neg (Nat.not_le_of_lt h.1), ih h.2]

theorem inOrder_of_gap {e : ℕ} {l : List (Packet × ℕ)} (h : ∀ it ∈ l, e < it.2) :
    InOrder e l := by
  induction l with
  | nil => trivial
  | cons it l ih =>
    rw [List.forall_mem_cons] at h
    rw [InOrder, if_neg (Nat.not_le_of_lt h.1)]
    exact ⟨fun hle => absurd hle (Nat.not_le_of_lt h.1), ih h.2⟩

/-- What the run comes to is in a fragment. -/
theorem covered_of_lt_runEnd {e i : ℕ} {l : List (Packet × ℕ)} (he : e ≤ i)
    (hi : i < runEnd e l) : ∃ it ∈ l, it.2 ≤ i ∧ i < it.2 + it.1.length := by
  induction l generalizing e with
  | nil => exact absurd hi (Nat.not_lt_of_le he)
  | cons it l ih =>
    unfold runEnd at hi
    split_ifs at hi with hle
    · by_cases hin : i < it.2 + it.1.length
      · exact ⟨it, List.mem_cons_self, hle.trans he, hin⟩
      · obtain ⟨it', hit', hcov⟩ := ih (by omega) hi
        exact ⟨it', List.mem_cons_of_mem it hit', hcov⟩
    · obtain ⟨it', hit', hcov⟩ := ih he hi
      exact ⟨it', List.mem_cons_of_mem it hit', hcov⟩

/-- Where it ends is in none. -/
theorem runEnd_not_covered {e : ℕ} {l : List (Packet × ℕ)}
    (hs : l.Pairwise fun a b => a.2 ≤ b.2) :
    ∀ it ∈ l, ¬ (it.2 ≤ runEnd e l ∧ runEnd e l < it.2 + it.1.length) := by
  induction l generalizing e with
  | nil => exact fun it hit => absurd hit List.not_mem_nil
  | cons it l ih =>
    rw [List.pairwise_cons] at hs
    rw [List.forall_mem_cons]
    by_cases hle : it.2 ≤ e
    · rw [runEnd, if_pos hle]
      refine ⟨fun h => ?_, ih hs.2⟩
      have hend := le_runEnd (max e (it.2 + it.1.length)) l
      omega
    · have hgap : ∀ it' ∈ l, e < it'.2 := fun it' hit' =>
        (Nat.lt_of_not_le hle).trans_le (hs.1 it' hit')
      rw [runEnd, if_neg hle, runEnd_of_gap hgap]
      refine ⟨fun h => hle h.1, fun it' hit' h => ?_⟩
      have hlt := hgap it' hit'
      omega

/-- No earlier fragment of the run ends behind a later one. -/
theorem inOrder_iff {e : ℕ} {l : List (Packet × ℕ)} (hs : l.Pairwise fun a b => a.2 ≤ b.2) :
    InOrder e l ↔ (∀ it ∈ l, it.2 ≤ runEnd e l → e ≤ it.2 + it.1.length) ∧
      l.Pairwise fun a b => a.2 ≤ runEnd e l → a.2 + a.1.length ≤ b.2 + b.1.length := by
  induction l generalizing e with
  | nil => simp [InOrder]
  | cons it l ih =>
    rw [List.pairwise_cons] at hs
    by_cases hle : it.2 ≤ e
    · have hend := le_runEnd (max e (it.2 + it.1.length)) l
      rw [InOrder, if_pos hle, ih hs.2, runEnd, if_pos hle, List.forall_mem_cons,
        List.pairwise_cons]
      constructor
      · rintro ⟨hit, hall, hpair⟩
        refine ⟨⟨fun _ => hit hle, fun b hb hr => ?_⟩, fun b hb _ => ?_, hpair⟩
        · have hb' := hall b hb hr
          omega
        · by_cases hr : b.2 ≤ runEnd (max e (it.2 + it.1.length)) l
          · have hb' := hall b hb hr
            omega
          · omega
      · rintro ⟨⟨hit, hall⟩, hfirst, hpair⟩
        refine ⟨fun _ => hit (by omega), fun b hb hr => ?_, hpair⟩
        have hb' := hall b hb hr
        have hb'' := hfirst b hb (by omega)
        omega
    · have hgap : ∀ b ∈ it :: l, e < b.2 := by
        rw [List.forall_mem_cons]
        exact ⟨Nat.lt_of_not_le hle, fun b hb => (Nat.lt_of_not_le hle).trans_le (hs.1 b hb)⟩
      rw [runEnd_of_gap hgap]
      refine ⟨fun _ => ⟨fun b hb hr => ?_, ?_⟩, fun _ => inOrder_of_gap hgap⟩
      · exact absurd hr (Nat.not_le_of_lt (hgap b hb))
      · refine List.Pairwise.imp_of_mem (R := fun _ _ => True) (fun {a b} ha _ _ hr => ?_)
          (List.pairwise_of_forall fun _ _ => trivial)
        exact absurd hr (Nat.not_le_of_lt (hgap a ha))

/-! ## What is put together -/

section Partial

variable {payload : Packet}

/-- The fragment is a part of the payload. -/
def IsPart (payload : Packet) (it : Packet × ℕ) : Prop :=
  it.1 = (payload.drop it.2).take it.1.length ∧ it.2 + it.1.length ≤ payload.length

/-- What a fragment that overlaps the first `e` bytes adds to them. -/
theorem take_append_rest (hpay : payload.length < 2 ^ 16) {it : Packet × ℕ}
    (hit : IsPart payload it) {e : ℕ} (hover : it.2 < e) (he : e ≤ payload.length) :
    payload.take e ++ it.1.createFragment (BitVec.ofNat 32 (e - it.2))
      (BitVec.ofNat 32 ((it.1.getSize.toNat + 2 ^ 32 - (e - it.2)) % 2 ^ 32)) =
        payload.take (max e (it.2 + it.1.length)) := by
  obtain ⟨hbytes, hin⟩ := hit
  have hsize : it.1.getSize.toNat = it.1.length := Packet.getSize_toNat (by omega)
  rw [hsize]
  by_cases hend : e ≤ it.2 + it.1.length
  · have hnew : (it.1.length + 2 ^ 32 - (e - it.2)) % 2 ^ 32 = it.1.length - (e - it.2) := by
      omega
    rw [hnew, Packet.createFragment_eq (by omega) (by omega)]
    have hmax : max e (it.2 + it.1.length) = e + (it.1.length - (e - it.2)) := by omega
    rw [hmax, List.take_add, hbytes, List.drop_take, List.take_take, List.drop_drop]
    have hlen : ((payload.drop it.2).take it.1.length).length = it.1.length := by
      rw [← hbytes]
    have hfrom : it.2 + (e - it.2) = e := by omega
    rw [hlen, hfrom, Nat.min_self]
  · have hstart : (BitVec.ofNat 32 (e - it.2)).toNat = e - it.2 := by
      rw [BitVec.toNat_ofNat]
      omega
    rw [Packet.createFragment_of_length_le (by omega), List.append_nil]
    congr 1
    omega

theorem inRange_iff (hpay : payload.length < 2 ^ 16) {it : Packet × ℕ} (hit : IsPart payload it)
    {e : ℕ} (he : e ≤ payload.length) :
    FragmentRequest.InRange ⟨it.1.getSize.toNat, e - it.2,
      (it.1.getSize.toNat + 2 ^ 32 - (e - it.2)) % 2 ^ 32⟩ ↔ e ≤ it.2 + it.1.length := by
  have hin := hit.2
  have hsize : it.1.getSize.toNat = it.1.length := Packet.getSize_toNat (by omega)
  rw [hsize]
  show _ + _ ≤ _ ↔ _
  dsimp only
  omega

/-- The loop takes the payload as far as the fragments have no gap, and stays in range while
none of them ends before the bytes there are. -/
theorem getPartialPacketLoop_eq (hpay : payload.length < 2 ^ 16) {l : List (Packet × ℕ)} {e : ℕ}
    (he : e ≤ payload.length) (hl : ∀ it ∈ l, IsPart payload it) :
    (getPartialPacketLoop (payload.take e) e l).1 = payload.take (runEnd e l) ∧
      ((∀ r ∈ (getPartialPacketLoop (payload.take e) e l).2, r.InRange) ↔ InOrder e l) := by
  induction l generalizing e with
  | nil => exact ⟨rfl, fun _ => trivial, fun _ r hr => absurd hr List.not_mem_nil⟩
  | cons it l ih =>
    rw [List.forall_mem_cons] at hl
    have hlen (m : ℕ) (hm : m ≤ payload.length) : (payload.take m).length % 2 ^ 16 = m := by
      rw [List.length_take]
      omega
    have hin := hl.1.2
    rw [getPartialPacketLoop, runEnd, InOrder]
    rcases Nat.lt_trichotomy it.2 e with hover | heq | hgap
    · rw [if_pos hover, if_pos hover.le, if_pos hover.le]
      dsimp only
      rw [take_append_rest hpay hl.1 hover he, hlen _ (by omega), List.forall_mem_cons,
        inRange_iff hpay hl.1 he]
      obtain ⟨hpacket, hrequests⟩ := ih (e := max e (it.2 + it.1.length)) (by omega) hl.2
      rw [hrequests]
      exact ⟨hpacket, and_congr_left fun _ => ⟨fun h _ => h, fun h => h hover.le⟩⟩
    · have hmax : max e (it.2 + it.1.length) = e + it.1.length := by omega
      have happend : payload.take e ++ it.1 = payload.take (e + it.1.length) := by
        rw [List.take_add, ← heq, ← hl.1.1]
      rw [if_neg heq.ge.not_gt, if_pos heq.le, if_pos heq.le, hmax]
      dsimp only
      rw [if_pos heq.symm, happend, hlen _ (by omega)]
      obtain ⟨hpacket, hrequests⟩ := ih (e := e + it.1.length) (by omega) hl.2
      exact ⟨hpacket, hrequests.trans ⟨fun h => ⟨fun _ => by omega, h⟩, And.right⟩⟩
    · rw [if_neg hgap.not_gt, if_neg hgap.not_ge, if_neg hgap.not_ge]
      dsimp only
      rw [if_neg hgap.ne, hlen e he]
      obtain ⟨hpacket, hrequests⟩ := ih he hl.2
      exact ⟨hpacket, hrequests.trans ⟨fun h => ⟨fun hle => by omega, h⟩, And.right⟩⟩

end Partial

/-! ## The list in the order of arrival -/

/-- `AddFragment` on the list. -/
def insertFragment (l : List (Packet × ℕ)) (d : Delivery) : List (Packet × ℕ) :=
  l.takeWhile (fun it => it.2 ≤ d.1.fragmentOffset) ++
    (d.2, d.1.fragmentOffset) :: l.dropWhile (fun it => it.2 ≤ d.1.fragmentOffset)

/-- The list after the fragments have arrived. -/
def listed (ds : List Delivery) : List (Packet × ℕ) := ds.foldl insertFragment []

theorem listed_append (ds : List Delivery) (d : Delivery) :
    listed (ds ++ [d]) = insertFragment (listed ds) d := by
  rw [listed, List.foldl_append, List.foldl_cons, List.foldl_nil, listed]

theorem mem_insertFragment {l : List (Packet × ℕ)} {d : Delivery} {it : Packet × ℕ} :
    it ∈ insertFragment l d ↔ it ∈ l ∨ it = (d.2, d.1.fragmentOffset) := by
  have hsplit : it ∈ l ↔ it ∈ l.takeWhile (fun it => it.2 ≤ d.1.fragmentOffset) ∨
      it ∈ l.dropWhile (fun it => it.2 ≤ d.1.fragmentOffset) := by
    rw [← List.mem_append, List.takeWhile_append_dropWhile]
  rw [hsplit, insertFragment, List.mem_append, List.mem_cons]
  tauto

theorem mem_listed {ds : List Delivery} {it : Packet × ℕ} :
    it ∈ listed ds ↔ ∃ d ∈ ds, it = (d.2, d.1.fragmentOffset) := by
  induction ds using List.reverseRecOn with
  | nil => simp [listed]
  | append_singleton ds d ih =>
    rw [listed_append, mem_insertFragment, ih]
    simp [or_and_right, exists_or]

theorem sorted_listed (ds : List Delivery) : (listed ds).Pairwise fun a b => a.2 ≤ b.2 := by
  induction ds using List.reverseRecOn with
  | nil => exact .nil
  | append_singleton ds d ih =>
    rw [listed_append]
    exact pairwise_insert ih (d.2, d.1.fragmentOffset)

theorem lt_of_mem_dropWhile {l : List (Packet × ℕ)} (hs : l.Pairwise fun a b => a.2 ≤ b.2)
    {o : ℕ} {a : Packet × ℕ} (ha : a ∈ l.dropWhile fun it => it.2 ≤ o) : o < a.2 := by
  induction l with
  | nil => exact absurd ha List.not_mem_nil
  | cons it l ih =>
    rw [List.pairwise_cons] at hs
    by_cases hit : it.2 ≤ o
    · rw [List.dropWhile_cons_of_pos (by simpa using hit)] at ha
      exact ih hs.2 ha
    · rw [List.dropWhile_cons_of_neg (by simpa using hit)] at ha
      rcases List.mem_cons.mp ha with rfl | ha
      · exact Nat.lt_of_not_le hit
      · exact (Nat.lt_of_not_le hit).trans_le (hs.1 a ha)

/-- What the inserted fragment is to the others depends on whether it is before or behind them. -/
theorem pairwise_insertFragment {R : Packet × ℕ → Packet × ℕ → Prop} {l : List (Packet × ℕ)}
    (hs : l.Pairwise fun a b => a.2 ≤ b.2) (d : Delivery) :
    (insertFragment l d).Pairwise R ↔ l.Pairwise R ∧ ∀ a ∈ l,
      (a.2 ≤ d.1.fragmentOffset → R a (d.2, d.1.fragmentOffset)) ∧
        (d.1.fragmentOffset < a.2 → R (d.2, d.1.fragmentOffset) a) := by
  have hpassed : ∀ a ∈ l.takeWhile (fun it => it.2 ≤ d.1.fragmentOffset),
      a.2 ≤ d.1.fragmentOffset := by
    intro a ha
    simpa using List.mem_takeWhile_imp ha
  have hrest : ∀ a ∈ l.dropWhile (fun it => it.2 ≤ d.1.fragmentOffset),
      d.1.fragmentOffset < a.2 := fun a ha => lt_of_mem_dropWhile hs ha
  have hsplit := List.takeWhile_append_dropWhile (p := fun it : Packet × ℕ =>
    decide (it.2 ≤ d.1.fragmentOffset)) (l := l)
  unfold insertFragment
  generalize l.takeWhile (fun it => it.2 ≤ d.1.fragmentOffset) = passed at *
  generalize l.dropWhile (fun it => it.2 ≤ d.1.fragmentOffset) = rest at *
  subst hsplit
  rw [List.pairwise_append, List.pairwise_cons, List.pairwise_append]
  constructor
  · rintro ⟨hp, ⟨hd, hr⟩, hcross⟩
    refine ⟨⟨hp, hr, fun a ha b hb => hcross a ha b (List.mem_cons_of_mem _ hb)⟩,
      fun a ha => ?_⟩
    rcases List.mem_append.mp ha with ha | ha
    · exact ⟨fun _ => hcross a ha _ List.mem_cons_self,
        fun hlt => absurd (hpassed a ha) (Nat.not_le_of_lt hlt)⟩
    · exact ⟨fun hle => absurd (hrest a ha) (Nat.not_lt_of_le hle), fun _ => hd a ha⟩
  · rintro ⟨⟨hp, hr, hcross⟩, hall⟩
    refine ⟨hp, ⟨fun b hb => ?_, hr⟩, fun a ha b hb => ?_⟩
    · exact (hall b (List.mem_append_right _ hb)).2 (hrest b hb)
    · rcases List.mem_cons.mp hb with rfl | hb
      · exact (hall a (List.mem_append_left _ ha)).1 (hpassed a ha)
      · exact hcross a ha b hb

/-- The pairs of the list are those of the arrivals, the one with the smaller offset first. -/
theorem pairwise_listed {R : Packet × ℕ → Packet × ℕ → Prop} (ds : List Delivery) :
    (listed ds).Pairwise R ↔ ds.Pairwise fun x y =>
      (x.1.fragmentOffset ≤ y.1.fragmentOffset →
        R (x.2, x.1.fragmentOffset) (y.2, y.1.fragmentOffset)) ∧
      (y.1.fragmentOffset < x.1.fragmentOffset →
        R (y.2, y.1.fragmentOffset) (x.2, x.1.fragmentOffset)) := by
  induction ds using List.reverseRecOn with
  | nil => simp [listed]
  | append_singleton ds d ih =>
    rw [listed_append, pairwise_insertFragment (sorted_listed ds), ih, List.pairwise_append]
    simp only [mem_listed, List.pairwise_singleton, List.mem_singleton, true_and]
    refine and_congr_right fun _ => ⟨fun h x hx y hy => ?_, fun h a ha => ?_⟩
    · rw [hy]
      exact h _ ⟨x, hx, rfl⟩
    · obtain ⟨x, hx, rfl⟩ := ha
      exact h x hx d rfl

/-! ## The longest start -/

/-- Every byte before `k` is in a fragment. -/
def ReachedBy (ds : List Delivery) (k : ℕ) : Prop :=
  ∀ i < k, ∃ d ∈ ds, d.1.fragmentOffset ≤ i ∧ i < d.1.fragmentOffset + d.2.length

instance ReachedBy.decidable (ds : List Delivery) (k : ℕ) : Decidable (ReachedBy ds k) :=
  inferInstanceAs (Decidable (∀ i < k, ∃ d ∈ ds, _))

/-- The packet is the start of the payload up to the first byte that is in no fragment. -/
def LongestStart (payload : Packet) (ds : List Delivery) (p : Packet) : Prop :=
  ∃ n, p = payload.take n ∧ ReachedBy ds n ∧ ¬ ReachedBy ds (n + 1)

def endOf (d : Delivery) : ℕ := d.1.fragmentOffset + d.2.length

/-- Of two fragments of the gap-free start, the one that starts behind the other, or at the same
byte and later, does not end before it. -/
def NoneInside (ds : List Delivery) : Prop :=
  ds.Pairwise fun x y =>
    (x.1.fragmentOffset ≤ y.1.fragmentOffset → ReachedBy ds x.1.fragmentOffset →
      endOf x ≤ endOf y) ∧
    (y.1.fragmentOffset < x.1.fragmentOffset → ReachedBy ds y.1.fragmentOffset →
      endOf y ≤ endOf x)

instance NoneInside.decidable (ds : List Delivery) : Decidable (NoneInside ds) :=
  inferInstanceAs (Decidable (List.Pairwise _ ds))

theorem reachedBy_iff (ds : List Delivery) (k : ℕ) :
    ReachedBy ds k ↔ k ≤ runEnd 0 (listed ds) := by
  constructor
  · intro h
    by_contra hlt
    obtain ⟨d, hd, hcov⟩ := h _ (Nat.lt_of_not_le hlt)
    exact runEnd_not_covered (sorted_listed ds) _ (mem_listed.mpr ⟨d, hd, rfl⟩) hcov
  · intro h i hi
    obtain ⟨it, hit, hcov⟩ := covered_of_lt_runEnd (Nat.zero_le i) (hi.trans_le h)
    obtain ⟨d, hd, rfl⟩ := mem_listed.mp hit
    exact ⟨d, hd, hcov⟩

theorem noneInside_iff (ds : List Delivery) : NoneInside ds ↔ InOrder 0 (listed ds) := by
  rw [inOrder_iff (sorted_listed ds), pairwise_listed]
  simp only [Nat.zero_le, implies_true, true_and]
  unfold NoneInside
  simp only [reachedBy_iff]
  rfl

/-- What is put together of the fragments that have arrived. -/
theorem getPartialPacket_eq {payload : Packet} (hpay : payload.length < 2 ^ 16) {f : Fragments}
    {ds : List Delivery} (hf : f.fragments = listed ds) (hne : ds ≠ [])
    (hds : ∀ d ∈ ds, Slice payload d.1 d.2) : ∃ out, f.getPartialPacket = some out ∧
      LongestStart payload ds out.1 ∧ ((∀ r ∈ out.2, r.InRange) ↔ NoneInside ds) := by
  have hparts : ∀ it ∈ listed ds, IsPart payload it := by
    intro it hit
    obtain ⟨d, hd, rfl⟩ := mem_listed.mp hit
    exact ⟨(hds d hd).bytes, (hds d hd).inside⟩
  have hloop := getPartialPacketLoop_eq hpay (Nat.zero_le _) hparts
  rw [List.take_zero, ← noneInside_iff] at hloop
  have hstart : LongestStart payload ds (payload.take (runEnd 0 (listed ds))) :=
    ⟨_, rfl, (reachedBy_iff ds _).mpr (Nat.le_refl _), fun h =>
      absurd ((reachedBy_iff ds _).mp h) (Nat.not_succ_le_self _)⟩
  unfold getPartialPacket
  rw [hf]
  have hsorted := sorted_listed ds
  cases hlist : listed ds with
  | nil =>
    obtain ⟨d, hd⟩ := List.exists_mem_of_ne_nil ds hne
    have hmem := mem_listed.mpr ⟨d, hd, rfl⟩
    rw [hlist] at hmem
    exact absurd hmem List.not_mem_nil
  | cons it rest =>
    rw [hlist] at hloop hstart hsorted
    by_cases hfirst : 0 < it.2
    · have hgap : ∀ it' ∈ it :: rest, 0 < it'.2 := by
        rw [List.forall_mem_cons]
        exact ⟨hfirst, fun b hb => hfirst.trans_le ((List.pairwise_cons.mp hsorted).1 b hb)⟩
      rw [runEnd_of_gap hgap, List.take_zero] at hstart
      refine ⟨([], []), by simp only [if_pos hfirst], hstart, ?_⟩
      rw [noneInside_iff, hlist]
      exact ⟨fun _ => inOrder_of_gap hgap, fun _ r hr => absurd hr List.not_mem_nil⟩
    · refine ⟨_, by simp only [if_neg hfirst], ?_, hloop.2⟩
      rw [hloop.1]
      exact hstart

end Ns3.Internet
