import Ns3.Olsr.State
import Ns3.Lib.Run

/-!
# Whether the topology set follows the newest TC message

One originator sends TC messages whose ANSN goes up by one, modulo `2 ^ 16`,
and they arrive in any order, with loss and duplicates, among those of other
originators. The stores compare ANSNs as numbers, and remember the ANSN only in
the tuples. The tuples are those of the newest message as long as the numbers
compare as the messages do, and no older message comes after one that
advertises nothing.
-/

namespace Ns3.Olsr

open Ns3.Lib TopologySet

/-! ## The stores -/

/-- A tuple without its time. -/
def TopologyTuple.key (t : TopologyTuple) : Ipv4Address × Ipv4Address × UInt16 :=
  (t.destAddr, t.lastAddr, t.sequenceNumber)

variable {ts : TopologySet} {msg : TcMessage} {now : Time}

theorem keys_setExpirationTime {destAddr lastAddr : Ipv4Address} {time : Time} :
    (setExpirationTime destAddr lastAddr time ts).map TopologyTuple.key =
      ts.map TopologyTuple.key := by
  induction ts with
  | nil => rfl
  | cons t ts ih =>
    unfold setExpirationTime
    split
    · rfl
    · rw [List.map_cons, List.map_cons, ih]

theorem findTopologyTuple_eq_none {destAddr lastAddr : Ipv4Address} :
    ts.findTopologyTuple destAddr lastAddr = none ↔
      ∀ seq, (destAddr, lastAddr, seq) ∉ ts.map TopologyTuple.key := by
  unfold findTopologyTuple
  rw [List.find?_eq_none]
  constructor
  · intro h seq hmem
    obtain ⟨t, ht, heq⟩ := List.mem_map.mp hmem
    simp only [TopologyTuple.key, Prod.mk.injEq] at heq
    exact h t ht (decide_eq_true ⟨heq.1, heq.2.1⟩)
  · intro h t ht hfound
    obtain ⟨rfl, rfl⟩ := of_decide_eq_true hfound
    exact h _ (List.mem_map_of_mem ht)

theorem keys_advertise (addr : Ipv4Address) :
    (advertise msg now ts addr).map TopologyTuple.key =
      if ts.findTopologyTuple addr msg.originatorAddress = none then
        ts.map TopologyTuple.key ++ [(addr, msg.originatorAddress, msg.ansn)]
      else ts.map TopologyTuple.key := by
  unfold advertise insertTopologyTuple
  cases ts.findTopologyTuple addr msg.originatorAddress with
  | none =>
    dsimp only
    rw [if_pos rfl, List.map_append]
    rfl
  | some t =>
    dsimp only
    rw [if_neg (Option.some_ne_none t), keys_setExpirationTime]

/-- Advertised neighbours get a tuple with the ANSN of the message, unless they have one. -/
theorem mem_foldl_advertise {addrs : List Ipv4Address} {k : Ipv4Address × Ipv4Address × UInt16} :
    k ∈ (addrs.foldl (advertise msg now) ts).map TopologyTuple.key ↔
      k ∈ ts.map TopologyTuple.key ∨ ∃ a ∈ addrs, k = (a, msg.originatorAddress, msg.ansn) ∧
        ∀ seq, (a, msg.originatorAddress, seq) ∉ ts.map TopologyTuple.key := by
  induction addrs generalizing ts with
  | nil => simp
  | cons a addrs ih =>
    rw [List.foldl_cons, ih, keys_advertise]
    by_cases hfind : ts.findTopologyTuple a msg.originatorAddress = none
    · have habsent := findTopologyTuple_eq_none.mp hfind
      rw [if_pos hfind]
      constructor
      · rintro (hk | ⟨b, hb, rfl, hnone⟩)
        · rcases List.mem_append.mp hk with hk | hk
          · exact .inl hk
          · exact .inr ⟨a, List.mem_cons_self, List.mem_singleton.mp hk, habsent⟩
        · exact .inr ⟨b, List.mem_cons_of_mem _ hb, rfl, fun seq hseq =>
            hnone seq (List.mem_append_left _ hseq)⟩
      · rintro (hk | ⟨b, hb, rfl, hnone⟩)
        · exact .inl (List.mem_append_left _ hk)
        · by_cases hba : b = a
          · subst hba
            exact .inl (List.mem_append_right _ (List.mem_singleton.mpr rfl))
          · refine .inr ⟨b, (List.mem_cons.mp hb).resolve_left hba, rfl, fun seq hseq => ?_⟩
            rcases List.mem_append.mp hseq with hseq | hseq
            · exact hnone seq hseq
            · simp only [List.mem_singleton, Prod.mk.injEq] at hseq
              exact hba hseq.1
    · rw [if_neg hfind]
      constructor
      · rintro (hk | ⟨b, hb, rfl, hnone⟩)
        · exact .inl hk
        · exact .inr ⟨b, List.mem_cons_of_mem _ hb, rfl, hnone⟩
      · rintro (hk | ⟨b, hb, rfl, hnone⟩)
        · exact .inl hk
        · rcases List.mem_cons.mp hb with rfl | hb
          · exact absurd (findTopologyTuple_eq_none.mpr hnone) hfind
          · exact .inr ⟨b, hb, rfl, hnone⟩

/-- No neighbour of an originator has two tuples. -/
def TopologySet.Single (ts : TopologySet) : Prop :=
  (ts.map fun t => (t.destAddr, t.lastAddr)).Nodup

theorem single_iff {ts : TopologySet} : ts.Single ↔
    (ts.map TopologyTuple.key).Pairwise fun k k' => (k.1, k.2.1) ≠ (k'.1, k'.2.1) := by
  unfold TopologySet.Single List.Nodup
  rw [List.pairwise_map, List.pairwise_map]
  rfl

theorem single_advertise (h : ts.Single) (addr : Ipv4Address) :
    (advertise msg now ts addr).Single := by
  rw [single_iff] at h ⊢
  rw [keys_advertise]
  split
  · rename_i habsent
    refine List.pairwise_append.mpr ⟨h, List.pairwise_singleton _ _, fun k hk k' hk' => ?_⟩
    obtain rfl := List.mem_singleton.mp hk'
    intro heq
    obtain ⟨dest, last, seq⟩ := k
    simp only [Prod.mk.injEq] at heq
    obtain ⟨rfl, rfl⟩ := heq
    exact findTopologyTuple_eq_none.mp habsent seq hk
  · exact h

/-! ## One TC message -/

theorem keys_eraseOlder {lastAddr : Ipv4Address} {ansn : UInt16} :
    (eraseOlderTopologyTuples ts lastAddr ansn).map TopologyTuple.key =
      (ts.map TopologyTuple.key).filter fun k => ¬ (k.2.1 = lastAddr ∧ k.2.2 < ansn) := by
  unfold eraseOlderTopologyTuples
  rw [List.filter_map]
  rfl

theorem findNewer_eq_none {lastAddr : Ipv4Address} {ansn : UInt16} :
    ts.findNewerTopologyTuple lastAddr ansn = none ↔
      ∀ dest seq, (dest, lastAddr, seq) ∈ ts.map TopologyTuple.key → ¬ ansn < seq := by
  unfold findNewerTopologyTuple
  rw [List.find?_eq_none]
  constructor
  · intro h dest seq hmem hlt
    obtain ⟨t, ht, heq⟩ := List.mem_map.mp hmem
    simp only [TopologyTuple.key, Prod.mk.injEq] at heq
    obtain ⟨-, rfl, rfl⟩ := heq
    exact h t ht (decide_eq_true ⟨rfl, hlt⟩)
  · intro h t ht hfound
    obtain ⟨rfl, hlt⟩ := of_decide_eq_true hfound
    exact h _ _ (List.mem_map_of_mem ht) hlt

theorem single_eraseOlder (h : ts.Single) {lastAddr : Ipv4Address} {ansn : UInt16} :
    (eraseOlderTopologyTuples ts lastAddr ansn).Single := by
  unfold TopologySet.Single eraseOlderTopologyTuples at *
  exact h.sublist (List.filter_sublist.map _)

theorem single_processTc (h : ts.Single) (links : LinkSet) (msg : TcMessage)
    (senderIface : Ipv4Address) (now : Time) :
    (processTc links ts msg senderIface now).Single := by
  unfold processTc
  split
  · exact h
  split
  · exact h
  · exact List.foldlRecOn _ _ (single_eraseOlder h) fun s hs a _ => single_advertise hs a

/-- The tuples of an originator are those of its message `newest`, or there are none. -/
structure Follows (o : Ipv4Address) (newest : Option TcMessage) (ts : TopologySet) : Prop where
  stored : ∀ dest seq, (dest, o, seq) ∈ ts.map TopologyTuple.key ↔
    ∃ msg, newest = some msg ∧ dest ∈ msg.neighborAddresses ∧ seq = msg.ansn
  single : ts.Single

/-- A message that is not older than any tuple, and is as new as the tuples that are left. -/
theorem Follows.replace {o : Ipv4Address} {newest : Option TcMessage} (h : Follows o newest ts)
    {links : LinkSet} {senderIface : Ipv4Address} (horiginator : msg.originatorAddress = o)
    (hlink : findSymLinkTuple links senderIface now ≠ none)
    (hold : ∀ msg', newest = some msg' → msg'.neighborAddresses = [] ∨ msg'.ansn < msg.ansn ∨
      (msg'.ansn = msg.ansn ∧ msg'.neighborAddresses = msg.neighborAddresses)) :
    Follows o (some msg) (processTc links ts msg senderIface now) := by
  subst horiginator
  refine ⟨fun dest seq => ?_, single_processTc h.single links msg senderIface now⟩
  have hnewer : ts.findNewerTopologyTuple msg.originatorAddress msg.ansn = none := by
    refine findNewer_eq_none.mpr fun d q hmem hlt => ?_
    obtain ⟨msg', hmsg', hd, rfl⟩ := (h.stored d q).mp hmem
    rcases hold msg' hmsg' with hnil | hless | ⟨heq, -⟩
    · rw [hnil] at hd
      cases hd
    · exact absurd hlt (UInt16.lt_asymm hless)
    · rw [heq] at hlt
      exact absurd hlt (UInt16.lt_irrefl _)
  -- what is left when the older tuples are gone
  have hleft : ∀ d q, (d, msg.originatorAddress, q) ∈
      (eraseOlderTopologyTuples ts msg.originatorAddress msg.ansn).map TopologyTuple.key →
        d ∈ msg.neighborAddresses ∧ q = msg.ansn := by
    intro d q hmem
    rw [keys_eraseOlder, List.mem_filter] at hmem
    obtain ⟨hmem, hkept⟩ := hmem
    obtain ⟨msg', hmsg', hd, rfl⟩ := (h.stored d q).mp hmem
    rcases hold msg' hmsg' with hnil | hless | ⟨heq, hsame⟩
    · rw [hnil] at hd
      cases hd
    · simp [hless] at hkept
    · rw [hsame] at hd
      exact ⟨hd, heq⟩
  unfold processTc
  cases hfind : findSymLinkTuple links senderIface now with
  | none => exact absurd hfind hlink
  | some link =>
    dsimp only
    rw [hnewer]
    dsimp only
    rw [mem_foldl_advertise]
    constructor
    · rintro (hmem | ⟨a, ha, heq, -⟩)
      · exact ⟨msg, rfl, hleft dest seq hmem⟩
      · simp only [Prod.mk.injEq, true_and] at heq
        obtain ⟨rfl, rfl⟩ := heq
        exact ⟨msg, rfl, ha, rfl⟩
    · rintro ⟨msg', hmsg', hdest, rfl⟩
      cases hmsg'
      by_cases hpresent : ∃ q, (dest, msg.originatorAddress, q) ∈
          (eraseOlderTopologyTuples ts msg.originatorAddress msg.ansn).map TopologyTuple.key
      · obtain ⟨q, hq⟩ := hpresent
        obtain ⟨-, rfl⟩ := hleft dest q hq
        exact .inl hq
      · exact .inr ⟨dest, hdest, rfl, fun q hq => hpresent ⟨q, hq⟩⟩

/-- A message older than the tuples changes nothing. -/
theorem processTc_of_newer {links : LinkSet} {senderIface : Ipv4Address} {dest : Ipv4Address}
    {seq : UInt16} (hmem : (dest, msg.originatorAddress, seq) ∈ ts.map TopologyTuple.key)
    (hlt : msg.ansn < seq) : processTc links ts msg senderIface now = ts := by
  unfold processTc
  split
  · rfl
  split
  · rfl
  · rename_i hnone
    exact absurd hlt (findNewer_eq_none.mp hnone dest seq hmem)

/-- Tuples of other originators stay. -/
theorem mem_processTc_other {o : Ipv4Address} (ho : msg.originatorAddress ≠ o) {links : LinkSet}
    {senderIface dest : Ipv4Address} {seq : UInt16} :
    (dest, o, seq) ∈ (processTc links ts msg senderIface now).map TopologyTuple.key ↔
      (dest, o, seq) ∈ ts.map TopologyTuple.key := by
  unfold processTc
  split
  · rfl
  split
  · rfl
  · rw [mem_foldl_advertise, keys_eraseOlder, List.mem_filter]
    constructor
    · rintro (⟨hmem, -⟩ | ⟨a, -, heq, -⟩)
      · exact hmem
      · simp only [Prod.mk.injEq] at heq
        exact absurd heq.2.1.symm ho
    · intro hmem
      exact .inl ⟨hmem, by simp [Ne.symm ho]⟩

theorem Follows.other {o : Ipv4Address} {newest : Option TcMessage} (h : Follows o newest ts)
    (ho : msg.originatorAddress ≠ o) {links : LinkSet} {senderIface : Ipv4Address} :
    Follows o newest (processTc links ts msg senderIface now) :=
  ⟨fun dest seq => (mem_processTc_other ho).trans (h.stored dest seq),
    single_processTc h.single links msg senderIface now⟩

/-- A timer takes a tuple out only when that has expired. -/
theorem Follows.timer {o : Ipv4Address} {newest : Option TcMessage} (h : Follows o newest ts)
    {destAddr lastAddr : Ipv4Address}
    (hlive : ∀ t ∈ ts, t.lastAddr = o → now ≤ t.expirationTime) :
    Follows o newest (topologyTupleTimerExpire ts destAddr lastAddr now) := by
  unfold topologyTupleTimerExpire
  split
  · exact h
  split
  · rename_i tuple hfind hexpired
    have hmem : tuple ∈ ts := List.mem_of_find?_eq_some hfind
    have hother : tuple.lastAddr ≠ o := fun heq =>
      absurd (hlive tuple hmem heq) (not_le.mpr hexpired)
    refine ⟨fun dest seq => ?_, ?_⟩
    · rw [← h.stored dest seq, List.mem_map, List.mem_map]
      refine exists_congr fun t => and_congr_left fun hkey => ?_
      have hlast : t.lastAddr = o := congrArg (fun k => k.2.1) hkey
      exact List.mem_eraseP_of_neg fun hp => hother ((of_decide_eq_true hp).2.1 ▸ hlast)
    · exact h.single.sublist (List.eraseP_sublist.map _)
  · exact h

/-! ## Runs -/

/-- What an originator sends: its address, its first ANSN, and what its messages advertise. -/
structure Originator where
  address : Ipv4Address
  first : UInt16
  neighborAddresses : ℕ → List Ipv4Address
  vTime : ℕ → Time

/-- The message with this index; `IncrementAnsn` comes before each but the first. -/
def Originator.message (o : Originator) (k : ℕ) : TcMessage where
  originatorAddress := o.address
  vTime := o.vTime k
  ansn := o.first + UInt16.ofNat k
  neighborAddresses := o.neighborAddresses k

/-- A node's links and topology set, and the newest message of the originator processed so far. -/
structure Listener where
  links : LinkSet
  topologySet : TopologySet
  now : Time
  newest : Option ℕ

namespace Listener

inductive Event
  /-- The message of this index. -/
  | tc (k : ℕ) (senderIface : Ipv4Address)
  /-- A message of another originator. -/
  | other (msg : TcMessage) (senderIface : Ipv4Address)
  | timer (destAddr lastAddr : Ipv4Address)
  | hello (links : LinkSet)
  | tick (now : Time)

/-- `k` is displaced by less than half of all ANSNs. -/
def Near (newest : Option ℕ) (k : ℕ) : Prop :=
  ∀ m, newest = some m → k < m + 2 ^ 15 ∧ m < k + 2 ^ 15

instance (newest : Option ℕ) (k : ℕ) : Decidable (Near newest k) :=
  match newest with
  | none => isTrue fun m h => by cases h
  | some m => decidable_of_iff (k < m + 2 ^ 15 ∧ m < k + 2 ^ 15)
      ⟨fun h m' hm => by cases hm; exact h, fun h => h m rfl⟩

/-- Messages arrive near the newest one, and timers fire before the originator's tuples expire. -/
def step (o : Originator) (w : Listener) : Event → Option Listener
  | .tc k senderIface =>
    if Near w.newest k then
      some { w with
        topologySet := processTc w.links w.topologySet (o.message k) senderIface w.now
        newest := if findSymLinkTuple w.links senderIface w.now = none then w.newest
          else some (max k (w.newest.getD k)) }
    else none
  | .other msg senderIface =>
    if msg.originatorAddress ≠ o.address then
      some { w with topologySet := processTc w.links w.topologySet msg senderIface w.now }
    else none
  | .timer destAddr lastAddr =>
    if ∀ t ∈ w.topologySet, t.lastAddr = o.address → w.now ≤ t.expirationTime then
      some { w with
        topologySet := topologyTupleTimerExpire w.topologySet destAddr lastAddr w.now }
    else none
  | .hello links => some { w with links := links }
  | .tick now => if w.now ≤ now then some { w with now := now } else none

def system (o : Originator) : System Listener Event where
  init w := w.topologySet = [] ∧ w.newest = none
  step w e w' := w.step o e = some w'

/-- The newest message before this one advertised something, and its ANSN compares with that of
this one as they were sent; or it advertised nothing, and this one is not older or advertises
nothing. -/
def InOrder (o : Originator) (w : Listener) : Event → Prop
  | .tc k senderIface => findSymLinkTuple w.links senderIface w.now ≠ none →
    ∀ m, w.newest = some m →
      if o.neighborAddresses m = [] then m ≤ k ∨ o.neighborAddresses k = []
      else (o.message m).ansn < (o.message k).ansn ↔ m < k
  | _ => True

theorem toNat_ansn (o : Originator) (k : ℕ) :
    (o.message k).ansn.toNat = (o.first.toNat + k) % 2 ^ 16 := by
  show (o.first + UInt16.ofNat k).toNat = _
  rw [UInt16.toNat_add, UInt16.toNat_ofNat']
  omega

/-- Near messages have different ANSNs. -/
theorem ansn_lt_of_not_lt {o : Originator} {k m : ℕ} (hnear : m < k + 2 ^ 15) (hlt : k < m)
    (hnot : ¬ (o.message m).ansn < (o.message k).ansn) :
    (o.message k).ansn < (o.message m).ansn := by
  rw [UInt16.lt_iff_toNat_lt, toNat_ansn, toNat_ansn] at *
  omega

theorem tc_follows {o : Originator} {w : Listener} {k : ℕ} {senderIface : Ipv4Address}
    (hnear : Near w.newest k) (horder : w.InOrder o (.tc k senderIface))
    (hlink : findSymLinkTuple w.links senderIface w.now ≠ none)
    (h : Follows o.address (w.newest.map o.message) w.topologySet) :
    Follows o.address (some (o.message (max k (w.newest.getD k))))
      (processTc w.links w.topologySet (o.message k) senderIface w.now) := by
  have horder := horder hlink
  cases hnewest : w.newest with
  | none =>
    rw [hnewest] at h
    rw [Option.getD_none, max_self]
    exact h.replace rfl hlink fun msg hmsg => by cases hmsg
  | some m =>
    rw [hnewest] at h
    obtain ⟨hfar, hfar'⟩ := hnear m hnewest
    have horder := horder m hnewest
    rw [Option.getD_some]
    split at horder
    · rename_i hempty
      have hreplace : Follows o.address (some (o.message k))
          (processTc w.links w.topologySet (o.message k) senderIface w.now) :=
        h.replace rfl hlink fun msg hmsg => by
          cases hmsg
          exact .inl hempty
      rcases Nat.lt_or_ge k m with hlt | hle
      swap
      · rw [max_eq_left hle]
        exact hreplace
      · -- an old message that advertises nothing, after one that advertises nothing
        have hnone := horder.resolve_left (by omega)
        rw [max_eq_right hlt.le]
        refine ⟨fun dest seq => (hreplace.stored dest seq).trans ?_, hreplace.single⟩
        simp [Originator.message, hempty, hnone]
    · rename_i hsome
      rcases Nat.lt_trichotomy m k with hlt | rfl | hgt
      · rw [max_eq_left hlt.le]
        exact h.replace rfl hlink fun msg hmsg => by
          cases hmsg
          exact .inr (.inl (horder.mpr hlt))
      · rw [max_self]
        exact h.replace rfl hlink fun msg hmsg => by
          cases hmsg
          exact .inr (.inr ⟨rfl, rfl⟩)
      · obtain ⟨a, ha⟩ := List.exists_mem_of_ne_nil _ hsome
        have hmem := (h.stored a (o.message m).ansn).mpr ⟨o.message m, rfl, ha, rfl⟩
        have hless := ansn_lt_of_not_lt hfar' hgt fun hc => by
          have := horder.mp hc
          omega
        rw [max_eq_right hgt.le, processTc_of_newer hmem hless]
        exact h

theorem step_follows {o : Originator} {w w' : Listener} {e : Event} (horder : w.InOrder o e)
    (h : Follows o.address (w.newest.map o.message) w.topologySet) (hstep : w.step o e = some w') :
    Follows o.address (w'.newest.map o.message) w'.topologySet := by
  cases e with
  | tc k senderIface =>
    rw [step] at hstep
    split at hstep
    · rename_i hnear
      cases hstep
      by_cases hlink : findSymLinkTuple w.links senderIface w.now = none
      · have hsame : processTc w.links w.topologySet (o.message k) senderIface w.now =
            w.topologySet := by
          unfold processTc
          rw [hlink]
        rw [if_pos hlink, hsame]
        exact h
      · rw [if_neg hlink]
        exact tc_follows hnear horder hlink h
    · cases hstep
  | other msg senderIface =>
    rw [step] at hstep
    split at hstep
    · rename_i hother
      cases hstep
      exact h.other hother
    · cases hstep
  | timer destAddr lastAddr =>
    rw [step] at hstep
    split at hstep
    · rename_i hlive
      cases hstep
      exact h.timer hlive
    · cases hstep
  | hello links =>
    cases hstep
    exact h
  | tick now =>
    rw [step] at hstep
    split at hstep
    · cases hstep
      exact h
    · cases hstep

/-- **The topology set follows the newest TC message**, as long as ANSNs compare as the messages
were sent. -/
theorem follows_of_reachable {o : Originator} {w : Listener}
    (h : ((system o).restrict (InOrder o)).Reachable w) :
    Follows o.address (w.newest.map o.message) w.topologySet := by
  refine h.invariant (P := fun w => Follows o.address (w.newest.map o.message) w.topologySet) ?_ ?_
  · rintro w ⟨hts, hnewest⟩
    rw [hts, hnewest]
    exact ⟨fun dest seq => by simp, List.nodup_nil⟩
  · intro w e w' hw hstep
    exact step_follows hstep.1 hw hstep.2

/-! ## The wrap -/

section Sample

/-- Two messages, each with one neighbour. -/
def sampleOriginator (first : UInt16) : Originator where
  address := 0x0a000002
  first := first
  neighborAddresses k := if k = 0 then [0x0a000003] else [0x0a000004]
  vTime _ := 15000000000

/-- A node with a symmetric link to the originator. -/
def sampleListener : Listener where
  links := [⟨0x0a000001, 0x0a000002, 6000000000, 6000000000, 6000000000⟩]
  topologySet := []
  now := 0
  newest := none

/-- The node after one tuple was stored for the message `k`. -/
def sampleStored (destAddr : Ipv4Address) (ansn : UInt16) (k : ℕ) : Listener :=
  { sampleListener with
    topologySet := [⟨destAddr, 0x0a000002, ansn, 15000000000⟩]
    newest := some k }

/-- The second message arrives first. -/
theorem follows_of_reachable_sample : Follows 0x0a000002
    ((sampleStored 0x0a000004 8 1).newest.map (sampleOriginator 7).message)
    (sampleStored 0x0a000004 8 1).topologySet := by
  have hsecond : InOrder (sampleOriginator 7) sampleListener (.tc 1 0x0a000002) :=
    fun _ m hm => by cases hm
  have hfirst : InOrder (sampleOriginator 7) (sampleStored 0x0a000004 8 1) (.tc 0 0x0a000002) := by
    intro _ m hm
    cases hm
    exact (if_neg (by decide)).mpr (by decide)
  have hsteps : (system (sampleOriginator 7)).step sampleListener (.tc 1 0x0a000002)
        (sampleStored 0x0a000004 8 1) ∧
      (system (sampleOriginator 7)).step (sampleStored 0x0a000004 8 1) (.tc 0 0x0a000002)
        (sampleStored 0x0a000004 8 1) := ⟨rfl, rfl⟩
  have hrun : ((system (sampleOriginator 7)).restrict (InOrder (sampleOriginator 7))).Run
      sampleListener _ (sampleStored 0x0a000004 8 1) :=
    .snoc (.snoc (.nil _) ⟨hsecond, hsteps.1⟩) ⟨hfirst, hsteps.2⟩
  exact follows_of_reachable ⟨sampleListener, _, ⟨rfl, rfl⟩, hrun⟩

/-- The message with ANSN 0 is taken for older than the one with ANSN 65535. -/
theorem newest_ignored : ∃ w : Listener, (system (sampleOriginator 65535)).Reachable w ∧
    w.newest = some 1 ∧ w.topologySet = [⟨0x0a000003, 0x0a000002, 65535, 15000000000⟩] ∧
    ¬ Follows 0x0a000002 (w.newest.map (sampleOriginator 65535).message) w.topologySet := by
  have hfirst : (system (sampleOriginator 65535)).step sampleListener (.tc 0 0x0a000002)
      (sampleStored 0x0a000003 65535 0) := rfl
  have hsecond : (system (sampleOriginator 65535)).step (sampleStored 0x0a000003 65535 0)
      (.tc 1 0x0a000002) (sampleStored 0x0a000003 65535 1) := rfl
  refine ⟨sampleStored 0x0a000003 65535 1, ⟨sampleListener, _, ⟨rfl, rfl⟩,
    .snoc (.snoc (.nil _) hfirst) hsecond⟩, rfl, rfl, fun h => ?_⟩
  have hstored := (h.stored 0x0a000004 0).mpr ⟨_, rfl, List.mem_singleton.mpr rfl, rfl⟩
  exact absurd hstored (by decide)

end Sample

end Listener

end Ns3.Olsr
