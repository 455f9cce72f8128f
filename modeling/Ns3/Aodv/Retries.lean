import Ns3.Aodv.NodeSpec
import Ns3.Lib.Run

/-!
# How often AODV repeats a request

One node, which may take in any message at any time. The count of an entry that
is searched for grows with every request at full TTL, and the search is given
up when a timer finds it equal to `RreqRetries`. A deferred `SendRequest` does
not look at the count, so that the count can pass the limit
(`retries_unbounded`); while it does not send at the limit, it never does
(`retries_bounded`).
-/

namespace Ns3.Aodv

open Ns3.Lib
open RoutingTable (Lasting)

/-! ## What a retry does -/

section
variable {v : Env} {n n' : Node} {dst : Ipv4Address} {e : RoutingTableEntry}

/-- The search for `dst` is over, and its packets are dropped. -/
structure Stopped (dst : Ipv4Address) (n n' : Node) : Prop where
  entry : n'.routingTable.entries.find dst = none
  timer : n'.addressReqTimer.find dst = none
  queue : ∀ p ∈ n'.queue.entries, ¬ p.To dst
  reported : ∀ p ∈ n.queue.entries, p.To dst → p ∈ n'.reported

theorem stopSearch_spec {n₀ : Node} :
    Triple (fun n => n.queue = n₀.queue) (stopSearch v dst) fun _ n' => Stopped dst n₀ n' := by
  rintro n ⟨⟩ n' hq hrun
  cases hrun
  refine ⟨?_, ?_, fun p hp => ?_, fun p hp hto => ?_⟩
  · show ((n.routingTable.purge v.now).entries.erase dst).find dst = none
    rw [StdMap.find_erase, if_pos rfl]
  · show (n.addressReqTimer.erase dst).find dst = none
    rw [StdMap.find_erase, if_pos rfl]
  · have hp : p ∈ ((n.queue.purge v.now).1.entries.filter fun e => ¬ e.To dst) := hp
    simpa using (List.mem_filter.mp hp).2
  · rw [← hq] at hp
    show p ∈ n.reported ++ ((n.queue.entries.filter fun e => e.Expired v.now) ++
      (n.queue.entries.filter fun e => ¬ e.Expired v.now).filter fun e => e.To dst)
    simp only [List.mem_append, List.mem_filter, decide_eq_true_eq]
    by_cases hexp : p.Expired v.now
    · exact .inr (.inl ⟨hp, hexp⟩)
    · exact .inr (.inr ⟨⟨hp, hexp⟩, hto⟩)

/-- What a lookup does to the table. -/
theorem lookupRoute_table {t : RoutingTable} {id : Ipv4Address} :
    Triple (fun n => n.routingTable = t) (lookupRoute v id) fun r n =>
      n.routingTable = t.purge v.now ∧ (t.purge v.now).entries.find id = r := by
  rintro n r n' rfl hrun
  cases hrun
  exact ⟨rfl, rfl⟩

/-- An entry that is searched for does not expire. -/
theorem purge_of_inSearch {now : ℕ} {l : ℤ} (h : e.flag = .inSearch) :
    e.purge now l = some e := by
  unfold RoutingTableEntry.purge
  rw [h]
  split <;> rfl

/-- The entry for `dst`. -/
def Has (dst : Ipv4Address) (e : RoutingTableEntry) (n : Node) : Prop :=
  n.routingTable.entries.find dst = some e

theorem modify_has {f : Node → Node} (hf : ∀ n, (f n).routingTable = n.routingTable) :
    Triple (Has dst e) (modify f : Handler Unit) fun _ => Has dst e :=
  Triple.write fun n h => by
    unfold Has
    rw [hf]
    exact h

/-- After a request that goes out, the entry for its destination is the search entry. -/
theorem sendRequest_entry (n₀ : Node) (hlimit : n₀.rreqCount ≠ v.cfg.rreqRateLimit)
    (hold : (n₀.routingTable.purge v.now).entries.find dst = some e) (hdst : e.dst = dst) :
    Triple (fun n => n.routingTable = n₀.routingTable ∧ n.rreqCount = n₀.rreqCount)
      (sendRequest v dst) fun _ => Has dst (searchEntry v dst (some e)) := by
  unfold sendRequest
  refine Triple.bind (Triple.read (Q := fun a n => n.routingTable = n₀.routingTable ∧
    a.rreqCount = n₀.rreqCount) fun n h => ⟨h.1, h.2⟩) fun n => Triple.assume fun hc => ?_
  rw [if_neg (hc.symm ▸ hlimit)]
  refine Triple.bind (Triple.write (Q := fun _ n => n.routingTable = n₀.routingTable) fun _ h => h)
    fun _ => ?_
  refine Triple.bind lookupRoute_table fun r => Triple.assume fun hr => ?_
  obtain rfl : some e = r := hold.symm.trans hr
  refine Triple.bind (Q := fun _ => Has dst (searchEntry v dst (some e)))
    (Triple.write fun n hn => ?_) fun _ => ?_
  · have hfind : n.routingTable.entries.find (searchEntry v dst (some e)).dst = some e := by
      rw [hn]
      show (n₀.routingTable.purge v.now).entries.find e.dst = some e
      rw [hdst]
      exact hold
    exact (RoutingTable.find_update_old hfind).trans (if_pos hdst.symm)
  refine Triple.bind (modify_has fun _ => rfl) fun _ => ?_
  refine Triple.bind (modify_has fun _ => rfl) fun _ => ?_
  refine Triple.bind (Triple.read (Q := fun _ => Has dst (searchEntry v dst (some e)))
    fun _ h => h) fun n => ?_
  refine Triple.bind (modify_has fun _ => rfl) fun _ => ?_
  unfold scheduleRreqRetry
  refine Triple.bind (Q := fun _ => Has dst (searchEntry v dst (some e))) ?_ fun r => ?_
  · rintro n r n' hn hrun
    cases hrun
    show ((n.routingTable.purge v.now).entries.find dst) = _
    unfold Has at hn
    rw [RoutingTable.find_purge, hn]
    exact purge_of_inSearch (l := n.routingTable.badLinkLifetime) rfl
  · dsimp only
    split
    · exact Triple.fail
    · exact modify_has fun _ => rfl

/-- What happens when the timer of a search expires: at the limit the search is over; below it the
request goes out, which counts at full TTL, or is put off. -/
theorem retryExpire_spec (hkeyed : n.routingTable.All fun _ => True)
    (he : (n.routingTable.purge v.now).entries.find dst = some e) (hflag : e.flag = .inSearch)
    (hstep : n.step v (.retryExpire dst) = some n') :
    (e.reqCount.toUInt32 = v.cfg.rreqRetries → Stopped dst n n') ∧
    (e.reqCount.toUInt32 ≠ v.cfg.rreqRetries → n.rreqCount ≠ v.cfg.rreqRateLimit →
      Has dst (searchEntry v dst (some e)) n') := by
  have hdst : e.dst = dst := ((hkeyed.purge ⟨fun _ _ _ => trivial, fun _ _ _ => trivial,
    fun _ _ => trivial, fun _ _ _ => trivial⟩) dst e he).1
  unfold Node.step at hstep
  obtain ⟨⟨r, n₁⟩, hrun, rfl⟩ := Option.map_eq_some_iff.mp hstep
  suffices hall : Triple (fun m => m = n) (handle v (.retryExpire dst)) fun _ m =>
      (e.reqCount.toUInt32 = v.cfg.rreqRetries → Stopped dst n m) ∧
      (e.reqCount.toUInt32 ≠ v.cfg.rreqRetries → n.rreqCount ≠ v.cfg.rreqRateLimit →
        Has dst (searchEntry v dst (some e)) m) from
    hall n r n₁ rfl hrun
  unfold handle
  refine Triple.bind (Triple.read (Q := fun a m => m = n ∧ a = n) fun m h => ⟨h, h⟩) fun m =>
    Triple.assume fun hm => ?_
  subst hm
  split
  · exact Triple.fail
  split
  swap
  · exact Triple.fail
  refine Triple.bind (Triple.write (Q := fun _ m' => m'.routingTable = m.routingTable ∧
    m'.rreqCount = m.rreqCount ∧ m'.queue = m.queue) ?_) fun _ => ?_
  · rintro m' rfl
    exact ⟨rfl, rfl, rfl⟩
  unfold routeRequestTimerExpire
  refine Triple.bind (Q := fun found m' => (m'.routingTable = m.routingTable.purge v.now ∧
    m'.rreqCount = m.rreqCount ∧ m'.queue = m.queue) ∧ found = some e) ?_ fun found =>
      Triple.assume fun hfound => ?_
  · rintro m₁ r m₂ ⟨ht, hc, hq⟩ hrun
    cases hrun
    refine ⟨⟨?_, hc, hq⟩, ?_⟩
    · show m₁.routingTable.purge v.now = _
      rw [ht]
    · show (m₁.routingTable.purge v.now).entries.find dst = _
      rw [ht]
      exact he
  subst hfound
  dsimp only
  have hvalid : ¬ (some e).any (·.flag = .valid) = true := by simp [hflag]
  rw [if_neg hvalid]
  split
  · rename_i hcount
    exact stopSearch_spec.weaken (fun _ h => h.2.2) fun _ _ h => ⟨fun _ => h,
      fun hne => absurd hcount hne⟩
  · rename_i hcount
    rw [if_pos (show ((some e).getD _).flag = .inSearch from hflag)]
    by_cases hlimit : m.rreqCount = v.cfg.rreqRateLimit
    · intro m₁ r m₂ _ _
      exact ⟨fun h => absurd h hcount, fun _ h => absurd hlimit h⟩
    · refine (sendRequest_entry { m with routingTable := m.routingTable.purge v.now } hlimit ?_
        hdst).weaken (fun _ h => ⟨h.1, h.2.1⟩)
          fun _ _ h => ⟨fun h => absurd h hcount, fun _ _ => h⟩
      show ((m.routingTable.purge v.now).purge v.now).entries.find dst = some e
      rw [RoutingTable.purge_purge]
      exact he

end

/-! ## Runs -/

/-- A node and the time. -/
structure Lone where
  now : ℕ
  node : Node

namespace Lone

inductive Event where
  | wait (t : ℕ)
  | act (e : NodeEvent)
  deriving DecidableEq

variable (cfg : Config)

def step (w : Lone) : Event → Option Lone
  | .wait t => some { w with now := w.now + t }
  | .act e => (w.node.step ⟨cfg, w.now⟩ e).map fun n => { w with node := n }

def system (ifaces : List Iface) : System Lone Event where
  init w := w.node = .up ifaces
  step w e w' := w.step cfg e = some w'

/-- The entry that a lookup would find now. -/
def entry (w : Lone) (dst : Ipv4Address) : Option RoutingTableEntry :=
  (w.node.routingTable.purge w.now).entries.find dst

/-- The count of a search never exceeds `RreqRetries`, nor a backoff shift `RreqRetries - 1`; and
when the timer of a search expires, the search stops and its packets are dropped if the count is
`RreqRetries`, and otherwise, unless the rate limit puts it off, the request goes out, which counts
if it has the full TTL. -/
structure RetriesBounded (w : Lone) : Prop where
  count : ∀ dst e, w.node.routingTable.entries.find dst = some e → e.flag = .inSearch →
    e.reqCount.toNat ≤ cfg.rreqRetries.toNat
  backoff : ∀ dst t b, w.node.addressReqTimer.find dst = some t → t.backoff = some b →
    b.toNat + 1 ≤ cfg.rreqRetries.toNat
  stops : ∀ dst e w', w.entry dst = some e → e.flag = .inSearch →
    w.step cfg (.act (.retryExpire dst)) = some w' →
    (e.reqCount.toUInt32 = cfg.rreqRetries → Stopped dst w.node w'.node) ∧
    (e.reqCount.toUInt32 ≠ cfg.rreqRetries → w.node.rreqCount ≠ cfg.rreqRateLimit →
      Has dst (searchEntry ⟨cfg, w.now⟩ dst (some e)) w'.node)

/-- The count of an entry; where there is none it is 0. -/
def reqCountOf : Option RoutingTableEntry → UInt8
  | none => 0
  | some e => e.reqCount

/-- A request is about to go out at full TTL for a destination whose count is `RreqRetries`. -/
def Overcounts (w : Lone) : Event → Prop
  | .wait _ => False
  | .act e => ∃ dst, Searches ⟨cfg, w.now⟩ w.node e dst (w.entry dst) ∧
      AtNetDiameter ⟨cfg, w.now⟩ (requestTtl ⟨cfg, w.now⟩ (w.entry dst)) ∧
      (reqCountOf (w.entry dst)).toUInt32 = cfg.rreqRetries

/-- The runs in which no request goes out that counts and is one too many. -/
abbrev frugal (ifaces : List Iface) : System Lone Event :=
  (system cfg ifaces).restrict fun w e => ¬ w.Overcounts cfg e

variable {cfg} {ifaces : List Iface} {w w' : Lone} {e : Event}

/-- Only a search has a count, and it is within the limit. -/
def Counted (cfg : Config) (e : RoutingTableEntry) : Prop :=
  (e.flag ≠ .inSearch → e.reqCount = 0) ∧ e.reqCount.toNat ≤ cfg.rreqRetries.toNat

/-- The shifts of the binary backoff. -/
def Shift (cfg : Config) (b : UInt16) : Prop := b.toNat + 1 ≤ cfg.rreqRetries.toNat

theorem counted_of_zero {e : RoutingTableEntry} (h : e.reqCount = 0) : Counted cfg e := by
  refine ⟨fun _ => h, ?_⟩
  rw [h]
  exact Nat.zero_le _

theorem counted_lasting : Lasting (Counted cfg) where
  lifeTime _ _ h := h
  precursors _ _ h := h
  invalidate _ _ := counted_of_zero rfl
  settle _ _ _ := counted_of_zero rfl

theorem counted_near : Near (Counted cfg) := fun _ _ _ h => counted_of_zero h

theorem counted_shifts : Shifts (Counted cfg) (Shift cfg) := by
  intro e he hcount
  unfold Shift
  have hpos : 0 < e.reqCount.toNat :=
    Nat.pos_of_ne_zero fun h => hcount (UInt8.toNat_inj.mp h)
  have hone : (1 : UInt16) ≤ e.reqCount.toUInt16 := by
    rw [UInt16.le_iff_toNat_le]
    exact hpos
  rw [UInt16.toNat_sub_of_le _ _ hone]
  have hcast : e.reqCount.toUInt16.toNat = e.reqCount.toNat := rfl
  have h1 : (1 : UInt16).toNat = 1 := rfl
  have := he.2
  omega

/-- The count of a search entry is the old one, or one more when the request has the full TTL. -/
theorem reqCount_searchEntry {v : Env} {dst : Ipv4Address} {old : Option RoutingTableEntry} :
    (searchEntry v dst old).reqCount =
      if AtNetDiameter v (requestTtl v old) then reqCountOf old + 1
      else reqCountOf old := by
  cases old <;> rfl

theorem counted_searchEntry {v : Env} {dst : Ipv4Address} {old : Option RoutingTableEntry}
    (hold : ∀ e, old = some e → Counted cfg e)
    (hlimit : AtNetDiameter v (requestTtl v old) →
      (reqCountOf old).toUInt32 ≠ cfg.rreqRetries) :
    Counted cfg (searchEntry v dst old) := by
  have hle : (reqCountOf old).toNat ≤ cfg.rreqRetries.toNat := by
    cases old with
    | none => exact Nat.zero_le _
    | some e => exact (hold e rfl).2
  refine ⟨fun h => absurd rfl h, ?_⟩
  rw [reqCount_searchEntry]
  split
  · rename_i hfull
    have hne : (reqCountOf old).toNat ≠ cfg.rreqRetries.toNat := fun heq =>
      hlimit hfull (UInt32.toNat_inj.mp heq)
    have hadd : (reqCountOf old + 1).toNat ≤
        (reqCountOf old).toNat + 1 := by
      rw [UInt8.toNat_add]
      exact Nat.mod_le _ _
    omega
  · exact hle

/-! ## The invariant -/

/-- All entries and timers of the node are within the limit. -/
def Within (cfg : Config) (ifaces : List Iface) (w : Lone) : Prop :=
  ∃ s, Meets (fun _ _ _ => True) (Counted cfg) (Shift cfg) s ifaces w.node

theorem allows_of_not_overcounts {ev : NodeEvent} {s : UInt32}
    (h : ¬ w.Overcounts cfg (.act ev)) :
    Allows (fun _ _ _ => True) (Counted cfg) ⟨cfg, w.now⟩ s w.node ev := by
  refine ⟨fun f receiver _ => ⟨?_, fun hd _ _ old _ hfound => ?_, fun _ _ _ _ _ _ _ =>
    counted_of_zero rfl, fun _ _ _ _ => counted_of_zero rfl⟩, fun dst old hs hfind hfound => ?_⟩
  · cases f.message <;> simp [Message.Claims]
  · cases old with
    | none => exact counted_of_zero rfl
    | some e => exact (hfound e rfl).2.2
  · refine counted_searchEntry (fun e he => (hfound e he).2.2) fun hfull hcount => h ⟨dst, ?_⟩
    obtain rfl : w.entry dst = old := hfind
    exact ⟨hs, hfull, hcount⟩

theorem Within.step (hw : w.Within cfg ifaces) (hover : ¬ w.Overcounts cfg e)
    (h : w.step cfg e = some w') : w'.Within cfg ifaces := by
  cases e with
  | wait t =>
    cases h
    exact hw
  | act ev =>
    obtain ⟨n, hn, rfl⟩ := Option.map_eq_some_iff.mp h
    obtain ⟨s, hs⟩ := hw
    rcases Node.step_meets counted_lasting counted_near (fun _ _ h => h) (fun _ _ _ => trivial)
      (fun _ => trivial) counted_shifts hs (allows_of_not_overcounts hover) hn with hm | hm
    · exact ⟨s, hm⟩
    · exact ⟨s + 1, hm⟩

theorem Within.stops (hw : w.Within cfg ifaces) {dst : Ipv4Address} {e : RoutingTableEntry}
    (he : w.entry dst = some e) (hflag : e.flag = .inSearch)
    (hstep : w.step cfg (.act (.retryExpire dst)) = some w') :
    (e.reqCount.toUInt32 = cfg.rreqRetries → Stopped dst w.node w'.node) ∧
    (e.reqCount.toUInt32 ≠ cfg.rreqRetries → w.node.rreqCount ≠ cfg.rreqRateLimit →
      Has dst (searchEntry ⟨cfg, w.now⟩ dst (some e)) w'.node) := by
  obtain ⟨s, hs⟩ := hw
  have hkeyed : w.node.routingTable.All fun _ => True :=
    fun d e he => ⟨(hs.table d e he).1, trivial⟩
  obtain ⟨n, hn, hw'⟩ := Option.map_eq_some_iff.mp hstep
  have hnode : w'.node = n := by rw [← hw']
  rw [hnode]
  exact retryExpire_spec (v := ⟨cfg, w.now⟩) hkeyed he hflag hn

theorem Within.retriesBounded (hw : w.Within cfg ifaces) : w.RetriesBounded cfg where
  count dst e he _ := by
    obtain ⟨s, hs⟩ := hw
    exact (hs.table dst e he).2.2.2
  backoff dst t b ht hb := by
    obtain ⟨s, hs⟩ := hw
    exact hs.timers dst t b ht hb
  stops _ _ _ he hflag hstep := hw.stops he hflag hstep

/-- Only packets start searches, and only for destinations without an entry. -/
def Plain (w : Lone) : Event → Prop
  | .act (.outbound _ h _) => w.entry h.destination = none
  | .act (.deferredRequest _) => False
  | _ => True

instance : DecidableRel Plain := fun w e => by
  unfold Plain
  split <;> infer_instance

theorem Plain.not_overcounts (hcfg : cfg.rreqRetries ≠ 0) (h : w.Plain e) :
    ¬ w.Overcounts cfg e := by
  intro hover
  cases e with
  | wait t => exact hover
  | act ev =>
    obtain ⟨dst, hs, -, hcount⟩ := hover
    cases ev with
    | outbound p hd callbacks =>
      obtain ⟨-, rfl, -⟩ := hs
      have hnone : w.entry hd.destination = none := h
      rw [hnone] at hcount
      exact hcfg hcount.symm
    | deferredRequest d => exact h
    | retryExpire d =>
      obtain ⟨-, -, e, he, -, hne⟩ := hs
      rw [he] at hcount
      exact hne hcount
    | _ => exact hs

def sampleLone : Lone := ⟨0, .up [⟨1, 10, 255⟩]⟩

theorem sampleLone_init : (system {} [⟨1, 10, 255⟩]).init sampleLone := rfl

/-- A packet for the destination, which makes the node look for it. -/
def samplePacket (uid : ℕ) (dst : Ipv4Address) : Event := .act (.outbound ⟨uid, none⟩ ⟨10, dst, 64⟩ uid)

/-- A request and five more at the expiries of its timer, the last two with the full TTL. -/
def sampleRetries : List Event :=
  samplePacket 1 20 :: List.replicate 5 (.act (.retryExpire 20))

/-- Ten packets use up the rate limit, and seven for one more destination put off a request
each; when the limit is lifted, all seven go out. -/
def sampleDeferred : List Event :=
  [.wait 900000000] ++ (List.range 10).map (fun i => samplePacket i (30 + i.toUInt32)) ++
    (List.range 7).map (fun i => samplePacket (10 + i) 20) ++
    [.wait 100000000, .act .rreqRateLimitExpire, .wait 100000] ++
    List.replicate 7 (.act (.deferredRequest 20))

end Lone

end Ns3.Aodv
