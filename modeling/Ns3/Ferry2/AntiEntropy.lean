import Ns3.Ferry2.Exchange
import Ns3.Lib.Run

/-!
# Anti-entropy over whole runs

Any number of nodes exchange hellos, requests and answers over a network that
may lose, repeat and reorder datagrams: once sent, a datagram can be delivered
to any node at any time, any number of times, or never. Crossings enter a store
only by a user's discovery, which the state logs. With `eraseinfoflag` off,
every stored time comes from a logged discovery of that crossing (`Good`), and
no stored time ever decreases (`Grows`).
-/

namespace Ns3.Ferry2

open Ns3.Lib

/-! ## The network -/

/-- A user of node `node` found the crossing `id` blocked at `time`. -/
structure Discovery (ι : Type) where
  node : ι
  id : String
  time : ℕ

structure NetState (ι E : Type) where
  now : ℕ
  node : ι → DtnNode E
  /-- Every datagram ever sent. -/
  sent : List Datagram
  log : List (Discovery ι)

inductive NetEvent (ι : Type)
  | wait
  | hello (i : ι)
  | deliver (i : ι) (x : Datagram)
  | process (i : ι)
  | shelter (i : ι)
  | discover (i : ι) (id : String)
  | other (i : ι)

variable {ι E : Type} {cfg : Config} {ops : UserOps E}

section Steps

variable [DecidableEq ι]

/-- One node runs a handler: it moves to `n'` and its datagrams join those sent. -/
def NetState.run (s : NetState ι E) (i : ι) (r : Outcome E) : NetState ι E :=
  { s with node := Function.update s.node i r.1, sent := s.sent ++ r.2 }

def NetState.record (s : NetState ι E) (d : Discovery ι) : NetState ι E :=
  { s with log := s.log ++ [d] }

inductive NetStep (cfg : Config) (ops : UserOps E) :
    NetState ι E → NetEvent ι → NetState ι E → Prop
  | wait {s : NetState ι E} {t : ℕ} (h : s.now ≤ t) : NetStep cfg ops s .wait { s with now := t }
  | hello {s : NetState ι E} {i : ι} {r : Outcome E} (h : sendHello cfg s.now (s.node i) = some r) :
      NetStep cfg ops s (.hello i) (s.run i r)
  /-- Delivery takes nothing off the network. -/
  | deliver {s : NetState ι E} {i : ι} {x : Datagram} {junk : Junk} {r : Outcome E}
      (hx : x ∈ s.sent) (h : recvProto cfg ops s.now junk (s.node i) x = some r) :
      NetStep cfg ops s (.deliver i x) (s.run i r)
  | process {s : NetState ι E} {i : ι} {junk : UInt32} {r : Outcome E}
      (h : processRequestBuffer cfg junk (s.node i) = some r) :
      NetStep cfg ops s (.process i) (s.run i r)
  | shelter {s : NetState ι E} {i : ι} {data : ShelterInfo} {r : Outcome E}
      (h : sendShelterInfoAsBroadcast s.now (s.node i) data = some r) :
      NetStep cfg ops s (.shelter i) (s.run i r)
  | discover {s : NetState ι E} {i : ι} {k : ℕ} {n' : DtnNode E} (hk : k ≤ intMax)
      (h : findBlocked ops s.now (s.node i) (nodeID k) = some n') :
      NetStep cfg ops s (.discover i (nodeID k))
        ((s.record ⟨i, nodeID k, s.now⟩).run i (n', []))
  /-- Everything else a user does: moving, waiting, leaving, shelter counts, routes, hop data. -/
  | other {s : NetState ι E} {i : ι} {n' : DtnNode E} (h : SameStore (s.node i) n') :
      NetStep cfg ops s (.other i) (s.run i (n', []))

/-- Nothing found, nothing sent, nothing waiting. -/
structure NetInit (s : NetState ι E) : Prop where
  blocked : ∀ i, (s.node i).blockednodeidAndTime = .empty
  buffer : ∀ i, (s.node i).requestBuffer = []
  sent : s.sent = []
  log : s.log = []

def antiEntropy (cfg : Config) (ops : UserOps E) : System (NetState ι E) (NetEvent ι) where
  init := NetInit
  step := NetStep cfg ops

end Steps

/-! ## Stores and messages with a provenance

`G k v` says that the time `v` may be stored for the crossing `k`. -/

section Provenance

variable {G : String → Binary32 → Prop}

structure GoodStore (G : String → Binary32 → Prop) (m : StdMap String Binary32) : Prop where
  canonical : CanonicalKeys m
  known : ∀ k v, m.find k = some v → G k v

/-- The messages that handlers build from good stores. -/
inductive GoodPacket (cfg : Config) (G : String → Binary32 → Prop) : List UInt8 → Prop
  | hello {s : SummaryVector} {hop : Hop} {p : List UInt8}
      (h : helloPacket cfg.sendHopFlag s hop = some p) (hexit : s.exitSummary = .empty)
      (hblock : GoodStore G s.blockSummary) : GoodPacket cfg G p
  | request {r : RequestData} {p : List UInt8} (h : requestPacket r = some p)
      (hexit : r.exitIds = []) (hwf : r.WF) (hlen : r.blockIds.length < 2 ^ 32) :
      GoodPacket cfg G p
  | userData {d : UserData} {hop : Hop} {p : List UInt8}
      (h : userDataPacket cfg.sendHopFlag d hop = some p) (hwf : d.WF)
      (hblock : GoodStore G d.aoiBlockinfo) : GoodPacket cfg G p
  | shelter {d : ShelterInfo} {p : List UInt8} (h : shelterPacket d = some p) : GoodPacket cfg G p

/-- A node's store, and its waiting requests, which ask for crossings only. -/
structure GoodNode (G : String → Binary32 → Prop) (n : DtnNode E) : Prop where
  store : GoodStore G n.blockednodeidAndTime
  buffer : ∀ b ∈ n.requestBuffer, b.exitIds = []

theorem GoodStore.mono {G' : String → Binary32 → Prop} {m : StdMap String Binary32}
    (hG : ∀ k v, G k v → G' k v) (h : GoodStore G m) : GoodStore G' m :=
  ⟨h.canonical, fun k v hv => hG k v (h.known k v hv)⟩

theorem GoodPacket.mono {G' : String → Binary32 → Prop} {p : List UInt8}
    (hG : ∀ k v, G k v → G' k v) (h : GoodPacket cfg G p) : GoodPacket cfg G' p := by
  cases h with
  | hello h hexit hblock => exact .hello h hexit (hblock.mono hG)
  | request h hexit hwf hlen => exact .request h hexit hwf hlen
  | userData h hwf hblock => exact .userData h hwf (hblock.mono hG)
  | shelter h => exact .shelter h

theorem GoodStore.empty : GoodStore G .empty :=
  ⟨canonicalKeys_empty, by simp⟩

theorem GoodStore.assign {m : StdMap String Binary32} {k : String} {v : Binary32}
    (h : GoodStore G m) (hk : Canonical k) (hv : G k v) : GoodStore G (m.assign k v) := by
  refine ⟨canonicalKeys_iff.mpr fun k' v' hv' => ?_, fun k' v' hv' => ?_⟩
  · rw [StdMap.find_assign] at hv'
    split at hv'
    · rename_i heq
      exact heq ▸ hk
    · exact canonicalKeys_iff.mp h.canonical k' v' hv'
  · rw [StdMap.find_assign] at hv'
    split at hv'
    · rename_i heq
      rw [heq, ← Option.some.inj hv']
      exact hv
    · exact h.known k' v' hv'

theorem GoodStore.newest {m r : StdMap String Binary32} (h : GoodStore G m) (hr : GoodStore G r) :
    GoodStore G (m.newest r) := by
  have hcases : ∀ k v, (m.newest r).find k = some v → m.find k = some v ∨ r.find k = some v := by
    intro k v hv
    rw [StdMap.find_newest] at hv
    cases hm : m.find k with
    | none => exact .inr (by simpa [hm] using hv)
    | some a =>
      cases hrk : r.find k with
      | none => exact .inl (by simpa [hm, hrk] using hv)
      | some b =>
        have hlb : larger a b = v := by simpa [hm, hrk] using hv
        unfold larger at hlb
        split at hlb
        · exact .inr (by rw [hlb])
        · exact .inl (by rw [hlb])
  refine ⟨canonicalKeys_iff.mpr fun k v hv => ?_, fun k v hv => ?_⟩
  · rcases hcases k v hv with hv | hv
    · exact canonicalKeys_iff.mp h.canonical k v hv
    · exact canonicalKeys_iff.mp hr.canonical k v hv
  · rcases hcases k v hv with hv | hv
    · exact h.known k v hv
    · exact hr.known k v hv

theorem GoodStore.select {m : StdMap String Binary32} {ids : List String} (h : GoodStore G m) :
    GoodStore G (selectEntries m ids) := by
  refine ⟨canonicalKeys_selectEntries h.canonical, fun k v hv => ?_⟩
  rw [find_selectEntries] at hv
  split at hv
  · exact h.known k v hv
  · cases hv

/-! ## Growth -/

/-- Every stored crossing stays, at the same time or a later one. -/
def Grows (m m' : StdMap String Binary32) : Prop :=
  ∀ k v, m.find k = some v → ∃ v', m'.find k = some v' ∧ v ≤ v'

theorem Grows.refl {m : StdMap String Binary32} (hnan : ∀ k v, m.find k = some v → v ≤ v) :
    Grows m m := by
  intro k v hv
  exact ⟨v, hv, hnan k v hv⟩

theorem Grows.trans {m m' m'' : StdMap String Binary32} (h : Grows m m') (h' : Grows m' m'') :
    Grows m m'' := by
  intro k v hv
  obtain ⟨v', hv', hle⟩ := h k v hv
  obtain ⟨v'', hv'', hle'⟩ := h' k v' hv'
  exact ⟨v'', hv'', Binary32.le_trans hle hle'⟩

theorem grows_newest {m r : StdMap String Binary32} (hnan : ∀ k v, m.find k = some v → v ≤ v) :
    Grows m (m.newest r) := by
  intro k v hv
  rw [StdMap.find_newest, hv]
  cases hr : r.find k with
  | none => exact ⟨v, rfl, hnan k v hv⟩
  | some w =>
    refine ⟨larger v w, rfl, ?_⟩
    unfold larger
    split
    · rename_i hlt
      exact Binary32.le_of_lt hlt
    · exact hnan k v hv

/-! ## What one handler run preserves -/

/-- The node and the messages are still good, and no stored time decreased. -/
structure GoodOutcome (cfg : Config) (G : String → Binary32 → Prop) (n : DtnNode E)
    (r : Outcome E) : Prop where
  node : GoodNode G r.1
  sent : ∀ x ∈ r.2, GoodPacket cfg G x.bytes
  grows : Grows n.blockednodeidAndTime r.1.blockednodeidAndTime

variable {n : DtnNode E} {r : Outcome E} {x : Datagram} {now : ℕ}

/-- No admissible time is a NaN. -/
def Ordered (G : String → Binary32 → Prop) : Prop := ∀ k v, G k v → v ≤ v

theorem GoodNode.grows (hG : Ordered G) (hn : GoodNode G n) :
    Grows n.blockednodeidAndTime n.blockednodeidAndTime :=
  .refl fun k v hv => hG k v (hn.store.known k v hv)

theorem goodOutcome_of_sameStore (hG : Ordered G) (hn : GoodNode G n) (hs : SameStore n r.1)
    (hsent : ∀ x ∈ r.2, GoodPacket cfg G x.bytes) : GoodOutcome cfg G n r where
  node := ⟨hs.blocked ▸ hn.store, hs.buffer ▸ hn.buffer⟩
  sent := hsent
  grows := by
    rw [hs.blocked]
    exact hn.grows hG

theorem goodPacket_of_hello {m : StdMap String Binary32} (hm : GoodStore G m)
    (h : ∃ s hop, helloPacket cfg.sendHopFlag s hop = some x.bytes ∧ s.exitSummary = .empty ∧
      s.blockSummary = m) : GoodPacket cfg G x.bytes := by
  obtain ⟨s, hop, hp, hexit, rfl⟩ := h
  exact .hello hp hexit hm

theorem sendHello_good (hG : Ordered G) (hn : GoodNode G n) (h : sendHello cfg now n = some r) :
    GoodOutcome cfg G n r := by
  obtain ⟨hs, hout⟩ := sendHello_spec h
  exact goodOutcome_of_sameStore hG hn hs fun x hx => goodPacket_of_hello hn.store (hout x hx)

theorem process_good (hG : Ordered G) (hn : GoodNode G n) {junk : UInt32}
    (h : processRequestBuffer cfg junk n = some r) : GoodOutcome cfg G n r := by
  obtain ⟨hblocked, hbuffer, hout⟩ := processRequestBuffer_spec h
  refine ⟨⟨hblocked ▸ hn.store, by simp [hbuffer]⟩, fun x hx => ?_, ?_⟩
  · obtain ⟨b, rest, hb, hp⟩ := hout x hx
    rw [hn.buffer b (by simp [hb])] at hp
    exact .userData hp (makeSendData_wf hn.store.canonical) hn.store.select
  · rw [hblocked]
    exact hn.grows hG

theorem recvProto_good (hoff : cfg.eraseinfoflag = false) (hG : Ordered G) (hn : GoodNode G n)
    (hx : GoodPacket cfg G x.bytes) {junk : Junk}
    (h : recvProto cfg ops now junk n x = some r) : GoodOutcome cfg G n r := by
  obtain ⟨n', out⟩ := r
  cases hx with
  | @hello s hop p hp hexit hblock =>
    have hs : s.WF := ⟨hexit ▸ canonicalKeys_empty, hblock.canonical⟩
    obtain ⟨p, ht, hread⟩ := helloPacket_read hs hp
    rcases recvProto_hello ht h with ⟨rfl, rfl⟩ | hrecv
    · exact goodOutcome_of_sameStore hG hn (.refl _) (by simp)
    · obtain ⟨hsame, y, hy, hreq⟩ := recvHello_spec hrecv
      obtain rfl := hread _ _ hy
      refine goodOutcome_of_sameStore hG hn hsame fun z hz => ?_
      exact .request (hreq z hz) rfl (requestBlockIds_wf hblock.canonical _)
        (length_requestBlockIds hblock.canonical)
  | @request r p hp hexit hwf hlen =>
    obtain ⟨p, ht, hread⟩ := requestPacket_read hwf (by simp [hexit]) hlen hp
    rw [recvProto_request ht] at h
    obtain ⟨rfl, hblocked, r', q, hr', hbuffer⟩ := recvRequest_spec h
    obtain ⟨q', hq'⟩ := hread junk.request
    obtain ⟨rfl, -⟩ : r = r' ∧ _ := by simpa [hq'] using hr'
    refine ⟨⟨hblocked ▸ hn.store, fun b hb => ?_⟩, by simp, ?_⟩
    · rw [hbuffer, List.mem_append, List.mem_singleton] at hb
      rcases hb with hb | rfl
      · exact hn.buffer b hb
      · exact hexit
    · rw [hblocked]
      exact hn.grows hG
  | @userData d hop p hp hwf hblock =>
    obtain ⟨p, ht, hread⟩ := userDataPacket_read hwf hp
    rw [recvProto_userData ht] at h
    obtain ⟨y, hy, hstore, hbuffer, hout⟩ := recvUserData_spec hoff h
    obtain rfl := hread _ _ hy
    have hgood : GoodStore G n'.blockednodeidAndTime := hstore ▸ hn.store.newest hblock
    refine ⟨⟨hgood, hbuffer ▸ hn.buffer⟩, fun z hz => ?_, ?_⟩
    · exact goodPacket_of_hello hgood (hout z hz)
    · rw [hstore]
      exact grows_newest fun k v hv => hG k v (hn.store.known k v hv)
  | @shelter d p hp =>
    simp only [shelterPacket, Option.bind_eq_bind, Option.bind_eq_some_iff] at hp
    obtain ⟨p₁, -, ht⟩ := hp
    rcases recvProto_shelterData (removeType_addType ht) h with ⟨rfl, rfl⟩ | hrecv
    · exact goodOutcome_of_sameStore hG hn (.refl _) (by simp)
    · obtain ⟨hsame, hout⟩ := recvShelterData_spec hrecv
      exact goodOutcome_of_sameStore hG hn hsame fun z hz =>
        goodPacket_of_hello hn.store (hout z hz)

theorem sendShelterInfo_good (hG : Ordered G) (hn : GoodNode G n) {data : ShelterInfo}
    (h : sendShelterInfoAsBroadcast now n data = some r) : GoodOutcome cfg G n r := by
  simp only [sendShelterInfoAsBroadcast, Option.bind_eq_bind, Option.bind_eq_some_iff] at h
  obtain ⟨packet, hp, hout⟩ := h
  cases hout
  refine goodOutcome_of_sameStore hG hn ⟨rfl, rfl⟩ fun x hx => ?_
  obtain ⟨a, -, rfl⟩ := List.mem_map.mp hx
  exact .shelter hp

end Provenance

/-! ## What one step preserves -/

/-- Some user found `k` blocked, and `v` is the time of that. -/
def Found (s : NetState ι E) (k : String) (v : Binary32) : Prop :=
  ∃ d ∈ s.log, d.id = k ∧ v = stampOf d.time ∧ d.time ≤ s.now

theorem nowSeconds_mono {t t' : ℕ} (h : t ≤ t') : nowSeconds t ≤ nowSeconds t' := by
  have h₁ : Format.binary64.rnd t ≤ Format.binary64.rnd t' :=
    Format.rnd_mono_of_nonneg (by positivity) (by exact_mod_cast h)
  have h₀ : 0 ≤ Format.binary64.rnd t := Format.rnd_nonneg (by positivity)
  exact Format.rnd_mono_of_nonneg (by positivity) (by gcongr)

/-- A later discovery never carries an earlier time. -/
theorem stampOf_mono {t t' : ℕ} (h : t ≤ t') : stampOf t ≤ stampOf t' :=
  Binary32.ofRat_mono (nowSeconds_mono h)

theorem found_ordered (s : NetState ι E) : Ordered (Found s) := by
  rintro k v ⟨d, -, -, rfl, -⟩
  exact stampOf_mono le_rfl

/-- Every node and every datagram is good for what has been found so far. -/
structure Good (cfg : Config) (s : NetState ι E) : Prop where
  node : ∀ i, GoodNode (Found s) (s.node i)
  sent : ∀ x ∈ s.sent, GoodPacket cfg (Found s) x.bytes

/-- No node forgets a crossing or goes back to an earlier time for it. -/
def AllGrow (s s' : NetState ι E) : Prop :=
  ∀ i, Grows (s.node i).blockednodeidAndTime (s'.node i).blockednodeidAndTime

theorem Good.mono {s s' : NetState ι E} (hg : Good cfg s) (hnode : s'.node = s.node)
    (hsent : s'.sent = s.sent) (hfound : ∀ k v, Found s k v → Found s' k v) : Good cfg s' where
  node i := hnode ▸ ⟨(hg.node i).store.mono hfound, (hg.node i).buffer⟩
  sent x hx := (hg.sent x (hsent ▸ hx)).mono hfound

theorem Good.record {s : NetState ι E} (hg : Good cfg s) (d : Discovery ι) :
    Good cfg (s.record d) :=
  hg.mono rfl rfl fun _ _ ⟨c, hc, hrest⟩ => ⟨c, List.mem_append_left _ hc, hrest⟩

theorem good_of_init {s : NetState ι E} (h : NetInit s) : Good cfg s where
  node i := ⟨h.blocked i ▸ .empty, by simp [h.buffer i]⟩
  sent := by simp [h.sent]

/-- A discovery stores the current time, which no stored time exceeds. -/
theorem findBlocked_good {s : NetState ι E} {i : ι} {k : ℕ} {n' : DtnNode E} (hg : Good cfg s)
    (hk : k ≤ intMax) (h : findBlocked ops s.now (s.node i) (nodeID k) = some n') :
    GoodOutcome cfg (Found (s.record ⟨i, nodeID k, s.now⟩)) (s.node i) (n', []) := by
  have hcan : Canonical (nodeID k) := ⟨k, hk, rfl⟩
  have hg' := hg.record ⟨i, nodeID k, s.now⟩
  have hnew : Found (s.record ⟨i, nodeID k, s.now⟩) (nodeID k) (stampOf s.now) :=
    ⟨_, List.mem_append_right _ (List.mem_singleton_self _), rfl, rfl, le_rfl⟩
  simp only [findBlocked, hcan.ne_empty, if_false, StdMap.insert_erase, Option.bind_eq_bind,
    Option.bind_eq_some_iff] at h
  obtain ⟨user, -, hn⟩ := h
  cases hn
  refine ⟨⟨(hg'.node i).store.assign hcan hnew, (hg.node i).buffer⟩, by simp, ?_⟩
  intro k' v hv
  by_cases hkk : k' = nodeID k
  · subst hkk
    obtain ⟨d, -, -, rfl, hd⟩ := (hg.node i).store.known _ _ hv
    exact ⟨stampOf s.now, StdMap.find_assign_self _ _ _, stampOf_mono hd⟩
  · refine ⟨v, ?_, found_ordered s k' v ((hg.node i).store.known k' v hv)⟩
    rw [StdMap.find_assign, if_neg hkk, hv]

section Steps

variable [DecidableEq ι]

theorem good_run {s : NetState ι E} {i : ι} {r : Outcome E} (hg : Good cfg s)
    (hr : GoodOutcome cfg (Found s) (s.node i) r) : Good cfg (s.run i r) where
  node j := by
    show GoodNode (Found s) (Function.update s.node i r.1 j)
    by_cases hj : j = i
    · subst hj
      rw [Function.update_self]
      exact hr.node
    · rw [Function.update_of_ne hj]
      exact hg.node j
  sent x hx := by
    rcases List.mem_append.mp hx with hx | hx
    · exact hg.sent x hx
    · exact hr.sent x hx

theorem allGrow_run {s : NetState ι E} {i : ι} {r : Outcome E} (hg : Good cfg s)
    (hr : GoodOutcome cfg (Found s) (s.node i) r) : AllGrow s (s.run i r) := by
  intro j
  show Grows _ (Function.update s.node i r.1 j).blockednodeidAndTime
  by_cases hj : j = i
  · subst hj
    rw [Function.update_self]
    exact hr.grows
  · rw [Function.update_of_ne hj]
    exact (hg.node j).grows (found_ordered s)

theorem step_good (hoff : cfg.eraseinfoflag = false) {s s' : NetState ι E} {e : NetEvent ι}
    (hg : Good cfg s) (h : NetStep cfg ops s e s') : Good cfg s' ∧ AllGrow s s' := by
  have hG := found_ordered s
  cases h with
  | wait hle =>
    refine ⟨hg.mono rfl rfl ?_, fun i => (hg.node i).grows hG⟩
    rintro k v ⟨d, hd, hid, hv, ht⟩
    exact ⟨d, hd, hid, hv, ht.trans hle⟩
  | @hello i r h =>
    have hr : GoodOutcome cfg (Found s) (s.node i) r := sendHello_good hG (hg.node i) h
    exact ⟨good_run hg hr, allGrow_run hg hr⟩
  | @deliver i x junk r hx h =>
    have hr := recvProto_good hoff hG (hg.node i) (hg.sent x hx) h
    exact ⟨good_run hg hr, allGrow_run hg hr⟩
  | @process i junk r h =>
    have hr : GoodOutcome cfg (Found s) (s.node i) r := process_good hG (hg.node i) h
    exact ⟨good_run hg hr, allGrow_run hg hr⟩
  | @shelter i data r h =>
    have hr : GoodOutcome cfg (Found s) (s.node i) r := sendShelterInfo_good hG (hg.node i) h
    exact ⟨good_run hg hr, allGrow_run hg hr⟩
  | @discover i k n' hk h =>
    have hr := findBlocked_good hg hk h
    have hg' := hg.record ⟨i, nodeID k, s.now⟩
    have hgrow : AllGrow (s.record _) _ := allGrow_run hg' hr
    exact ⟨good_run hg' hr, hgrow⟩
  | @other i n' h =>
    have hr : GoodOutcome cfg (Found s) (s.node i) (n', []) :=
      goodOutcome_of_sameStore hG (hg.node i) h (by simp)
    exact ⟨good_run hg hr, allGrow_run hg hr⟩

/-! ## What a whole run preserves -/

theorem reachable_good (hoff : cfg.eraseinfoflag = false) {s : NetState ι E}
    (h : (antiEntropy cfg ops).Reachable s) : Good cfg s := by
  refine h.invariant (P := Good cfg) (fun _ h₀ => good_of_init h₀) fun t e t' hg hstep => ?_
  have hstep : NetStep cfg ops t e t' := hstep
  exact (step_good hoff hg hstep).1

/-- **Anti-entropy.** From any reachable state and along any further run, no node's time for a
crossing decreases, and every time stored at the end is that of a discovery of that crossing. -/
theorem antiEntropy_run (hoff : cfg.eraseinfoflag = false) {s s' : NetState ι E}
    {es : List (NetEvent ι)} (hs : (antiEntropy cfg ops).Reachable s)
    (hrun : (antiEntropy cfg ops).Run s es s') :
    (∀ i k v, (s.node i).blockednodeidAndTime.find k = some v →
      ∃ v', (s'.node i).blockednodeidAndTime.find k = some v' ∧ v ≤ v') ∧
    (∀ i k v, (s'.node i).blockednodeidAndTime.find k = some v →
      ∃ d ∈ s'.log, d.id = k ∧ v = stampOf d.time ∧ d.time ≤ s'.now) := by
  have hgood := reachable_good hoff hs
  have hstep : ∀ (t : NetState ι E) e t', Good cfg t → (antiEntropy cfg ops).step t e t' →
      Good cfg t' ∧ AllGrow t t' := by
    intro t e t' hg (h : NetStep cfg ops t e t')
    exact step_good hoff hg h
  constructor
  · -- growth of all stores is a preorder on good states
    have hrel := hrun.relates (P := Good cfg) (R := AllGrow) (fun t e t' hg h => (hstep t e t' hg h).1)
      (fun t hg i => (hg.node i).grows (found_ordered t))
      (fun t t' t'' h h' i => (h i).trans (h' i))
      (fun t e t' hg h => (hstep t e t' hg h).2) hgood
    exact hrel
  · intro i k v hv
    exact ((reachable_good hoff (hs.run hrun)).node i).store.known k v hv

end Steps

/-! ## A run of two nodes -/

def sampleNet : NetState Bool Unit where
  now := 10000000000
  node i := sampleNode .evcUser (if i then 0x0a000002 else 0x0a000001) 0
  sent := []
  log := []

theorem sampleNet_init : NetInit sampleNet :=
  ⟨fun _ => rfl, fun _ => rfl, rfl, rfl⟩

/-- One user has found a crossing blocked. -/
def sampleNetFound : NetState Bool Unit :=
  (sampleNet.record ⟨false, nodeID 10004, sampleNet.now⟩).run false
    ({ sampleNet.node false with
        blockednodeid := .insert .empty (nodeID 10004) ()
        blockednodeidAndTime := .insert .empty (nodeID 10004) (stampOf sampleNet.now) }, [])

/-- It says so in its next hello. -/
theorem sampleNet_run : ∃ s', (antiEntropy (sampleConfig false) sampleOps).Run sampleNet
    [.discover false (nodeID 10004), .hello false] s' := by
  have h₁ : NetStep (sampleConfig false) sampleOps sampleNet (.discover false (nodeID 10004))
    sampleNetFound := .discover (by decide) rfl
  obtain ⟨r, hr⟩ : ∃ r, sendHello (sampleConfig false) sampleNetFound.now
    (sampleNetFound.node false) = some r := ⟨_, rfl⟩
  exact ⟨_, .snoc (.snoc (.nil _) h₁) (NetStep.hello hr)⟩

theorem antiEntropy_run_sample : ∃ s',
    (antiEntropy (sampleConfig false) sampleOps).Run sampleNet
      [.discover false (nodeID 10004), .hello false] s' ∧
    (∀ i k v, (sampleNet.node i).blockednodeidAndTime.find k = some v →
      ∃ v', (s'.node i).blockednodeidAndTime.find k = some v' ∧ v ≤ v') ∧
    (∀ i k v, (s'.node i).blockednodeidAndTime.find k = some v →
      ∃ d ∈ s'.log, d.id = k ∧ v = stampOf d.time ∧ d.time ≤ s'.now) := by
  obtain ⟨s', hrun⟩ := sampleNet_run
  exact ⟨s', hrun, antiEntropy_run rfl ⟨sampleNet, [], sampleNet_init, .nil _⟩ hrun⟩

end Ns3.Ferry2
