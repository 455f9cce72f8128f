import Ns3.Ferry2.Dtn
import Ns3.Ferry2.HeaderRoundTrip

/-!
# Shelter broadcasts and the duplicate cache

A shelter keys each broadcast by its address and a counter, and puts both into
the header object; the codec then leaves both out. The receiver looks up what
its own freshly built object holds: the default address and an uninitialised
word. So whether a broadcast is dropped depends on that word alone
(`drops_iff`), not on who sent the broadcast or which one it is.
-/

namespace Ns3.Ferry2

open Ns3.Lib
open Ns3.Lib.Wire

variable {E : Type}

/-! ## The codec -/

/-- What the receiver's object becomes: the sender's counts, its own address and broadcast id. -/
theorem shelterInfo_readsAs (into h : ShelterInfo) : shelterInfo.ReadsAs into h
    { into with shelterID := h.shelterID, exitNum := h.exitNum, time := h.time } := by
  have hrt : RoundTrip (shelterInfo.serialize h) (shelterInfo.read into)
      { into with shelterID := h.shelterID, exitNum := h.exitNum, time := h.time }
      (4 + (4 + (4 + 0))) := by
    refine (roundTrip_u32 _).cons ?_
    refine (roundTrip_u32 _).cons ?_
    refine (roundTrip_u32 _).cons ?_
    exact .nil _
  exact HeaderCodec.readsAs_of_roundTrip hrt rfl (by decide)

/-- `x` is a datagram of one run of `SendShelterInfoAsBroadcast`. -/
def IsShelterBroadcast (x : Datagram) : Prop :=
  ∃ (E : Type) (now : ℕ) (s s' : DtnNode E) (data : ShelterInfo) (out : List Datagram),
    sendShelterInfoAsBroadcast now s data = some (s', out) ∧ x ∈ out

theorem isShelterBroadcast_bytes {x : Datagram} (h : IsShelterBroadcast x) :
    ∃ data, shelterPacket data = some x.bytes := by
  obtain ⟨E, now, s, s', data, out, hsend, hx⟩ := h
  simp only [sendShelterInfoAsBroadcast, Option.bind_eq_bind, Option.bind_eq_some_iff] at hsend
  obtain ⟨packet, hp, hout⟩ := hsend
  obtain ⟨-, rfl⟩ : _ ∧ _ = out := by simpa using hout
  obtain ⟨a, -, rfl⟩ := List.mem_map.mp hx
  exact ⟨_, hp⟩

/-! ## Receiving -/

/-- The receiver drops `x` as a duplicate. -/
def Drops (now : ℕ) (junk : UInt32) (n : DtnNode E) (x : Datagram) : Prop :=
  ∃ p data n', removeType x.bytes = some (.ofType .shelterData, p) ∧
    checkShelterData now junk n p = some (true, data, n')

/-- The receiver takes `x` and ends in the state `n'`. -/
def Handles (cfg : Config) (now : ℕ) (junk : UInt32) (n : DtnNode E) (x : Datagram)
    (n' : DtnNode E) : Prop :=
  ∃ p out, removeType x.bytes = some (.ofType .shelterData, p) ∧
    recvShelterDataAsBroadcast cfg now junk n p = some (n', out)

/-- The check on a shelter broadcast, whoever sent it. -/
theorem check_shelterBroadcast {x : Datagram} (h : IsShelterBroadcast x) (now : ℕ) (junk : UInt32)
    (n : DtnNode E) :
    ∃ p data, removeType x.bytes = some (.ofType .shelterData, p) ∧
      checkShelterData now junk n p =
        some ((n.idCache.isDuplicate now uninitializedAddress junk).1, data,
          { n with idCache := (n.idCache.isDuplicate now uninitializedAddress junk).2 }) := by
  obtain ⟨sent, hsent⟩ := isShelterBroadcast_bytes h
  obtain ⟨p, ha, hr⟩ := (shelterInfo_readsAs (freshShelterInfo junk) sent).stack []
  obtain ⟨q, ht, hrt⟩ := HeaderCodec.ReadsAs.stack
    (typeHeader_faithful .shelterData (.ofType .userData)) p
  have hq : x.bytes = q := by
    have : shelterPacket sent = some q := by simp [shelterPacket, ha, addType, ht]
    exact Option.some.inj (hsent.symm.trans this)
  refine ⟨p, { freshShelterInfo junk with
    shelterID := sent.shelterID, exitNum := sent.exitNum, time := sent.time }, hq ▸ hrt, ?_⟩
  simp only [checkShelterData, hr, Option.bind_eq_bind, Option.bind_some]
  rfl

/-- Only the default address and the junk word decide. -/
theorem drops_iff {x : Datagram} (h : IsShelterBroadcast x) {now : ℕ} {junk : UInt32}
    {n : DtnNode E} :
    Drops now junk n x ↔ n.idCache.Live now uninitializedAddress junk := by
  obtain ⟨p, data, hp, hc⟩ := check_shelterBroadcast h now junk n
  rw [← IdCache.isDuplicate_iff]
  constructor
  · rintro ⟨p', data', n', hp', hc'⟩
    obtain rfl : p = p' := by simpa [hp] using hp'
    rw [hc] at hc'
    exact congrArg Prod.fst (Option.some.inj hc')
  · intro hdup
    exact ⟨p, data, _, hp, by rw [hc, hdup]⟩

/-- A node's own broadcasts leave the keys of other addresses as they are. -/
theorem live_foldl_ifaces {c : IdCache} {now now' : ℕ} {ifaces : List Ipv4Address}
    {addr : Ipv4Address} {id id' : UInt32} (h : now ≤ now') (ha : addr ∉ ifaces) :
    (ifaces.foldl (fun c a => (c.isDuplicate now a id').2) c).Live now' addr id ↔
      c.Live now' addr id := by
  induction ifaces generalizing c with
  | nil => rfl
  | cons a ifaces ih =>
    obtain ⟨hne, hnot⟩ : addr ≠ a ∧ addr ∉ ifaces := by simpa using ha
    rw [List.foldl_cons, ih hnot, IdCache.live_isDuplicate h]
    simp [hne]

theorem live_sendHello {cfg : Config} {n n' : DtnNode E} {out : List Datagram} {now now' : ℕ}
    {addr : Ipv4Address} {id : UInt32} (hs : sendHello cfg now n = some (n', out))
    (h : now ≤ now') (ha : addr ∉ n.ifaces) :
    n'.idCache.Live now' addr id ↔ n.idCache.Live now' addr id := by
  simp only [sendHello] at hs
  split at hs
  · obtain ⟨rfl, -⟩ : _ = n' ∧ _ := by simpa using hs
    rfl
  · simp only [Option.bind_eq_bind, Option.bind_eq_some_iff] at hs
    obtain ⟨packet, -, hout⟩ := hs
    obtain ⟨rfl, -⟩ : _ = n' ∧ _ := by simpa using hout
    exact live_foldl_ifaces h ha

theorem live_updateShelterData {cfg : Config} {n n' : DtnNode E} {data : ShelterInfo}
    {out : List Datagram} {now now' : ℕ} {addr : Ipv4Address} {id : UInt32}
    (hs : updateShelterData cfg now n data = some (n', out)) (h : now ≤ now')
    (ha : addr ∉ n.ifaces) :
    n'.idCache.Live now' addr id ↔ n.idCache.Live now' addr id := by
  simp only [updateShelterData, Option.bind_eq_bind, Option.bind_eq_some_iff] at hs
  obtain ⟨old, -, hs⟩ := hs
  split at hs
  · split at hs
    · have hlive : n'.idCache.Live now' addr id ↔ _ := live_sendHello hs h ha
      exact hlive
    · obtain ⟨rfl, -⟩ : _ = n' ∧ _ := by simpa using hs
      rfl
  · obtain ⟨rfl, -⟩ : n = n' ∧ _ := by simpa using hs
    rfl

/-- What the receiver remembers once it has handled a broadcast that it had not seen. -/
theorem live_of_handles {cfg : Config} {now now' : ℕ} {junk : UInt32} {n n' : DtnNode E}
    {x : Datagram} {id : UInt32} (hx : IsShelterBroadcast x) (hnew : ¬ Drops now junk n x)
    (ha : uninitializedAddress ∉ n.ifaces) (hh : Handles cfg now junk n x n') (h : now ≤ now') :
    n'.idCache.Live now' uninitializedAddress id ↔
      n.idCache.Live now' uninitializedAddress id ∨
        (id = junk ∧ now' ≤ n.idCache.lifetime + now) := by
  obtain ⟨p, data, hp, hc⟩ := check_shelterBroadcast hx now junk n
  have hdup : (n.idCache.isDuplicate now uninitializedAddress junk).1 = false := by
    rw [drops_iff hx, ← IdCache.isDuplicate_iff] at hnew
    simpa using hnew
  obtain ⟨p', out, hp', hr⟩ := hh
  obtain rfl : p = p' := by simpa [hp] using hp'
  simp only [recvShelterDataAsBroadcast, hc, Option.bind_eq_bind, Option.bind_some, hdup,
    Bool.false_eq_true, if_false] at hr
  rw [live_updateShelterData hr h ha, IdCache.live_isDuplicate h]
  simp [hdup]

/-- **Shelter broadcasts.** Two broadcasts that the receiver has not seen, and a copy of the first
within the lifetime: the second is kept and the copy dropped exactly when the uninitialised words
differ for the two broadcasts (or the first entry has expired) and agree for the copy. -/
theorem shelterBroadcasts_kept_iff {cfg : Config} {n n₁ : DtnNode E} {x₁ x₂ : Datagram}
    {t₁ t₂ t₃ : ℕ} {j₁ j₂ j₃ : UInt32} (hx₁ : IsShelterBroadcast x₁) (hx₂ : IsShelterBroadcast x₂)
    (hifaces : uninitializedAddress ∉ n.ifaces)
    (hnew₁ : ¬ Drops t₁ j₁ n x₁) (hnew₂ : ¬ Drops t₁ j₂ n x₂) (hnew₃ : ¬ Drops t₁ j₃ n x₁)
    (hh : Handles cfg t₁ j₁ n x₁ n₁) (h₂ : t₁ ≤ t₂) (h₃ : t₁ ≤ t₃)
    (hlife : t₃ ≤ n.idCache.lifetime + t₁) :
    (¬ Drops t₂ j₂ n₁ x₂ ∧ Drops t₃ j₃ n₁ x₁) ↔
      (j₂ ≠ j₁ ∨ n.idCache.lifetime + t₁ < t₂) ∧ j₃ = j₁ := by
  have hold {t : ℕ} {j : UInt32} {x : Datagram} (hx : IsShelterBroadcast x)
      (hnew : ¬ Drops t₁ j n x) (ht : t₁ ≤ t) : ¬ n.idCache.Live t uninitializedAddress j := by
    rintro ⟨u, hu, ha, hi, he⟩
    rw [drops_iff hx] at hnew
    exact hnew ⟨u, hu, ha, hi, ht.trans he⟩
  have hsecond : Drops t₂ j₂ n₁ x₂ ↔ j₂ = j₁ ∧ t₂ ≤ n.idCache.lifetime + t₁ := by
    rw [drops_iff hx₂, live_of_handles hx₁ hnew₁ hifaces hh h₂]
    simp [hold hx₂ hnew₂ h₂]
  have hcopy : Drops t₃ j₃ n₁ x₁ ↔ j₃ = j₁ := by
    rw [drops_iff hx₁, live_of_handles hx₁ hnew₁ hifaces hh h₃]
    simp [hold hx₁ hnew₃ h₃, hlife]
  rw [hsecond, hcopy, not_and_or, not_le]

/-! ## Two shelters, one word -/

/-- A node with nothing stored but the two shelters' initial counts. -/
def sampleNode (nodeType : NodeType) (id : Ipv4Address) (broadcastId : UInt32) : DtnNode Unit where
  nodeType := nodeType
  userId := 0
  exited := false
  isWait := false
  id := id
  ifaces := [id]
  broadcastId := broadcastId
  idCache := .ofSecond
  requestBuffer := []
  requestCollecting := false
  lastHelloSeen := .empty
  aoiExitinfo := .ofList [("node/10004", (100, 0)), ("node/10005", (50, 0))]
  blockednodeid := .empty
  blockednodeidAndTime := .empty
  fullexitnodeid := .empty
  increaseRate := .empty
  hop := .empty
  whileQuickHello := false
  isDijkstra := false
  user := ()

/-- The broadcast of shelter 10004 as its first, and that of shelter 10005 as its fifth. -/
def sampleBroadcast₁ : Datagram :=
  ⟨0x0a000065, none, [4, 0x14, 0x27, 0, 0, 99, 0, 0, 0, 5, 0, 0, 0]⟩
def sampleBroadcast₂ : Datagram :=
  ⟨0x0a000066, none, [4, 0x15, 0x27, 0, 0, 49, 0, 0, 0, 6, 0, 0, 0]⟩

theorem isShelterBroadcast₁ : IsShelterBroadcast sampleBroadcast₁ :=
  ⟨Unit, 5000000000, sampleNode .evcAP 0x0a000065 0, _, ⟨0, 0, 99, 10004, 5⟩, _, rfl, by decide⟩

theorem isShelterBroadcast₂ : IsShelterBroadcast sampleBroadcast₂ :=
  ⟨Unit, 6000000000, sampleNode .evcAP 0x0a000066 4, _, ⟨0, 0, 49, 10005, 6⟩, _, rfl, by decide⟩

theorem not_drops_sample (now : ℕ) (junk : UInt32) {x : Datagram} (hx : IsShelterBroadcast x) :
    ¬ Drops now junk (sampleNode .evcUser 0x0a000001 0) x := by
  rw [drops_iff hx]
  rintro ⟨u, hu, -⟩
  simp [sampleNode, IdCache.ofSecond] at hu

theorem handles_sample : ∃ n₁, Handles ⟨false, false, 0, false, 0⟩ 6000000000 0
    (sampleNode .evcUser 0x0a000001 0) sampleBroadcast₁ n₁ ∧ n₁.idCache.lifetime = 1000000000 :=
  ⟨_, ⟨_, _, rfl, rfl⟩, rfl⟩

theorem shelterBroadcasts_kept_iff_sample :
    ∃ n₁, Handles ⟨false, false, 0, false, 0⟩ 6000000000 0 (sampleNode .evcUser 0x0a000001 0)
        sampleBroadcast₁ n₁ ∧
      ((¬ Drops 6000000001 1 n₁ sampleBroadcast₂ ∧ Drops 6000000002 0 n₁ sampleBroadcast₁) ↔
        ((1 : UInt32) ≠ 0 ∨ 1000000000 + 6000000000 < 6000000001) ∧ (0 : UInt32) = 0) := by
  obtain ⟨n₁, hh, -⟩ := handles_sample
  refine ⟨n₁, hh, ?_⟩
  exact shelterBroadcasts_kept_iff isShelterBroadcast₁ isShelterBroadcast₂ (by decide)
    (not_drops_sample _ _ isShelterBroadcast₁) (not_drops_sample _ _ isShelterBroadcast₂)
    (not_drops_sample _ _ isShelterBroadcast₁) hh (by decide) (by decide) (by decide)

/-- Different shelters, different broadcast ids, the same word in memory: the second broadcast is
dropped right after the first. -/
theorem second_shelter_dropped :
    IsShelterBroadcast sampleBroadcast₁ ∧ IsShelterBroadcast sampleBroadcast₂ ∧
    sampleBroadcast₁.source ≠ sampleBroadcast₂.source ∧
    ¬ Drops 6000000000 0 (sampleNode .evcUser 0x0a000001 0) sampleBroadcast₁ ∧
    ¬ Drops 6000000000 0 (sampleNode .evcUser 0x0a000001 0) sampleBroadcast₂ ∧
    ∃ n₁, Handles ⟨false, false, 0, false, 0⟩ 6000000000 0 (sampleNode .evcUser 0x0a000001 0)
        sampleBroadcast₁ n₁ ∧ Drops 6000000001 0 n₁ sampleBroadcast₂ := by
  refine ⟨isShelterBroadcast₁, isShelterBroadcast₂, by decide,
    not_drops_sample _ _ isShelterBroadcast₁, not_drops_sample _ _ isShelterBroadcast₂, ?_⟩
  obtain ⟨n₁, hh, -⟩ := handles_sample
  refine ⟨n₁, hh, ?_⟩
  rw [drops_iff isShelterBroadcast₂, live_of_handles isShelterBroadcast₁
    (not_drops_sample _ _ isShelterBroadcast₁) (by decide) hh (by decide)]
  exact .inr ⟨rfl, by decide⟩

end Ns3.Ferry2
