import Ns3.Lte.RlcDelivery

/-!
# Two RLC entities

A sender that SDUs and transmit opportunities come to, and a receiver that PDUs
of the sender come to. Every PDU that was sent can be received at any time, once,
more often or never, so that loss, repetition and reordering need no event of
their own. Without them, the SDUs that are delivered are the ones accepted.
-/

namespace Ns3.Lte

open Ns3.Lib LteRlcUm

structure Link where
  sender : LteRlcUm
  receiver : LteRlcUm
  /-- The SDUs that the sender had room for. -/
  accepted : List (List UInt8)
  /-- The PDUs, each with the bytes of its opportunity. -/
  sent : List (ℕ × List UInt8)
  /-- One more than the number of the last PDU, by the sender's count, that has been received. -/
  top : ℕ
  delivered : List (List UInt8)

namespace Link

def start (maxTxBufferSize : UInt32) : Link where
  sender := .new maxTxBufferSize
  receiver := .new maxTxBufferSize
  accepted := []
  sent := []
  top := 0
  delivered := []

inductive Event
  | transmitPdcpPdu (p : List UInt8)
  | notifyTxOpportunity (bytes : ℕ)
  | receivePdu (x : ℕ)
  | expireReorderingTimer
  deriving DecidableEq

def step (w : Link) : Event → Option Link
  | .transmitPdcpPdu p =>
    some { w with
      sender := w.sender.transmitPdcpPdu p
      accepted := if w.sender.Accepts p then w.accepted ++ [p] else w.accepted }
  | .notifyTxOpportunity bytes => do
    let (sender, pdu) ← w.sender.notifyTxOpportunity bytes
    return { w with sender := sender, sent := w.sent ++ pdu.toList.map fun pdu => (bytes, pdu) }
  | .receivePdu x => do
    let (_, pdu) ← w.sent[x]?
    let (receiver, out) ← w.receiver.receivePdu pdu
    return { w with
      receiver := receiver
      top := max w.top (x + 1)
      delivered := w.delivered ++ out }
  | .expireReorderingTimer =>
    if w.receiver.reorderingTimer = true then do
      let (receiver, out) ← w.receiver.expireReorderingTimer
      return { w with receiver := receiver, delivered := w.delivered ++ out }
    else none

def system : System Link Event where
  init w := ∃ maxTxBufferSize, w = start maxTxBufferSize
  step w e w' := w.step e = some w'

/-- What may happen: a timer fires that runs, and a PDU is received that was sent. -/
def Enabled (w : Link) : Event → Prop
  | .transmitPdcpPdu _ => True
  | .notifyTxOpportunity _ => True
  | .receivePdu x => x < w.sent.length
  | .expireReorderingTimer => w.receiver.reorderingTimer = true

/-- SDUs are not empty, and the header of a PDU fits the 16 bits of its length. -/
def Proper : Event → Prop
  | .transmitPdcpPdu p => p ≠ []
  | .notifyTxOpportunity bytes => bytes < 2 ^ 16
  | .receivePdu _ => True
  | .expireReorderingTimer => True

instance : (e : Event) → Decidable (Proper e)
  | .transmitPdcpPdu p => inferInstanceAs (Decidable (p ≠ []))
  | .notifyTxOpportunity bytes => inferInstanceAs (Decidable (bytes < 2 ^ 16))
  | .receivePdu _ => inferInstanceAs (Decidable True)
  | .expireReorderingTimer => inferInstanceAs (Decidable True)

/-! ## The sender -/

/-- What has been sent, with the pieces in each PDU. -/
structure Sent (w : Link) (F : ℕ → List (Piece UInt8)) : Prop where
  carries : ∀ x e, w.sent[x]? = some e → Carries e.2 (BitVec.ofNat 10 x) (F x)
  begins : ∀ x < w.sent.length, ∀ p ∈ (F x).head?, p.first = (Joined.upTo F x).held.isNone
  fits : ∀ e ∈ w.sent, e.2.length ≤ e.1
  number : w.sender.sequenceNumber.value = BitVec.ofNat 10 w.sent.length
  exists_owed : ∃ rest, Sender w.sender (Joined.upTo F w.sent.length).held rest ∧
    w.accepted = (Joined.upTo F w.sent.length).delivered ++ rest

/-- The receiver is only concerned with what the sender sends. -/
theorem Sent.congr {w w' : Link} {F : ℕ → List (Piece UInt8)} (h : w.Sent F)
    (hsender : w'.sender = w.sender) (haccepted : w'.accepted = w.accepted)
    (hsent : w'.sent = w.sent) : w'.Sent F := by
  obtain ⟨hcarries, hbegins, hfits, hnumber, howed⟩ := h
  refine ⟨?_, ?_, ?_, ?_, ?_⟩
  · rwa [hsent]
  · rwa [hsent]
  · rwa [hsent]
  · rwa [hsender, hsent]
  · rwa [hsender, hsent, haccepted]

theorem sent_start (maxTxBufferSize : UInt32) (F : ℕ → List (Piece UInt8)) :
    (start maxTxBufferSize).Sent F where
  carries x e h := by cases h
  begins x h := absurd h (Nat.not_lt_zero x)
  fits e h := absurd h List.not_mem_nil
  number := rfl
  exists_owed := ⟨[], ⟨.nothing, rfl⟩, rfl⟩

theorem sent_transmitPdcpPdu {w : Link} {F : ℕ → List (Piece UInt8)} {p : List UInt8}
    (h : w.Sent F) (hp : p ≠ []) : ∃ w', w.step (.transmitPdcpPdu p) = some w' ∧ w'.Sent F ∧
      w'.receiver = w.receiver ∧ w'.sent = w.sent ∧ w'.top = w.top ∧
      w'.delivered = w.delivered := by
  obtain ⟨hcarries, hbegins, hfits, hnumber, rest, hsender, haccepted⟩ := h
  refine ⟨_, rfl, ?_, rfl, rfl, rfl, rfl⟩
  by_cases haccepts : w.sender.Accepts p
  · have hsender' := transmitPdcpPdu_sender hsender hp haccepts
    refine ⟨hcarries, hbegins, hfits, ?_, rest ++ [p], hsender', ?_⟩
    · show (w.sender.transmitPdcpPdu p).sequenceNumber.value = _
      unfold transmitPdcpPdu
      rw [if_pos haccepts]
      exact hnumber
    · show (if _ then _ else _) = _
      rw [if_pos haccepts, haccepted, List.append_assoc]
  · have hsame : w.sender.transmitPdcpPdu p = w.sender := if_neg haccepts
    refine ⟨hcarries, hbegins, hfits, ?_, rest, ?_, ?_⟩
    · show (w.sender.transmitPdcpPdu p).sequenceNumber.value = _
      rw [hsame]
      exact hnumber
    · show Sender (w.sender.transmitPdcpPdu p) _ _
      rw [hsame]
      exact hsender
    · show (if _ then _ else _) = _
      rw [if_neg haccepts, haccepted]

theorem sent_notifyTxOpportunity {w : Link} {F : ℕ → List (Piece UInt8)} {bytes : ℕ}
    (h : w.Sent F) (hbytes : bytes < 2 ^ 16) :
    ∃ w' G, w.step (.notifyTxOpportunity bytes) = some w' ∧ w'.Sent G ∧
      (∀ x < w.sent.length, G x = F x) ∧ w.sent <+: w'.sent ∧
      w'.receiver = w.receiver ∧ w'.top = w.top ∧ w'.delivered = w.delivered := by
  obtain ⟨hcarries, hbegins, hfits, hnumber, rest, hsender, haccepted⟩ := h
  rcases notifyTxOpportunity_sends hsender hbytes with
    hnone | ⟨sender, pdu, pieces, done, rest', hsome,
    hle, hcarries', hrest, hdelivered, hsender', hhead, hsn⟩
  · refine ⟨w, F, ?_, ⟨hcarries, hbegins, hfits, hnumber, rest, hsender, haccepted⟩,
      fun _ _ => rfl, List.prefix_rfl, rfl, rfl, rfl⟩
    show (w.sender.notifyTxOpportunity bytes).bind _ = _
    rw [hnone, Option.bind_some]
    show some { w with sender := w.sender, sent := w.sent ++ [] } = some w
    rw [List.append_nil]
  · have hold : ∀ x < w.sent.length, Function.update F w.sent.length pieces x = F x := fun x hx =>
      Function.update_of_ne (Nat.ne_of_lt hx) _ _
    have hupTo : Joined.upTo (Function.update F w.sent.length pieces) w.sent.length =
        Joined.upTo F w.sent.length := Joined.upTo_congr hold
    refine ⟨{ w with sender := sender, sent := w.sent ++ [(bytes, pdu)] },
      Function.update F w.sent.length pieces, ?_, ⟨?_, ?_, ?_, ?_, ?_⟩, hold,
      List.prefix_append _ _, rfl, rfl, rfl⟩
    · show (w.sender.notifyTxOpportunity bytes).bind _ = _
      rw [hsome, Option.bind_some]
      rfl
    · intro x e hx
      rcases Nat.lt_trichotomy x w.sent.length with hlt | rfl | hgt
      · rw [hold x hlt]
        exact hcarries x e (by rwa [List.getElem?_append_left hlt] at hx)
      · rw [List.getElem?_concat_length] at hx
        cases hx
        rw [Function.update_self, ← hnumber]
        exact hcarries'
      · rw [List.getElem?_eq_none (by rw [List.length_append]; exact hgt)] at hx
        cases hx
    · intro x hx p hp
      rw [List.length_append, List.length_singleton] at hx
      rcases Nat.lt_succ_iff_lt_or_eq.mp hx with hlt | rfl
      · rw [hold x hlt] at hp
        rw [Joined.upTo_congr fun i hi => hold i (Nat.lt_trans hi hlt)]
        exact hbegins x hlt p hp
      · rw [Function.update_self] at hp
        rw [hupTo]
        exact hhead p hp
    · intro e he
      rcases List.mem_append.mp he with he | he
      · exact hfits e he
      · rwa [List.mem_singleton.mp he]
    · show sender.sequenceNumber.value = BitVec.ofNat 10 (w.sent ++ [(bytes, pdu)]).length
      rw [hsn, List.length_append, List.length_singleton, BitVec.ofNat_add, ← hnumber]
      rfl
    · have hnext : Joined.upTo (Function.update F w.sent.length pieces)
          (w.sent ++ [(bytes, pdu)]).length = (Joined.upTo F w.sent.length).join pieces := by
        rw [List.length_append, List.length_singleton, Joined.upTo, hupTo, Function.update_self]
      refine ⟨rest', ?_, ?_⟩
      · rw [hnext]
        exact hsender'
      · rw [hnext, hdelivered, List.append_assoc, ← hrest]
        exact haccepted

/-! ## All PDUs, in order -/

/-- The next PDU is the only one that is received. -/
def NextOnly (w : Link) : Event → Prop
  | .receivePdu x => x = w.top
  | _ => True

instance (w : Link) : (e : Event) → Decidable (w.NextOnly e)
  | .transmitPdcpPdu _ => inferInstanceAs (Decidable True)
  | .notifyTxOpportunity _ => inferInstanceAs (Decidable True)
  | .receivePdu x => inferInstanceAs (Decidable (x = w.top))
  | .expireReorderingTimer => inferInstanceAs (Decidable True)

/-- The receiver has had all PDUs so far, and holds what comes before the next one. -/
structure UpToDate (w : Link) (F : ℕ → List (Piece UInt8)) : Prop where
  received : w.top ≤ w.sent.length
  inOrder : w.receiver.InOrder (BitVec.ofNat 10 w.top)
  holds : w.receiver.Holds (Joined.upTo F w.top).held
  delivered : w.delivered = (Joined.upTo F w.top).delivered

theorem upToDate_receivePdu {w : Link} {F : ℕ → List (Piece UInt8)} (hsent : w.Sent F)
    (h : w.UpToDate F) (henabled : w.top < w.sent.length) :
    ∃ w', w.step (.receivePdu w.top) = some w' ∧ w'.Sent F ∧ w'.UpToDate F := by
  obtain ⟨-, hinorder, hholds, hdelivered⟩ := h
  have hget : w.sent[w.top]? = some w.sent[w.top] := List.getElem?_eq_getElem henabled
  have hbegins : (Joined.upTo F w.top).held ≠ none → ∀ p ∈ (F w.top).head?, p.first = false := by
    intro hsome p hp
    rw [hsent.begins w.top henabled p hp]
    exact Option.isNone_eq_false_iff.mpr (Option.isSome_iff_ne_none.mpr hsome)
  obtain ⟨receiver, hreceive, hinorder', hholds'⟩ :=
    receivePdu_inOrder hinorder (hsent.carries w.top _ hget) hholds hbegins
  have hmax : max w.top (w.top + 1) = w.top + 1 := Nat.max_eq_right (Nat.le_succ _)
  have hjoin := Joined.join_eq (Joined.upTo F w.top) (F w.top)
  refine ⟨{ w with
    receiver := receiver
    top := w.top + 1
    delivered := w.delivered ++
      (Joined.join ⟨[], (Joined.upTo F w.top).held⟩ (F w.top)).delivered },
    ?_, hsent.congr rfl rfl rfl, ⟨henabled, ?_, ?_, ?_⟩⟩
  · show (w.sent[w.top]?).bind _ = _
    rw [hget, Option.bind_some]
    show (w.receiver.receivePdu w.sent[w.top].2).bind _ = _
    rw [hreceive, Option.bind_some, hmax]
    rfl
  · show receiver.InOrder (BitVec.ofNat 10 (w.top + 1))
    rw [BitVec.ofNat_add]
    exact hinorder'
  · show receiver.Holds (Joined.join (Joined.upTo F w.top) (F w.top)).held
    rw [hjoin]
    exact hholds'
  · show _ = (Joined.join (Joined.upTo F w.top) (F w.top)).delivered
    rw [hjoin, hdelivered]

theorem UpToDate.congr {w w' : Link} {F G : ℕ → List (Piece UInt8)} (h : w.UpToDate F)
    (hold : ∀ x < w.sent.length, G x = F x) (hsent : w.sent <+: w'.sent)
    (hreceiver : w'.receiver = w.receiver) (htop : w'.top = w.top)
    (hdelivered : w'.delivered = w.delivered) : w'.UpToDate G := by
  have hupTo : Joined.upTo G w.top = Joined.upTo F w.top := Joined.upTo_congr fun i hi =>
    hold i (Nat.lt_of_lt_of_le hi h.received)
  refine ⟨?_, ?_, ?_, ?_⟩
  · rw [htop]
    exact h.received.trans hsent.length_le
  · rw [hreceiver, htop]
    exact h.inOrder
  · rw [hreceiver, htop, hupTo]
    exact h.holds
  · rw [hdelivered, htop, hupTo]
    exact h.delivered

/-- One event of a run in which the PDUs are received in order. -/
theorem upToDate_step {w : Link} {e : Event} {F : ℕ → List (Piece UInt8)} (hsent : w.Sent F)
    (h : w.UpToDate F) (hproper : Proper e) (hnext : w.NextOnly e) (henabled : w.Enabled e) :
    ∃ w' G, w.step e = some w' ∧ w'.Sent G ∧ w'.UpToDate G := by
  cases e with
  | transmitPdcpPdu p =>
    obtain ⟨w', hstep, hsent', hreceiver, hsame, htop, hdelivered⟩ :=
      sent_transmitPdcpPdu hsent hproper
    exact ⟨w', F, hstep, hsent', h.congr (fun _ _ => rfl) (by rw [hsame]) hreceiver htop hdelivered⟩
  | notifyTxOpportunity bytes =>
    obtain ⟨w', G, hstep, hsent', hold, hprefix, hreceiver, htop, hdelivered⟩ :=
      sent_notifyTxOpportunity hsent hproper
    exact ⟨w', G, hstep, hsent', h.congr hold hprefix hreceiver htop hdelivered⟩
  | receivePdu x =>
    obtain rfl : x = w.top := hnext
    obtain ⟨w', hstep, hsent', h'⟩ := upToDate_receivePdu hsent h henabled
    exact ⟨w', F, hstep, hsent', h'⟩
  | expireReorderingTimer =>
    have hrunning : w.receiver.reorderingTimer = true := henabled
    rw [h.inOrder.timer] at hrunning
    cases hrunning

theorem enabled_of_step {w w' : Link} {e : Event} (h : w.step e = some w') : w.Enabled e := by
  cases e with
  | transmitPdcpPdu p => trivial
  | notifyTxOpportunity bytes => trivial
  | receivePdu x =>
    obtain ⟨e, he, -⟩ := Option.bind_eq_some_iff.mp h
    exact (List.getElem?_eq_some_iff.mp he).1
  | expireReorderingTimer =>
    by_contra hstopped
    have hnone : w.step .expireReorderingTimer = none := if_neg hstopped
    rw [hnone] at h
    cases h

theorem upToDate_of_reachable {w : Link}
    (h : (system.restrict fun w e => Proper e ∧ w.NextOnly e).Reachable w) :
    ∃ F, w.Sent F ∧ w.UpToDate F := by
  refine h.invariant (P := fun w => ∃ F, w.Sent F ∧ w.UpToDate F) ?_ ?_
  · rintro _ ⟨size, rfl⟩
    exact ⟨fun _ => [], sent_start size _,
      ⟨Nat.le_refl 0, ⟨rfl, rfl, rfl, rfl, rfl, rfl⟩, rfl, rfl⟩⟩
  · rintro w e w' ⟨F, hsent, hw⟩ ⟨⟨hproper, hnext⟩, hstep⟩
    obtain ⟨w₁, G, hstep₁, hsent', hw'⟩ :=
      upToDate_step hsent hw hproper hnext (enabled_of_step hstep)
    obtain rfl : w₁ = w' := Option.some.inj (hstep₁.symm.trans hstep)
    exact ⟨G, hsent', hw'⟩

/-- **Segmentation and reassembly.** In every run in which the PDUs are received in order, each PDU
fits its opportunity, no entity gets stuck, what is delivered is the beginning of what was accepted,
and all of it when nothing waits and nothing is under way. -/
theorem delivers_all_of_reachable {w : Link}
    (h : (system.restrict fun w e => Proper e ∧ w.NextOnly e).Reachable w) :
    (∀ e ∈ w.sent, e.2.length ≤ e.1) ∧
      (∀ e, Proper e → w.NextOnly e → w.Enabled e → ∃ w', w.step e = some w') ∧
      w.delivered <+: w.accepted ∧
      (w.sender.txBuffer = [] → w.top = w.sent.length → w.delivered = w.accepted) := by
  obtain ⟨F, hsent, hw⟩ := upToDate_of_reachable h
  obtain ⟨rest, hsender, haccepted⟩ := hsent.exists_owed
  refine ⟨hsent.fits, fun e hproper hnext henabled => ?_, ?_, fun hempty hall => ?_⟩
  · obtain ⟨w', -, hstep, -⟩ := upToDate_step hsent hw hproper hnext henabled
    exact ⟨w', hstep⟩
  · rw [hw.delivered, haccepted]
    exact (Joined.delivered_upTo F hw.received).trans (List.prefix_append _ _)
  · have howes := hsender.owes
    rw [hempty] at howes
    rw [hw.delivered, haccepted, hall, howes.nil_inv.2, List.append_nil]

/-- Two SDUs in three PDUs. -/
def sampleEvents : List Event :=
  [.transmitPdcpPdu [1, 2, 3], .transmitPdcpPdu [4, 5, 6, 7], .notifyTxOpportunity 4,
    .notifyTxOpportunity 7, .receivePdu 0, .receivePdu 1, .notifyTxOpportunity 100, .receivePdu 2]

theorem delivers_all_sample : ∃ w : Link, w.delivered = w.accepted ∧
    w.accepted = [[1, 2, 3], [4, 5, 6, 7]] ∧ w.sent.map Prod.fst = [4, 7, 100] := by
  have hrun : (System.exec step (fun w e => Proper e ∧ w.NextOnly e) (start 100) sampleEvents).map
      (fun w => (w.accepted, w.sent.map Prod.fst, w.sender.txBuffer, w.top)) =
        some ([[1, 2, 3], [4, 5, 6, 7]], [4, 7, 100], [], 3) := by decide +kernel
  obtain ⟨w, hw, hview⟩ := System.reachable_of_exec (S := system) (fun _ _ _ => id) ⟨100, rfl⟩ hrun
  simp only [Prod.mk.injEq] at hview
  obtain ⟨haccepted, hsent, hempty, htop⟩ := hview
  have hall : w.top = w.sent.length := by
    rw [htop, ← List.length_map (f := Prod.fst), hsent]
    rfl
  exact ⟨w, (delivers_all_of_reachable hw).2.2.2 hempty hall, haccepted, hsent⟩

end Link

end Ns3.Lte
