import Ns3.Lte.RlcWindow

/-!
# RLC entities over a network that loses and reorders

Runs in which PDUs are lost, repeated and displaced by less than the window,
and the reordering timer expires at any time. What is delivered is some of what
was accepted, and all of it if the timer never expires.
-/

namespace Ns3.Lte

open Ns3.Lib LteRlcUm

namespace Link

/-- VR(UR), by the sender's count. -/
def next (w : Link) : ℕ := w.top - (w.receiver.vrUh.value - w.receiver.vrUr.value).toNat

/-- A PDU is received that is less than 512 ahead of VR(UR), and no more than 512 behind VR(UH). -/
def InWindow (w : Link) : Event → Prop
  | .receivePdu x => w.top ≤ x + 512 ∧ x < w.next + 512
  | _ => True

instance (w : Link) : (e : Event) → Decidable (w.InWindow e)
  | .transmitPdcpPdu _ => inferInstanceAs (Decidable True)
  | .notifyTxOpportunity _ => inferInstanceAs (Decidable True)
  | .receivePdu x => inferInstanceAs (Decidable (w.top ≤ x + 512 ∧ x < w.next + 512))
  | .expireReorderingTimer => inferInstanceAs (Decidable True)

def pdu (w : Link) (x : ℕ) : List UInt8 := ((w.sent[x]?).map Prod.snd).getD []

/-- The receiver has the PDUs below `ur` behind it: those of `got`, and the others are lost. -/
structure Follows (w : Link) (F : ℕ → List (Piece UInt8)) (got : ℕ → Bool) (ur : ℕ) : Prop where
  received : w.top ≤ w.sent.length
  windowed : w.receiver.Windowed w.pdu ur w.top
  holds : w.receiver.Holds (Joined.through F got ur).held
  delivered : w.delivered = (Joined.through F got ur).delivered

variable {w w' : Link} {F G : ℕ → List (Piece UInt8)} {got got' : ℕ → Bool} {ur : ℕ}

theorem Follows.next_eq (h : w.Follows F got ur) : w.next = ur := by
  have hle := h.windowed.le
  have hwindow := h.windowed.window
  unfold next
  rw [h.windowed.vrUr, h.windowed.vrUh]
  simp only [BitVec.toNat_sub, BitVec.toNat_ofNat]
  omega

theorem Sent.received (h : w.Sent F) {x : ℕ} (hx : x < w.sent.length) : Received w.pdu F x := by
  have hget : w.sent[x]? = some w.sent[x] := List.getElem?_eq_getElem hx
  have hpdu : w.pdu x = w.sent[x].2 := by
    unfold pdu
    rw [hget]
    rfl
  refine ⟨?_, h.begins x hx⟩
  rw [hpdu]
  exact h.carries x _ hget

/-- What was put together does not depend on the PDUs that are still to come. -/
theorem Follows.recount (got' : ℕ → Bool) (h : w.Follows F got ur)
    (hgot : ∀ i < ur, got i = got' i) :
    w.Follows F got' ur := by
  have hthrough : Joined.through F got ur = Joined.through F got' ur :=
    Joined.through_congr (fun _ _ => rfl) hgot
  exact ⟨h.received, h.windowed, hthrough ▸ h.holds, hthrough ▸ h.delivered⟩

theorem Follows.congr (h : w.Follows F got ur) (hold : ∀ x < w.sent.length, G x = F x)
    (hsent : w.sent <+: w'.sent) (hreceiver : w'.receiver = w.receiver) (htop : w'.top = w.top)
    (hdelivered : w'.delivered = w.delivered) : w'.Follows G got ur := by
  have hur : ur ≤ w.sent.length := h.windowed.le.trans h.received
  have hthrough : Joined.through G got ur = Joined.through F got ur :=
    Joined.through_congr (fun i hi => hold i (Nat.lt_of_lt_of_le hi hur)) fun _ _ => rfl
  refine ⟨?_, ?_, ?_, ?_⟩
  · rw [htop]
    exact h.received.trans hsent.length_le
  · rw [hreceiver, htop]
    refine h.windowed.congr fun i hi => ?_
    have hi' : i < w.sent.length := Nat.lt_of_lt_of_le hi h.received
    obtain ⟨rest, hrest⟩ := hsent
    unfold pdu
    rw [← hrest, List.getElem?_append_left hi']
  · rw [hreceiver, hthrough]
    exact h.holds
  · rw [hdelivered, hthrough]
    exact h.delivered

theorem follows_receivePdu {x : ℕ} (hsent : w.Sent F) (h : w.Follows F got ur)
    (hlow : w.top ≤ x + 512) (hhigh : x < ur + 512) (henabled : x < w.sent.length) :
    ∃ w' got' ur', w.step (.receivePdu x) = some w' ∧ w'.Sent F ∧ w'.Follows F got' ur' ∧
      ((∀ i < ur, got i = true) → ∀ i < ur', got' i = true) := by
  have hmax : max w.top (x + 1) ≤ w.sent.length := Nat.max_le.mpr ⟨h.received, henabled⟩
  let got' i := if i < ur then got i else true
  have hbelow {i : ℕ} (hi : i < ur) : got i = got' i := (if_pos hi).symm
  obtain ⟨-, hwindowed, hholds, hdelivered⟩ := h.recount got' fun i hi => hbelow hi
  obtain ⟨ur', receiver, out, hreceive, hwindowed', hur, hholds', hthrough⟩ :=
    receivePdu_spec hwindowed hholds (fun i hi => if_neg (Nat.not_lt.mpr hi)) hlow hhigh
      fun i hi => hsent.received (Nat.lt_of_lt_of_le hi hmax)
  have hget : w.sent[x]? = some w.sent[x] := List.getElem?_eq_getElem henabled
  have hpdu : w.pdu x = w.sent[x].2 := by
    unfold pdu
    rw [hget]
    rfl
  refine ⟨{ w with
    receiver := receiver
    top := max w.top (x + 1)
    delivered := w.delivered ++ out }, got', ur', ?_, hsent.congr rfl rfl rfl,
    ⟨hmax, hwindowed', hholds', ?_⟩, fun hall i hi => ?_⟩
  · show (w.sent[x]?).bind _ = _
    rw [hget, Option.bind_some]
    show (w.receiver.receivePdu w.sent[x].2).bind _ = _
    rw [← hpdu, hreceive, Option.bind_some]
    rfl
  · show w.delivered ++ out = _
    rw [hthrough, hdelivered]
  · by_cases hlt : i < ur
    · rw [← hbelow hlt]
      exact hall i hlt
    · exact if_neg hlt

theorem follows_expireReorderingTimer (hsent : w.Sent F) (h : w.Follows F got ur)
    (henabled : w.receiver.reorderingTimer = true) :
    ∃ w' got' ur', w.step .expireReorderingTimer = some w' ∧ w'.Sent F ∧ w'.Follows F got' ur' := by
  let got' i := if i < ur then got i else w.receiver.rxBuffer.contains (i % 1024)
  obtain ⟨hreceived, hwindowed, hholds, hdelivered⟩ :=
    h.recount got' fun i hi => (if_pos hi).symm
  have hmissing : ur < w.top := of_decide_eq_true (hwindowed.timer.symm.trans henabled)
  obtain ⟨ur', receiver, out, hexpire, hwindowed', hur, hholds', hthrough⟩ :=
    expireReorderingTimer_spec hwindowed hholds hmissing
      (fun i hi _ => if_neg (Nat.not_lt.mpr hi))
      fun i hi => hsent.received (Nat.lt_of_lt_of_le hi hreceived)
  refine ⟨{ w with receiver := receiver, delivered := w.delivered ++ out }, got', ur', ?_,
    hsent.congr rfl rfl rfl, ⟨hreceived, hwindowed', hholds', ?_⟩⟩
  · show (if _ then _ else _) = _
    rw [if_pos henabled]
    show (w.receiver.expireReorderingTimer).bind _ = _
    rw [hexpire, Option.bind_some]
    rfl
  · show w.delivered ++ out = _
    rw [hthrough, hdelivered]

/-- One event of a run within the window. Only the timer gives a PDU up. -/
theorem follows_step {e : Event} (hsent : w.Sent F) (h : w.Follows F got ur) (hproper : Proper e)
    (hwindow : w.InWindow e) (henabled : w.Enabled e) :
    ∃ w' G got' ur', w.step e = some w' ∧ w'.Sent G ∧ w'.Follows G got' ur' ∧
      (e ≠ .expireReorderingTimer → (∀ i < ur, got i = true) → ∀ i < ur', got' i = true) := by
  cases e with
  | transmitPdcpPdu p =>
    obtain ⟨w', hstep, hsent', hreceiver, hsame, htop, hdelivered⟩ :=
      sent_transmitPdcpPdu hsent hproper
    exact ⟨w', F, got, ur, hstep, hsent',
      h.congr (fun _ _ => rfl) (by rw [hsame]) hreceiver htop hdelivered, fun _ hall => hall⟩
  | notifyTxOpportunity bytes =>
    obtain ⟨w', G, hstep, hsent', hold, hprefix, hreceiver, htop, hdelivered⟩ :=
      sent_notifyTxOpportunity hsent hproper
    exact ⟨w', G, got, ur, hstep, hsent', h.congr hold hprefix hreceiver htop hdelivered,
      fun _ hall => hall⟩
  | receivePdu x =>
    obtain ⟨hlow, hhigh⟩ : w.top ≤ x + 512 ∧ x < w.next + 512 := hwindow
    rw [h.next_eq] at hhigh
    obtain ⟨w', got', ur', hstep, hsent', h', hgot⟩ :=
      follows_receivePdu hsent h hlow hhigh henabled
    exact ⟨w', F, got', ur', hstep, hsent', h', fun _ => hgot⟩
  | expireReorderingTimer =>
    obtain ⟨w', got', ur', hstep, hsent', h'⟩ := follows_expireReorderingTimer hsent h henabled
    exact ⟨w', F, got', ur', hstep, hsent', h', fun hne => absurd rfl hne⟩

theorem follows_start (maxTxBufferSize : UInt32) (F : ℕ → List (Piece UInt8)) (got : ℕ → Bool) :
    (start maxTxBufferSize).Follows F got 0 :=
  ⟨Nat.le_refl 0, windowed_new _ _, rfl, rfl⟩

theorem windowed_of_reachable
    (h : (system.restrict fun w e => Proper e ∧ w.InWindow e).Reachable w) :
    ∃ F got ur, w.Sent F ∧ w.Follows F got ur := by
  refine h.invariant (P := fun w => ∃ F got ur, w.Sent F ∧ w.Follows F got ur) ?_ ?_
  · rintro _ ⟨size, rfl⟩
    exact ⟨fun _ => [], fun _ => false, 0, sent_start size _, follows_start size _ _⟩
  · rintro w e w' ⟨F, got, ur, hsent, hw⟩ ⟨⟨hproper, hwindow⟩, hstep⟩
    obtain ⟨w₁, G, got', ur', hstep₁, hsent', hw', -⟩ :=
      follows_step hsent hw hproper hwindow (enabled_of_step hstep)
    obtain rfl : w₁ = w' := Option.some.inj (hstep₁.symm.trans hstep)
    exact ⟨G, got', ur', hsent', hw'⟩

theorem all_of_reachable
    (h : (system.restrict fun w e =>
      Proper e ∧ w.InWindow e ∧ e ≠ .expireReorderingTimer).Reachable w) :
    ∃ F got ur, w.Sent F ∧ w.Follows F got ur ∧ ∀ i < ur, got i = true := by
  refine h.invariant (P := fun w => ∃ F got ur, w.Sent F ∧ w.Follows F got ur ∧
    ∀ i < ur, got i = true) ?_ ?_
  · rintro _ ⟨size, rfl⟩
    exact ⟨fun _ => [], fun _ => false, 0, sent_start size _, follows_start size _ _,
      fun i hi => absurd hi (Nat.not_lt_zero i)⟩
  · rintro w e w' ⟨F, got, ur, hsent, hw, hall⟩ ⟨⟨hproper, hwindow, hne⟩, hstep⟩
    obtain ⟨w₁, G, got', ur', hstep₁, hsent', hw', hgot⟩ :=
      follows_step hsent hw hproper hwindow (enabled_of_step hstep)
    obtain rfl : w₁ = w' := Option.some.inj (hstep₁.symm.trans hstep)
    exact ⟨G, got', ur', hsent', hw', hgot hne hall⟩

theorem Follows.delivered_prefix (h : w.Follows F got ur) :
    (Joined.upTo F ur).delivered <+: (Joined.upTo F w.sent.length).delivered :=
  Joined.delivered_upTo F (h.windowed.le.trans h.received)

/-- **Loss, repetition and displacement.** No entity gets stuck, what is delivered is some of what
was accepted, each SDU whole and in order. What is in the reception buffer was sent, and is numbered
from VR(UR) on and below VR(UH); VR(UR) itself only where it is a number 0. The timer runs exactly
while something is missing. -/
theorem delivers_some_of_reachable
    (h : (system.restrict fun w e => Proper e ∧ w.InWindow e).Reachable w) :
    (∀ e, Proper e → w.InWindow e → w.Enabled e → ∃ w', w.step e = some w') ∧
      w.delivered.Sublist w.accepted ∧
      (∀ k p, w.receiver.rxBuffer.find k = some p → ∃ y bytes, w.next ≤ y ∧ y < w.top ∧
        k = y % 1024 ∧ w.sent[y]? = some (bytes, p) ∧ (y = w.next → k = 0)) ∧
      (w.receiver.reorderingTimer = true ↔ w.next < w.top) := by
  obtain ⟨F, got, ur, hsent, hw⟩ := windowed_of_reachable h
  obtain ⟨rest, -, haccepted⟩ := hsent.exists_owed
  rw [hw.next_eq]
  refine ⟨fun e hproper hwindow henabled => ?_, ?_, fun k p hk => ?_, ?_⟩
  · obtain ⟨w', -, -, -, hstep, -⟩ := follows_step hsent hw hproper hwindow henabled
    exact ⟨w', hstep⟩
  · rw [hw.delivered, haccepted]
    exact (Joined.behind_through F got ur).1.trans
      (hw.delivered_prefix.trans (List.prefix_append _ _)).sublist
  · obtain ⟨y, hlow, hhigh, rfl, rfl⟩ := hw.windowed.buffered k p hk
    have hlt : y < w.sent.length := Nat.lt_of_lt_of_le hhigh hw.received
    have hget : w.sent[y]? = some w.sent[y] := List.getElem?_eq_getElem hlt
    refine ⟨y, w.sent[y].1, hlow, hhigh, rfl, ?_, ?_⟩
    · unfold pdu
      rw [hget]
      rfl
    · rintro rfl
      exact hw.windowed.first (Option.isSome_iff_exists.mpr ⟨_, hk⟩)
  · rw [hw.windowed.timer, decide_eq_true_iff]

/-- Three SDUs in three PDUs, of which the first is lost and the third is repeated. -/
theorem delivers_some_sample : ∃ w : Link, w.delivered.Sublist w.accepted ∧
    w.accepted = [[1], [2], [3]] ∧ w.delivered = [[2], [3]] := by
  have hrun : (System.exec step (fun w e => Proper e ∧ w.InWindow e) (start 100)
      [.transmitPdcpPdu [1], .notifyTxOpportunity 3, .transmitPdcpPdu [2], .notifyTxOpportunity 3,
        .transmitPdcpPdu [3], .notifyTxOpportunity 3, .receivePdu 2, .receivePdu 1,
        .expireReorderingTimer, .receivePdu 2]).map
      (fun w => (w.accepted, w.delivered)) = some ([[1], [2], [3]], [[2], [3]]) := by
    decide +kernel
  obtain ⟨w, hw, hview⟩ := System.reachable_of_exec (S := system) (fun _ _ _ => id) ⟨100, rfl⟩ hrun
  simp only [Prod.mk.injEq] at hview
  exact ⟨w, (delivers_some_of_reachable hw).2.1, hview.1, hview.2⟩

/-- **Repetition and displacement alone.** As long as the timer has not expired, what is delivered
is the beginning of what was accepted, and all of it once VR(UR) is past everything that was
sent. -/
theorem delivers_displaced_of_reachable
    (h : (system.restrict fun w e =>
      Proper e ∧ w.InWindow e ∧ e ≠ .expireReorderingTimer).Reachable w) :
    w.delivered <+: w.accepted ∧
      (w.sender.txBuffer = [] → w.next = w.sent.length → w.delivered = w.accepted) := by
  obtain ⟨F, got, ur, hsent, hw, hall⟩ := all_of_reachable h
  obtain ⟨rest, hsender, haccepted⟩ := hsent.exists_owed
  rw [hw.next_eq, hw.delivered, haccepted, Joined.through_eq_upTo hall]
  refine ⟨hw.delivered_prefix.trans (List.prefix_append _ _), fun hempty hpast => ?_⟩
  have howes := hsender.owes
  rw [hempty] at howes
  rw [hpast, howes.nil_inv.2, List.append_nil]

/-- One SDU in three PDUs that come the other way round. -/
theorem delivers_displaced_sample : ∃ w : Link, w.delivered = w.accepted ∧
    w.accepted = [[1, 2, 3]] := by
  have hrun : (System.exec step
      (fun w e => Proper e ∧ w.InWindow e ∧ e ≠ .expireReorderingTimer) (start 100)
      [.transmitPdcpPdu [1, 2, 3], .notifyTxOpportunity 3, .notifyTxOpportunity 3,
        .notifyTxOpportunity 3, .receivePdu 2, .receivePdu 1, .receivePdu 0]).map
      (fun w => (w.accepted, w.sender.txBuffer, w.next, w.sent.length)) =
        some ([[1, 2, 3]], [], 3, 3) := by
    decide +kernel
  obtain ⟨w, hw, hview⟩ := System.reachable_of_exec (S := system) (fun _ _ _ => id) ⟨100, rfl⟩ hrun
  simp only [Prod.mk.injEq] at hview
  obtain ⟨haccepted, hempty, hnext, hlength⟩ := hview
  exact ⟨w, (delivers_displaced_of_reachable hw).2 hempty (hnext.trans hlength.symm), haccepted⟩

end Link

end Ns3.Lte
