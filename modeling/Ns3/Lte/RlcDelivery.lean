import Mathlib.Tactic.Ring
import Ns3.Lib.Run
import Ns3.Lte.RlcSegmentation

/-!
# What the receiver puts together

`ReassembleAndDeliver` joins the pieces of a PDU to what is kept, and discards
that when the sequence number is not the expected one. With all PDUs in order
the receiver delivers the SDUs of the sender; with losses, it delivers some of
them, each of them whole.
-/

namespace Ns3.Lte

open Ns3.Lib LteRlcUm

namespace LteRlcUm

/-- The receiver keeps the beginning of an SDU, or waits for one. -/
def Holds (s : LteRlcUm) : Option (List UInt8) → Prop
  | none => s.reassemblingState = .waitingS0Full
  | some k => s.reassemblingState = .waitingSiSf ∧ s.keepS0 = some k

theorem Holds.congr {s s' : LteRlcUm} {held : Option (List UInt8)} (h : s.Holds held)
    (hstate : s'.reassemblingState = s.reassemblingState) (hkeep : s'.keepS0 = s.keepS0) :
    s'.Holds held := by
  cases held with
  | none => exact hstate.trans h
  | some k => exact ⟨hstate.trans h.1, hkeep.trans h.2⟩

/-- A switch over the framing information has delivered and kept what a receiver of pieces has. -/
def Reassembles (s : LteRlcUm) (j : Joined UInt8) (r : Option (LteRlcUm × List (List UInt8))) :
    Prop :=
  ∃ state keep, r = some ({ s with
      reassemblingState := state
      keepS0 := keep
      sdusBuffer := [] }, j.delivered) ∧
    LteRlcUm.Holds { s with reassemblingState := state, keepS0 := keep, sdusBuffer := [] } j.held

variable {s : LteRlcUm} {c c' : List UInt8} {cs : List (List UInt8)} {first last : Bool}

theorem keepLast_eq (t : LteRlcUm) (ht : t.sdusBuffer = c :: cs) :
    t.keepLast = some ({ t with
      keepS0 := some ((c :: cs).getLast (List.cons_ne_nil c cs))
      sdusBuffer := [] }, (c :: cs).dropLast) := by
  unfold keepLast
  rw [ht, List.getLast?_eq_some_getLast (List.cons_ne_nil c cs)]
  rfl

theorem join_open (d : List (List UInt8)) :
    Joined.join ⟨d, none⟩ (framePieces true false (c :: cs)) =
      ⟨d ++ (c :: cs).dropLast, some ((c :: cs).getLast (List.cons_ne_nil c cs))⟩ := by
  rw [Joined.join_framePieces_open, List.getLast?_eq_some_getLast (List.cons_ne_nil c cs)]

theorem reassembleAnew_joins (hs : s.sdusBuffer = c :: cs) :
    s.Reassembles (Joined.join ⟨[], none⟩ (framePieces first last (c :: cs)))
      (s.reassembleAnew (framingInfo first last)) := by
  unfold reassembleAnew
  cases first <;> cases last
  · rw [if_neg (by decide), if_neg (by decide), if_neg (by decide), if_pos rfl]
    unfold popFront
    dsimp only
    rw [hs]
    cases cs with
    | nil => exact ⟨_, _, rfl, rfl⟩
    | cons c' cs =>
      rw [Joined.join_framePieces_false, join_open, if_neg (by simp)]
      exact ⟨.waitingSiSf, _, keepLast_eq { s with
        reassemblingState := .waitingSiSf
        sdusBuffer := c' :: cs } rfl, rfl, rfl⟩
  · rw [if_neg (by decide), if_neg (by decide), if_pos rfl]
    unfold popFront
    dsimp only
    rw [hs]
    cases cs with
    | nil => exact ⟨_, _, rfl, rfl⟩
    | cons c' cs =>
      rw [Joined.join_framePieces_false, Joined.join_framePieces_true]
      exact ⟨_, _, rfl, rfl⟩
  · rw [if_neg (by decide), if_pos rfl,
      keepLast_eq { s with reassemblingState := .waitingSiSf } hs, join_open]
    exact ⟨_, _, rfl, rfl, rfl⟩
  · rw [if_pos rfl, Joined.join_framePieces_true, hs]
    exact ⟨_, _, rfl, rfl⟩

theorem reassembleOn_joins {k : List UInt8} (hs : s.sdusBuffer = c :: cs) (hk : s.keepS0 = some k) :
    s.Reassembles (Joined.join ⟨[], some k⟩ (framePieces false last (c :: cs)))
      (s.reassembleOn (framingInfo false last)) := by
  unfold reassembleOn popFront
  dsimp only
  rw [hs, hk]
  cases last
  · rw [if_neg (by decide), if_pos rfl]
    cases cs with
    | nil => exact ⟨.waitingSiSf, _, rfl, rfl, rfl⟩
    | cons c' cs =>
      rw [Joined.join_framePieces_false, join_open]
      refine ⟨.waitingSiSf, _, ?_, rfl, rfl⟩
      simp only [Option.bind_eq_bind, Option.bind_some, Option.pure_def, List.head?_cons,
        List.tail_cons]
      rw [if_neg (by simp), keepLast_eq { s with
        reassemblingState := .waitingSiSf
        keepS0 := some k
        sdusBuffer := c' :: cs } rfl]
      rfl
  · rw [if_pos rfl]
    cases cs with
    | nil => exact ⟨_, _, rfl, rfl⟩
    | cons c' cs =>
      rw [Joined.join_framePieces_false, Joined.join_framePieces_true]
      exact ⟨_, _, rfl, rfl⟩

theorem reassemble_joins {lost : Bool} {held : Option (List UInt8)} (hs : s.sdusBuffer = c :: cs)
    (hheld : s.Holds held) (hfirst : lost = false → held ≠ none → first = false) :
    s.Reassembles (Joined.join ⟨[], if lost = true then none else held⟩
        (framePieces first last (c :: cs)))
      (s.reassemble lost (framingInfo first last)) := by
  unfold reassemble
  cases held with
  | none =>
    have hstate : s.reassemblingState = .waitingS0Full := hheld
    rw [hstate, ite_self]
    exact reassembleAnew_joins hs
  | some k =>
    obtain ⟨hstate, hk⟩ : s.reassemblingState = .waitingSiSf ∧ s.keepS0 = some k := hheld
    rw [hstate]
    cases lost with
    | false =>
      rw [hfirst rfl (Option.some_ne_none k)]
      exact reassembleOn_joins hs hk
    | true =>
      have hle : framingInfo first last ≤ framingInfo false false := by
        cases first <;> cases last <;> decide
      dsimp only
      rw [if_pos rfl, if_neg (by decide), if_pos hle]
      exact reassembleAnew_joins (s := { s with
        reassemblingState := .waitingSiSf
        keepS0 := none }) hs

/-! ## One PDU -/

theorem peekHeader_append {header : LteRlcHeader} (hvalid : header.Valid) (rest : List UInt8) :
    peekHeader (header.serialize ++ rest) = some header := by
  unfold peekHeader
  rw [hvalid.decodes rest]

/-- The data field is taken apart where its length indicators say. -/
theorem splitDataField_eq (hsmall : ∀ x ∈ (c :: cs).dropLast, x.length < 2048) :
    splitDataField (List.replicate cs.length 1 ++ [0])
      ((c :: cs).dropLast.map fun x => UInt16.ofNat x.length) (c :: cs).flatten =
        some (c :: cs) := by
  induction cs generalizing c with
  | nil =>
    show some [[c].flatten] = _
    rw [List.flatten_singleton]
  | cons c' cs ih =>
    have hlt : c.length < 2048 := hsmall c List.mem_cons_self
    have hlen : (UInt16.ofNat c.length).toNat = c.length :=
      UInt16.toNat_ofNat_of_lt' (Nat.lt_of_lt_of_le hlt (by decide))
    have hrest : ∀ x ∈ (c' :: cs).dropLast, x.length < 2048 := fun x hx =>
      hsmall x (List.mem_cons_of_mem _ hx)
    have hfits : c.length ≤ (c ++ (c' :: cs).flatten).length := by
      rw [List.length_append]
      exact Nat.le_add_right _ _
    rw [List.length_cons, List.replicate_succ, List.cons_append, List.dropLast_cons_cons,
      List.map_cons, List.flatten_cons, splitDataField, if_neg (by decide), hlen, if_pos hfits,
      if_pos (by decide), List.drop_left, List.take_left, ih hrest]
    rfl

/-- **One PDU**: what was kept is given up when the number is not the expected one, and the pieces
are joined to it. -/
theorem reassembleAndDeliver_joins {pdu : List UInt8} {sn : BitVec 10} {pieces : List (Piece UInt8)}
    {held : Option (List UInt8)} (hc : Carries pdu sn pieces) (hs : s.sdusBuffer = [])
    (hheld : s.Holds held)
    (hfirst : sn = s.expectedSeqNumber.value → held ≠ none → ∀ p ∈ pieces.head?, p.first = false) :
    let j : Joined UInt8 := ⟨[], if sn ≠ s.expectedSeqNumber.value then none else held⟩
    ∃ state keep expected, s.reassembleAndDeliver pdu = some ({ s with
        expectedSeqNumber := expected
        reassemblingState := state
        keepS0 := keep
        sdusBuffer := [] }, (j.join pieces).delivered) ∧ expected.value = sn + 1 ∧
      LteRlcUm.Holds { s with reassemblingState := state, keepS0 := keep }
        (j.join pieces).held := by
  obtain ⟨header, first, last, contents, rfl, hvalid, hlength, rfl, hframing, hne, hlis, hsmall,
    rfl⟩ := hc
  obtain ⟨c, cs, rfl⟩ := List.exists_cons_of_ne_nil hne
  have hcount : header.lengthIndicators.length = cs.length := by
    rw [hlis, List.length_map, List.length_dropLast]
    rfl
  unfold reassembleAndDeliver
  rw [peekHeader_append hvalid, Option.bind_eq_bind, Option.bind_some]
  dsimp only
  rw [hlength, List.drop_left, hvalid.bits, hcount, hlis, splitDataField_eq hsmall,
    Option.bind_eq_bind, Option.bind_some, hframing, hs, List.nil_append]
  set lost : Bool := decide (header.sequenceNumber.value ≠ s.expectedSeqNumber.value) with hlost
  set expected := if lost = true then header.sequenceNumber.add 1 else s.expectedSeqNumber.add 1
    with hexpected
  have hvalue : expected.value = header.sequenceNumber.value + 1 := by
    rw [hexpected]
    by_cases heq : header.sequenceNumber.value = s.expectedSeqNumber.value
    · rw [if_neg (by simp [hlost, heq])]
      show s.expectedSeqNumber.value + 1 = _
      rw [heq]
    · rw [if_pos (by simp [hlost, heq])]
      rfl
  have hbegins : lost = false → held ≠ none → first = false := by
    intro hfalse hsome
    have hhead := hfirst (by simpa [hlost] using hfalse) hsome
    cases cs with
    | nil => exact hhead _ rfl
    | cons c' cs => exact hhead _ rfl
  have hif : (if header.sequenceNumber.value ≠ s.expectedSeqNumber.value then none else held) =
      if lost = true then none else held := by
    simp only [hlost, decide_eq_true_eq]
  obtain ⟨state, keep, hresult, hholds⟩ : LteRlcUm.Reassembles { s with
      expectedSeqNumber := expected
      sdusBuffer := c :: cs }
      (Joined.join ⟨[], if lost = true then none else held⟩ (framePieces first last (c :: cs))) _ :=
    reassemble_joins rfl (hheld.congr rfl rfl) hbegins
  refine ⟨state, keep, expected, ?_, hvalue, ?_⟩
  · rw [hif]
    exact hresult
  · rw [hif]
    exact hholds.congr rfl rfl

/-! ## All PDUs in order -/

/-- The receiver has had every PDU before `sn`, and none from there on. -/
structure InOrder (s : LteRlcUm) (sn : BitVec 10) : Prop where
  vrUr : s.vrUr.value = sn
  vrUh : s.vrUh.value = sn
  expected : s.expectedSeqNumber.value = sn
  rxBuffer : s.rxBuffer = .empty
  timer : s.reorderingTimer = false
  sdusBuffer : s.sdusBuffer = []

/-- How far the numbers around the end of the window are from its beginning. -/
theorem sub_window (x : BitVec 10) : (x - (x - BitVec.ofNat 10 windowSize)).toNat = 512 ∧
    (x + 1 - (x - BitVec.ofNat 10 windowSize)).toNat = 513 ∧
    (x - (x + 1 - BitVec.ofNat 10 windowSize)).toNat = 511 := by
  have hend : x - (x - BitVec.ofNat 10 windowSize) = BitVec.ofNat 10 windowSize := by ring
  have hafter : x + 1 - (x - BitVec.ofNat 10 windowSize) = BitVec.ofNat 10 windowSize + 1 := by ring
  have hbefore : x - (x + 1 - BitVec.ofNat 10 windowSize) = BitVec.ofNat 10 windowSize - 1 := by
    ring
  rw [hend, hafter, hbefore]
  decide

/-- A number is inside the window that ends after it. -/
theorem inside_next {t : LteRlcUm} {a : SequenceNumber10} (ht : t.vrUh.value = a.value + 1) :
    t.isInsideReorderingWindow a =
      (true, { t with vrUh := t.vrUh.setModulusBase (t.vrUh.sub windowSize) }) := by
  unfold isInsideReorderingWindow
  dsimp only
  congr 1
  obtain ⟨hend, -, hbefore⟩ := sub_window t.vrUh.value
  obtain ⟨-, -, hinside⟩ := sub_window a.value
  refine decide_eq_true
    ⟨(SequenceNumber10.le_iff (by rfl)).mpr ?_, (SequenceNumber10.lt_iff (by rfl)).mpr ?_⟩
  · show (t.vrUh.value - _ - (t.vrUh.value - _)).toNat ≤ _
    rw [sub_self]
    exact Nat.zero_le _
  · show (a.value - (t.vrUh.value - BitVec.ofNat 10 windowSize)).toNat <
      (t.vrUh.value - (t.vrUh.value - BitVec.ofNat 10 windowSize)).toNat
    rw [hend, ht, hinside]
    decide

theorem not_inside_end {t : LteRlcUm} {a : SequenceNumber10} (ht : a.value = t.vrUh.value) :
    t.isInsideReorderingWindow a =
      (false, { t with vrUh := t.vrUh.setModulusBase (t.vrUh.sub windowSize) }) := by
  unfold isInsideReorderingWindow
  dsimp only
  congr 1
  exact decide_eq_false fun h => h.2.2 ht

/-- The window moves over the PDU that is in the reception buffer, which stays there. -/
theorem moveWindow_next {t : LteRlcUm} {a : SequenceNumber10} {p : List UInt8}
    (huh : a.value = t.vrUh.value) (hur : t.vrUr.value = a.value)
    (hrx : t.rxBuffer.entries = [(a.value.toNat, p)]) :
    t.moveWindow a =
      some ({ t with vrUh := (a.add 1).setModulusBase ((a.add 1).sub windowSize) }, []) := by
  have hvalue : (SequenceNumber10.ofNat a.value.toNat).value = a.value := by
    show BitVec.ofNat 10 a.value.toNat = a.value
    rw [BitVec.ofNat_toNat, BitVec.setWidth_eq]
  unfold moveWindow
  rw [not_inside_end huh]
  dsimp only
  rw [if_neg (by decide), hrx, reassembleOutsideWindow,
    inside_next (by rw [hvalue]; rfl)]
  dsimp only
  rw [if_pos rfl, Option.bind_eq_bind, Option.bind_some]
  dsimp only
  rw [inside_next (by rw [hur]; rfl)]
  rfl

/-- The only PDU in the reception buffer is the next one. -/
theorem deliverInOrder_next {t t' : LteRlcUm} {p : List UInt8} {out : List (List UInt8)}
    (hbase : t.vrUr.modulusBase = t.vrUr.value - BitVec.ofNat 10 windowSize)
    (hrx : t.rxBuffer = StdMap.empty.assign t.vrUr.value.toNat p)
    (hdeliver : { t with vrUr := t.vrUr.add 1 }.reassembleAndDeliver p = some (t', out))
    (hrx' : t'.rxBuffer = t.rxBuffer) :
    t.deliverInOrder = some ({ t' with rxBuffer := .empty }, out) := by
  have hfind (k : ℕ) : t.rxBuffer.find k = if k = t.vrUr.value.toNat then some p else none := by
    rw [hrx, StdMap.find_assign, StdMap.find_empty]
  have hnext : firstMissing t.rxBuffer t.rxBuffer.size (t.vrUr.value.toNat + 1) =
      t.vrUr.value.toNat + 1 := by
    have hsize : t.rxBuffer.size = 1 := by
      rw [hrx]
      rfl
    rw [hsize, firstMissing, if_neg (by rw [StdMap.contains, hfind, if_neg (by omega)]; decide)]
  have hadd : { t.vrUr with value := BitVec.ofNat 10 (t.vrUr.value.toNat + 1) } = t.vrUr.add 1 := by
    unfold SequenceNumber10.add
    rw [BitVec.ofNat_add, BitVec.ofNat_toNat, BitVec.setWidth_eq]
  have hlt : t.vrUr.Lt (t.vrUr.add 1) := by
    obtain ⟨hend, hafter, -⟩ := sub_window t.vrUr.value
    refine (SequenceNumber10.lt_iff (by rfl)).mpr ?_
    show (t.vrUr.value - t.vrUr.modulusBase).toNat < (t.vrUr.value + 1 - t.vrUr.modulusBase).toNat
    rw [hbase, hend, hafter]
    decide
  have hempty : t'.rxBuffer.erase t.vrUr.value.toNat = .empty := by
    refine StdMap.ext fun k => ?_
    rw [StdMap.find_erase, hrx', hfind, StdMap.find_empty]
    split <;> rfl
  unfold deliverInOrder
  rw [if_pos (by rw [StdMap.contains, hfind, if_pos rfl]; rfl), hnext]
  dsimp only
  rw [hadd, snRounds, reassembleSnInterval, if_pos hlt]
  dsimp only
  rw [hfind, if_pos rfl]
  dsimp only
  rw [hdeliver, Option.bind_eq_bind, Option.bind_some]
  dsimp only
  rw [hempty, reassembleSnInterval, if_neg (fun h => h.2 rfl), Option.bind_some]
  dsimp only
  rw [List.append_nil]
  rfl

theorem updateReorderingTimer_inOrder {t : LteRlcUm} (htimer : t.reorderingTimer = false)
    (hvalue : t.vrUh.value = t.vrUr.value) :
    ∃ ur ux uh, t.updateReorderingTimer = { t with vrUr := ur, vrUx := ux, vrUh := uh } ∧
      ur.value = t.vrUr.value ∧ uh.value = t.vrUr.value := by
  unfold updateReorderingTimer
  simp only [htimer, Bool.false_eq_true, false_and, if_false, true_and]
  rw [if_neg]
  · exact ⟨_, _, _, rfl, rfl, hvalue⟩
  · intro hgt
    have hgt' := (SequenceNumber10.gt_iff (by rfl)).mp hgt
    exact absurd hgt' (by
      show ¬ (t.vrUr.value - _).toNat < (t.vrUh.value - _).toNat
      rw [hvalue]
      exact Nat.lt_irrefl _)

/-- **A PDU that comes in order** is delivered at once. -/
theorem receivePdu_inOrder {pdu : List UInt8} {sn : BitVec 10} {pieces : List (Piece UInt8)}
    {held : Option (List UInt8)} (hs : s.InOrder sn) (hc : Carries pdu sn pieces)
    (hheld : s.Holds held) (hfirst : held ≠ none → ∀ p ∈ pieces.head?, p.first = false) :
    ∃ s', s.receivePdu pdu = some (s', (Joined.join ⟨[], held⟩ pieces).delivered) ∧
      s'.InOrder (sn + 1) ∧ s'.Holds (Joined.join ⟨[], held⟩ pieces).held := by
  obtain ⟨hur, huh, hexpected, hrx, htimer, hsdus⟩ := hs
  have hpeek : ∃ header, peekHeader pdu = some header ∧ header.sequenceNumber.value = sn := by
    obtain ⟨header, first, last, contents, rfl, hvalid, -, hsn, -⟩ := hc
    exact ⟨header, peekHeader_append hvalid _, hsn⟩
  obtain ⟨header, hheader, hsn⟩ := hpeek
  let base := s.vrUh.sub windowSize
  let a := header.sequenceNumber.setModulusBase ((s.vrUh.setModulusBase base).sub windowSize)
  let placed : LteRlcUm := { s with
    vrUr := s.vrUr.setModulusBase base
    vrUh := s.vrUh.setModulusBase base
    rxBuffer := s.rxBuffer.assign a.value.toNat pdu }
  let moved := { placed with vrUh := (a.add 1).setModulusBase ((a.add 1).sub windowSize) }
  have hmove : placed.moveWindow a = some (moved, []) :=
    moveWindow_next (hsn.trans huh.symm) (hur.trans hsn.symm) (by
      show (s.rxBuffer.assign a.value.toNat pdu).entries = [(a.value.toNat, pdu)]
      rw [hrx]
      rfl)
  have hjoins := reassembleAndDeliver_joins (s := { moved with vrUr := moved.vrUr.add 1 }) hc hsdus
    (hheld.congr rfl rfl) fun _ => hfirst
  have hsame : ¬ sn ≠ s.expectedSeqNumber.value := fun h => h hexpected.symm
  dsimp only at hjoins
  rw [show moved.expectedSeqNumber = s.expectedSeqNumber from rfl, if_neg hsame] at hjoins
  obtain ⟨state, keep, expected, hdeliver, hvalue, hholds⟩ := hjoins
  have hplace : moved.rxBuffer = StdMap.empty.assign moved.vrUr.value.toNat pdu := by
    show s.rxBuffer.assign header.sequenceNumber.value.toNat pdu =
      StdMap.empty.assign s.vrUr.value.toNat pdu
    rw [hrx, hsn, hur]
  have hbase : moved.vrUr.modulusBase = moved.vrUr.value - BitVec.ofNat 10 windowSize := by
    show s.vrUh.value - BitVec.ofNat 10 windowSize = s.vrUr.value - _
    rw [huh, hur]
  have hinorder := deliverInOrder_next hbase hplace hdeliver rfl
  obtain ⟨ur, ux, uh, htimer', hur', huh'⟩ := updateReorderingTimer_inOrder (t := {
    moved with
      vrUr := moved.vrUr.add 1
      expectedSeqNumber := expected
      reassemblingState := state
      keepS0 := keep
      sdusBuffer := []
      rxBuffer := .empty }) htimer (by
    show header.sequenceNumber.value + 1 = s.vrUr.value + 1
    rw [hsn, hur])
  have hnext : s.vrUr.value + 1 = sn + 1 := by rw [hur]
  refine ⟨{ moved with
    vrUr := ur
    vrUx := ux
    vrUh := uh
    expectedSeqNumber := expected
    reassemblingState := state
    keepS0 := keep
    sdusBuffer := []
    rxBuffer := .empty }, ?_, ⟨hur'.trans hnext, huh'.trans hnext, hvalue, rfl, htimer, rfl⟩,
    hholds.congr rfl rfl⟩
  unfold receivePdu
  rw [hheader, Option.bind_eq_bind, Option.bind_some]
  dsimp only
  rw [if_neg (by
    rintro (⟨-, h, -⟩ | ⟨-, h⟩)
    · exact h.2 (hsn.trans huh.symm)
    · exact h.2 (hsn.trans hur.symm))]
  show (placed.moveWindow a).bind _ = _
  rw [hmove, Option.bind_some]
  show (moved.deliverInOrder).bind _ = _
  rw [hinorder, Option.bind_some]
  show some (updateReorderingTimer _, [] ++ _) = _
  rw [htimer']
  rfl

end LteRlcUm

end Ns3.Lte
