import Mathlib.Data.Int.ModEq
import Ns3.Wifi.OriginatorBlockAckAgreement
import Ns3.Wifi.Reordering

/-!
# The transmit window is the set of acknowledged numbers

Over numbers that count the laps, the slot at a distance from the head says
whether the number at that distance from the start is acknowledged (`Slots`).
No number past the window is, so to clear a slot and to move the head by one
is to move the start by one (`Slots.clear`); `AdvanceTxWindow` ends at the first
number that is not acknowledged.
-/

namespace Ns3.Wifi

open Ns3.Lib

variable {winSize start n : ℕ} {acked : ℕ → Bool} {t : BlockAckWindow}

/-! ## Slots -/

structure Slots (winSize start : ℕ) (acked : ℕ → Bool) (t : BlockAckWindow) : Prop where
  size : t.window.length = winSize
  head : t.head < winSize
  marked : ∀ distance < winSize, t.marked distance = some (acked (start + distance))
  beyond : ∀ n, start + winSize ≤ n → acked n = false

/-- The places of two distances from the head are not the same. -/
theorem slot_inj {head a b : ℕ} (ha : a < winSize) (hb : b < winSize)
    (h : (head + a) % winSize = (head + b) % winSize) : a = b :=
  Nat.ModEq.eq_of_lt_of_lt (Nat.ModEq.add_left_cancel' head h) ha hb

theorem Slots.replicate (hpos : 0 < winSize) (winStart : ℕ) (h : ∀ n, start ≤ n → acked n = false) :
    Slots winSize start acked ⟨winStart, List.replicate winSize false, 0⟩ where
  size := List.length_replicate
  head := hpos
  marked distance hlt := by
    unfold BlockAckWindow.marked
    rw [List.length_replicate, Nat.zero_add, Nat.mod_eq_of_lt hlt, h _ (Nat.le_add_right _ _)]
    exact List.getElem?_replicate_of_lt hlt
  beyond n hn := h n (by omega)

/-- The slot that is set is that of the number. -/
theorem Slots.mark (h : Slots winSize start acked t) {distance : ℕ} (hlt : distance < winSize) :
    ∃ t', t.mark distance = some t' ∧ t'.winStart = t.winStart ∧
      Slots winSize start (Function.update acked (start + distance) true) t' := by
  have hsize := h.size
  refine ⟨_, if_neg (by omega), rfl, ?_⟩
  refine
    { size := List.length_set.trans h.size
      head := h.head
      marked := fun d hd => ?_
      beyond := fun n hn => ?_ }
  · unfold BlockAckWindow.marked
    have hplace : (t.head + distance) % winSize < t.window.length := by
      rw [hsize]
      exact Nat.mod_lt _ (by omega)
    rw [List.length_set, hsize]
    by_cases heq : d = distance
    · subst heq
      rw [List.getElem?_set_self hplace, Function.update_self]
    · rw [List.getElem?_set_ne fun hsame => heq (slot_inj hlt hd hsame).symm,
        Function.update_of_ne (by omega), ← h.marked d hd, BlockAckWindow.marked, hsize]
  · rw [Function.update_of_ne (by omega)]
    exact h.beyond n hn

/-- One round of `Advance`. -/
theorem Slots.clear_one (h : Slots winSize start acked t) :
    Slots winSize (start + 1) acked
      { t with
        window := t.window.set t.head false
        head := (t.head + 1) % t.window.length } := by
  have hsize := h.size
  have hhead := h.head
  refine
    { size := List.length_set.trans h.size
      head := ?_
      marked := fun d hd => ?_
      beyond := fun n hn => h.beyond n (by omega) }
  · show (t.head + 1) % t.window.length < winSize
    rw [hsize]
    exact Nat.mod_lt _ (by omega)
  · unfold BlockAckWindow.marked
    dsimp only
    rw [List.length_set, hsize, Nat.mod_add_mod, Nat.add_assoc, Nat.add_comm 1 d]
    by_cases hlast : d + 1 = winSize
    · rw [hlast, Nat.add_mod_right, Nat.mod_eq_of_lt hhead, h.beyond _ (by omega)]
      exact List.getElem?_set_self (by omega)
    · have hother : t.head ≠ (t.head + (d + 1)) % winSize := by
        intro hsame
        have hzero : (t.head + 0) % winSize = (t.head + (d + 1)) % winSize := by
          rw [Nat.add_zero, Nat.mod_eq_of_lt hhead]
          exact hsame
        have := slot_inj (by omega) (by omega) hzero
        omega
      rw [List.getElem?_set_ne hother, Nat.add_assoc, Nat.add_comm 1 d,
        ← h.marked (d + 1) (by omega), BlockAckWindow.marked, hsize]

theorem Slots.clear (h : Slots winSize start acked t) (count : ℕ) :
    Slots winSize (start + count) acked (BlockAckWindow.clear count t) := by
  induction count generalizing start t with
  | zero => exact h
  | succ count ih =>
    have hnext := ih h.clear_one
    rw [Nat.add_assoc, Nat.add_comm 1 count] at hnext
    exact hnext

/-- `Advance` moves the start, also by more than the window. -/
theorem Slots.advance (h : Slots winSize start acked t) (hwin : t.winStart = start % 4096)
    (count : ℕ) : Slots winSize (start + count) acked (t.advance count) ∧
      (t.advance count).winStart = (start + count) % 4096 := by
  have hsize := h.size
  have hhead := h.head
  have hnext : (t.winStart + count) % seqnoSpaceSize = (start + count) % 4096 := by
    rw [hwin]
    exact Nat.mod_add_mod start 4096 count
  unfold BlockAckWindow.advance BlockAckWindow.getWinSize
  rw [hnext]
  split
  · rename_i hall
    refine ⟨?_, rfl⟩
    unfold BlockAckWindow.reset BlockAckWindow.init
    rw [hsize]
    exact .replicate (by omega) _ fun n hn => h.beyond n (by omega)
  · have hclear := h.clear count
    exact ⟨⟨hclear.size, hclear.head, hclear.marked, hclear.beyond⟩, rfl⟩

/-! ## `AdvanceTxWindow` -/

/-- The window starts at the first number, from `base` on, that is not acknowledged. -/
structure Settled (winSize base start : ℕ) (acked : ℕ → Bool) (t : BlockAckWindow) : Prop where
  slots : Slots winSize start acked t
  winStart : t.winStart = start % 4096
  le : base ≤ start
  bound : start ≤ base + winSize
  unacked : acked start = false
  before : ∀ n, base ≤ n → n < start → acked n = true

namespace OriginatorBlockAckAgreement

/-- The loop ends when it comes to a number that is not acknowledged. -/
theorem untilUnmarked_spec (fuel : ℕ) (h : Slots winSize start acked t)
    (hwin : t.winStart = start % 4096) (hn : start ≤ n) (hfuel : n < start + fuel)
    (hunacked : acked n = false) :
    ∃ start' t', untilUnmarked fuel t = some t' ∧ Slots winSize start' acked t' ∧
      t'.winStart = start' % 4096 ∧ start ≤ start' ∧ start' ≤ n ∧ acked start' = false ∧
      ∀ m, start ≤ m → m < start' → acked m = true := by
  have hhead := h.head
  induction fuel generalizing start t with
  | zero => omega
  | succ fuel ih =>
    unfold untilUnmarked
    rw [h.marked 0 (by omega), Nat.add_zero]
    cases hstart : acked start with
    | false => exact ⟨start, t, rfl, h, hwin, Nat.le_refl _, hn, hstart, fun m hm hm' => by omega⟩
    | true =>
      have hne : n ≠ start := by
        rintro rfl
        rw [hstart] at hunacked
        cases hunacked
      obtain ⟨hslots, hwin'⟩ := h.advance hwin 1
      obtain ⟨start', t', hloop, hslots', hwin'', hle, hle', hopen, hbefore⟩ :=
        ih hslots hwin' (by omega) (by omega) hslots.head
      refine ⟨start', t', hloop, hslots', hwin'', by omega, hle', hopen, fun m hm hm' => ?_⟩
      rcases Nat.eq_or_lt_of_le hm with rfl | hlt
      · exact hstart
      · exact hbefore m hlt hm'

/-- The number past the window is not acknowledged, so `AdvanceTxWindow` ends. -/
theorem advanceTxWindow_spec (h : Slots winSize start acked t) (hwin : t.winStart = start % 4096) :
    ∃ start' t', advanceTxWindow t = some t' ∧ Settled winSize start start' acked t' := by
  have hsize : t.getWinSize = winSize := h.size
  obtain ⟨start', t', hloop, hslots, hwin', hle, hle', hopen, hbefore⟩ :=
    untilUnmarked_spec (t.getWinSize + 1) h hwin (Nat.le_add_right start winSize)
      (by omega) (h.beyond _ (Nat.le_refl _))
  exact ⟨start', t', hloop, hslots, hwin', hle, hle', hopen, hbefore⟩

/-! ## The notifications -/

theorem distance_of_lap (hwin : t.winStart = start % 4096) (hn : start ≤ n)
    (hn' : n < start + 4096) : getDistance (n % 4096) t.winStart % 2 ^ 16 = n - start := by
  rw [hwin, getDistance_of_lap hn hn']
  omega

theorem not_old (hnear : n < start + 2048) : ¬ seqnoSpaceHalfSize ≤ n - start := by
  show ¬ 2048 ≤ n - start
  omega

/-- A number past the window becomes its last. -/
theorem notifyTransmittedMpdu_spec (h : Slots winSize start acked t)
    (hwin : t.winStart = start % 4096) (hopen : acked start = false) (hn : start ≤ n)
    (hnear : n < start + 2048) : ∃ start' t', notifyTransmittedMpdu t (n % 4096) = some t' ∧
      Settled winSize (max start (n + 1 - winSize)) start' acked t' := by
  have hsize : t.getWinSize = winSize := h.size
  have hhead := h.head
  unfold notifyTransmittedMpdu
  dsimp only
  rw [distance_of_lap hwin hn (by omega), hsize, if_neg (not_old hnear)]
  by_cases hpast : winSize ≤ n - start
  · obtain ⟨hslots, hwin'⟩ := h.advance hwin (n - start - winSize + 1)
    have hmax : max start (n + 1 - winSize) = start + (n - start - winSize + 1) := by omega
    rw [if_pos hpast, hmax]
    exact advanceTxWindow_spec hslots hwin'
  · have hmax : max start (n + 1 - winSize) = start := by omega
    rw [if_neg hpast, hmax]
    exact ⟨start, t, rfl, h, hwin, Nat.le_refl _, Nat.le_add_right _ _, hopen,
      fun m hm hm' => by omega⟩

theorem notifyAckedMpdu_spec (h : Slots winSize start acked t) (hwin : t.winStart = start % 4096)
    (hn : start ≤ n) (hnear : n < start + 2048) (hin : n < start + winSize) :
    ∃ start' t', notifyAckedMpdu t (n % 4096) = some t' ∧
      Settled winSize start start' (Function.update acked n true) t' := by
  obtain ⟨marked, hmark, hwin', hslots⟩ := h.mark (by omega : n - start < winSize)
  rw [Nat.add_sub_cancel' hn] at hslots
  unfold notifyAckedMpdu
  dsimp only
  rw [distance_of_lap hwin hn (by omega), if_neg (not_old hnear), hmark]
  exact advanceTxWindow_spec hslots (hwin'.trans hwin)

theorem notifyDiscardedMpdu_spec (h : Slots winSize start acked t)
    (hwin : t.winStart = start % 4096) (hn : start ≤ n) (hnear : n < start + 2048) :
    ∃ start' t', notifyDiscardedMpdu t (n % 4096) = some t' ∧
      Settled winSize (n + 1) start' acked t' := by
  obtain ⟨hslots, hwin'⟩ := h.advance hwin (n - start + 1)
  have hnext : start + (n - start + 1) = n + 1 := by omega
  rw [hnext] at hslots hwin'
  unfold notifyDiscardedMpdu
  dsimp only
  rw [distance_of_lap hwin hn (by omega), if_neg (not_old hnear)]
  exact advanceTxWindow_spec hslots hwin'

/-- An old MPDU changes nothing. -/
theorem notify_old (hwin : t.winStart = start % 4096) (hn : start + 2048 ≤ n)
    (hn' : n < start + 4096) (outcome : Outcome) : notify t ⟨outcome, n % 4096⟩ = some t := by
  have hdistance := distance_of_lap hwin (by omega : start ≤ n) hn'
  have hold : seqnoSpaceHalfSize ≤ n - start := by
    show 2048 ≤ n - start
    omega
  cases outcome <;>
    simp only [notify, notifyTransmittedMpdu, notifyAckedMpdu, notifyDiscardedMpdu, hdistance,
      if_pos hold]

end OriginatorBlockAckAgreement

/-! ## Runs -/

namespace Origination

open OriginatorBlockAckAgreement

variable {w : Origination}

/-- What `Tracks` says, with the slots as they are and the start by what is before it. -/
structure Inv (winSize : ℕ) (w : Origination) : Prop where
  slots : Slots winSize w.winStart (fun n => decide (w.Acked n)) w.txWindow
  winStart : w.txWindow.winStart = w.winStart % 4096
  first : w.first ≤ w.winStart
  unacked : ¬ w.Acked w.winStart
  before : ∀ n, w.first ≤ n → n < w.winStart → w.Acked n ∨ w.Passed n
  passed : ∀ n, w.Passed n → n < w.winStart

/-- The numbers that a notification passes. -/
def Passes (winSize : ℕ) (e : Notification) (n : ℕ) : Prop :=
  (e.outcome = .discarded ∧ n ≤ e.number) ∨ (e.outcome = .transmitted ∧ n + winSize ≤ e.number)

theorem Passed.cons_iff {e : Notification} {t : BlockAckWindow} {first start : ℕ}
    (hsize : w.txWindow.getWinSize = winSize) (hsize' : t.getWinSize = winSize) :
    Passed ⟨t, first, start, e :: w.notified⟩ n ↔ Passes winSize e n ∨ w.Passed n := by
  unfold Passed Passes
  rw [hsize, hsize']
  simp only [List.mem_cons, or_and_right, exists_or]
  obtain ⟨outcome, number⟩ := e
  cases outcome <;> simp [or_assoc, or_left_comm, and_comm]

/-- A notification that is not old: it moves the start to `base` and then past what is
acknowledged. -/
theorem Inv.record (h : Inv winSize w) {e : Notification} {base : ℕ}
    (hsettled : Settled winSize base start
      (fun n => decide ((⟨.acked, n⟩ : Notification) ∈ e :: w.notified)) t)
    (hbase : w.winStart ≤ base)
    (hpasses : ∀ n, w.winStart ≤ n → (Passes winSize e n ↔ n < base)) :
    Inv winSize ⟨t, w.first, start, e :: w.notified⟩ := by
  have hle := hsettled.le
  have hfirst := h.first
  refine
    { slots := hsettled.slots
      winStart := hsettled.winStart
      first := by show w.first ≤ start; omega
      unacked := of_decide_eq_false hsettled.unacked
      before := fun n hn hn' => ?_
      passed := fun n hn => ?_ }
  · change n < start at hn'
    rw [Passed.cons_iff h.slots.size hsettled.slots.size]
    by_cases hold : n < w.winStart
    · exact (h.before n hn hold).imp (List.mem_cons_of_mem e) .inr
    · by_cases hbelow : n < base
      · exact .inr (.inl ((hpasses n (by omega)).mpr hbelow))
      · exact .inl (of_decide_eq_true (hsettled.before n (by omega) hn'))
  · show n < start
    rcases (Passed.cons_iff h.slots.size hsettled.slots.size).mp hn with hn | hn
    · by_contra hge
      have := (hpasses n (by omega)).mp hn
      omega
    · have := h.passed n hn
      omega

/-- What becomes of a notification about the number `n`. -/
theorem Inv.notify (h : Inv winSize w) (outcome : Outcome) (hn : w.winStart ≤ n)
    (hnear : n < w.winStart + 2048) (hin : outcome = .acked → n < w.winStart + winSize) :
    ∃ base start t, Wifi.notify w.txWindow ⟨outcome, n % 4096⟩ = some t ∧
      Settled winSize base start
        (fun m => decide ((⟨.acked, m⟩ : Notification) ∈ ⟨outcome, n⟩ :: w.notified)) t ∧
      w.winStart ≤ base ∧ base ≤ n + 1 ∧
      (outcome = .transmitted → base ≤ n ∧ n < base + winSize ∧ start ≤ n) ∧
      ∀ m, w.winStart ≤ m → (Passes winSize ⟨outcome, n⟩ m ↔ m < base) := by
  have hpos : 0 < winSize := Nat.lt_of_le_of_lt (Nat.zero_le _) h.slots.head
  have hunacked : decide (w.Acked w.winStart) = false := decide_eq_false h.unacked
  -- only an acknowledgment marks a number
  have hsame : outcome ≠ .acked →
      (fun m => decide ((⟨.acked, m⟩ : Notification) ∈ ⟨outcome, n⟩ :: w.notified)) =
        fun m => decide (w.Acked m) := by
    intro hne
    funext m
    refine decide_eq_decide.mpr (List.mem_cons.trans (or_iff_right fun heq => ?_))
    cases heq
    exact hne rfl
  cases outcome with
  | transmitted =>
    obtain ⟨start, t, hnotify, hsettled⟩ :=
      notifyTransmittedMpdu_spec h.slots h.winStart hunacked hn hnear
    refine ⟨_, start, t, hnotify, by rw [hsame (by decide)]; exact hsettled,
      Nat.le_max_left _ _, by omega, fun _ => ⟨by omega, by omega, ?_⟩, fun m hm => ?_⟩
    · -- a marked number is before the end of the window, and this one is not
      by_contra hpast
      have hacked := hsettled.before n (by omega) (by omega)
      by_cases hinside : n < w.winStart + winSize
      · have hmax : max w.winStart (n + 1 - winSize) = w.winStart := by omega
        have := hsettled.before w.winStart (by omega) (by omega)
        rw [hunacked] at this
        cases this
      · have := h.slots.beyond n (by omega)
        rw [hacked] at this
        cases this
    · unfold Passes
      constructor
      · rintro (⟨⟨⟩, -⟩ | ⟨-, hfar⟩)
        change m + winSize ≤ n at hfar
        omega
      · intro hlt
        exact .inr ⟨rfl, by show m + winSize ≤ n; omega⟩
  | acked =>
    obtain ⟨start, t, hnotify, hsettled⟩ :=
      notifyAckedMpdu_spec h.slots h.winStart hn hnear (hin rfl)
    have hmarks : (fun m => decide ((⟨.acked, m⟩ : Notification) ∈ ⟨.acked, n⟩ :: w.notified)) =
        Function.update (fun m => decide (w.Acked m)) n true := by
      funext m
      by_cases heq : m = n
      · subst heq
        rw [Function.update_self]
        exact decide_eq_true List.mem_cons_self
      · rw [Function.update_of_ne heq]
        refine decide_eq_decide.mpr (List.mem_cons.trans (or_iff_right fun hmem => heq ?_))
        cases hmem
        rfl
    refine ⟨_, start, t, hnotify, by rw [hmarks]; exact hsettled, Nat.le_refl _, by omega,
      (fun hne => by cases hne), fun m hm => ?_⟩
    unfold Passes
    constructor
    · rintro (⟨⟨⟩, -⟩ | ⟨⟨⟩, -⟩)
    · intro hlt
      omega
  | discarded =>
    obtain ⟨start, t, hnotify, hsettled⟩ :=
      notifyDiscardedMpdu_spec h.slots h.winStart hn hnear
    refine ⟨_, start, t, hnotify, by rw [hsame (by decide)]; exact hsettled, by omega,
      Nat.le_refl _, (fun hne => by cases hne), fun m hm => ?_⟩
    unfold Passes
    constructor
    · rintro (⟨-, hle⟩ | ⟨⟨⟩, -⟩)
      exact Nat.lt_succ_of_le hle
    · intro hlt
      exact .inl ⟨rfl, Nat.le_of_lt_succ hlt⟩

/-- Every notification that may come is handled; the start does not move back, and a number that
is transmitted and not old is in the window then. -/
theorem Inv.step (h : Inv winSize w) (hsize : winSize ≤ 1024) {e : Notification}
    (hlegal : w.Legal e) : ∃ w', w.step e = some w' ∧ Inv winSize w' ∧ w.winStart ≤ w'.winStart ∧
      (e.outcome = .transmitted → w.ahead e < seqnoSpaceHalfSize →
        w'.winStart ≤ w.winStart + w.ahead e ∧ w.winStart + w.ahead e < w'.winStart + winSize) := by
  obtain ⟨hspace, hin⟩ := hlegal
  obtain ⟨outcome, s⟩ := e
  obtain ⟨n, hn, hn', rfl⟩ := exists_lap w.winStart hspace
  have hahead : w.ahead ⟨outcome, n % 4096⟩ = n - w.winStart := by
    unfold ahead
    rw [h.winStart]
    exact forward_of_lap hn hn'
  have hnumber : w.winStart + (n - w.winStart) = n := by omega
  unfold Origination.step
  rw [hahead, hnumber]
  by_cases hold : n - w.winStart < 2048
  · obtain ⟨base, start, t, hnotify, hsettled, hle, hbase, htransmitted, hpasses⟩ :=
      h.notify outcome hn (by omega) fun hacked => by
        have hsmall := hin hacked (by rw [hahead]; exact hold)
        rw [hahead, show w.txWindow.getWinSize = winSize from h.slots.size] at hsmall
        omega
    have hbound := hsettled.bound
    have hstart := hsettled.le
    have hforward : w.winStart + forward w.txWindow.winStart t.winStart = start := by
      rw [h.winStart, hsettled.winStart, forward_of_lap (by omega) (by omega)]
      omega
    rw [hnotify]
    dsimp only
    rw [hforward, if_pos hold]
    exact ⟨_, rfl, h.record hsettled hle hpasses, by show w.winStart ≤ start; omega,
      fun hsent _ => by
        obtain ⟨-, hlast, hfirst⟩ := htransmitted hsent
        exact ⟨hfirst, by show n < start + winSize; omega⟩⟩
  · have hforward : w.winStart + forward w.txWindow.winStart w.txWindow.winStart = w.winStart := by
      rw [h.winStart, forward_of_lap (Nat.le_refl _) (by omega)]
      omega
    rw [notify_old h.winStart (by omega) hn' outcome]
    dsimp only
    rw [hforward, if_neg hold]
    exact ⟨_, rfl, h, Nat.le_refl _, fun _ hnew => absurd hnew hold⟩

theorem Inv.tracks (h : Inv winSize w) : Tracks w winSize where
  size := h.slots.size
  winStart := h.winStart
  marked := h.slots.marked
  unmarked := by
    rw [h.slots.marked 0 (Nat.lt_of_le_of_lt (Nat.zero_le _) h.slots.head)]
    exact congrArg some (decide_eq_false h.unacked)
  earliest := by
    refine ⟨⟨h.first, h.unacked, fun hpassed => absurd (h.passed _ hpassed) (Nat.lt_irrefl _)⟩, ?_⟩
    rintro n ⟨hn, hunacked, hpassed⟩
    by_contra hlt
    exact (h.before n hn (by omega)).elim hunacked hpassed

theorem inv_of_reachable (hpos : 1 ≤ winSize) (hsize : winSize ≤ 1024)
    (h : (system winSize).Reachable w) : Inv winSize w := by
  refine h.invariant (P := Inv winSize) ?_ ?_
  · rintro w ⟨startingSeq, hseq, rfl⟩
    exact
      { slots := .replicate hpos startingSeq fun n _ => rfl
        winStart := (Nat.mod_eq_of_lt hseq).symm
        first := Nat.le_refl _
        unacked := List.not_mem_nil
        before := fun n hn hn' => absurd hn' (Nat.not_lt.mpr hn)
        passed := by
          rintro n (⟨m, ⟨⟩, -⟩ | ⟨m, ⟨⟩, -⟩) }
  · rintro w e w' hinv ⟨hlegal, hstep⟩
    obtain ⟨w'', hstep', hinv', -⟩ := hinv.step hsize hlegal
    rw [hstep] at hstep'
    cases hstep'
    exact hinv'

/-- **The transmit window is the set of acknowledged numbers** from the earliest that is neither
acknowledged nor passed. -/
theorem tracks_of_reachable (hpos : 1 ≤ winSize) (hsize : winSize ≤ 1024)
    (h : (system winSize).Reachable w) : Tracks w winSize ∧
      ∀ e, w.Legal e → ∃ w', w.step e = some w' ∧ w.winStart ≤ w'.winStart ∧
        (e.outcome = .transmitted → w.ahead e < seqnoSpaceHalfSize →
          w'.winStart ≤ w.winStart + w.ahead e ∧
            w.winStart + w.ahead e < w'.winStart + winSize) := by
  have hinv := inv_of_reachable hpos hsize h
  refine ⟨hinv.tracks, fun e hlegal => ?_⟩
  obtain ⟨w', hstep, -, hle, htransmitted⟩ := hinv.step hsize hlegal
  exact ⟨w', hstep, hle, htransmitted⟩

/-- A window of four around the end of the number space: 4095 is acknowledged, and 2 is just past
the window. -/
theorem tracks_of_reachable_sample : ∃ w : Origination, Tracks w 4 ∧ w.winStart = 4096 ∧
    ∃ w', w.step ⟨.transmitted, 4⟩ = some w' ∧ w.winStart ≤ w'.winStart := by
  have hrun : (System.exec step Legal ⟨.init 4094 4, 4094, 4094, []⟩
      [⟨.transmitted, 4094⟩, ⟨.acked, 4095⟩, ⟨.transmitted, 2⟩]).map
        (fun w => (w.winStart, decide (w.Legal ⟨.transmitted, 4⟩))) = some (4096, true) := by
    decide +kernel
  obtain ⟨w, hw, hview⟩ := System.reachable_of_exec (S := ⟨(system 4).init, fun w e w' =>
    w.step e = some w'⟩) (fun _ _ _ => id) ⟨4094, by decide, rfl⟩ hrun
  obtain ⟨htracks, hstep⟩ := tracks_of_reachable (by decide) (by decide) hw
  obtain ⟨hstart, hlegal⟩ := Prod.mk.inj hview
  obtain ⟨w', hw', hle, -⟩ := hstep _ (of_decide_eq_true hlegal)
  exact ⟨w, htracks, hstart, w', hw', hle⟩

/-- With 0 and 1 transmitted and 1 discarded, the window starts at 2, and nothing happened
to 0. -/
theorem start_passes_unacked : ∃ w : Origination, (system 64).Reachable w ∧
    ¬ IsLeast {n | w.first ≤ n ∧ ¬ w.Acked n ∧ ⟨.discarded, n⟩ ∉ w.notified} w.winStart := by
  have hrun : (System.exec step Legal ⟨.init 0 64, 0, 0, []⟩
      [⟨.transmitted, 0⟩, ⟨.transmitted, 1⟩, ⟨.discarded, 1⟩]).map
        (fun w => (w.first, w.winStart, w.notified)) =
          some (0, 2, [⟨.discarded, 1⟩, ⟨.transmitted, 1⟩, ⟨.transmitted, 0⟩]) := by
    decide +kernel
  obtain ⟨w, hw, hview⟩ := System.reachable_of_exec (S := ⟨(system 64).init, fun w e w' =>
    w.step e = some w'⟩) (fun _ _ _ => id) ⟨0, by decide, rfl⟩ hrun
  simp only [Prod.mk.injEq] at hview
  obtain ⟨hfirst, hstart, hnotified⟩ := hview
  refine ⟨w, hw, fun hleast => ?_⟩
  rw [hfirst, hstart] at hleast
  have hzero : 2 ≤ 0 := by
    refine hleast.2 ⟨Nat.le_refl 0, ?_, ?_⟩
    · unfold Acked
      rw [hnotified]
      decide
    · rw [hnotified]
      decide
  exact absurd hzero (by decide)

end Origination

end Ns3.Wifi
