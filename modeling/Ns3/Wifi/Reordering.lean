import Ns3.Lib.StdMap
import Ns3.Wifi.RecipientBlockAckAgreement

/-!
# MPDUs are passed up in order

Over numbers that count the laps, the buffer is an ordered map and the window
start only grows. As long as the window start is a sequence number, the buffer
of the agreement holds the entries of that map, each number modulo 4096
(`Holds`).
-/

namespace Ns3.Wifi

open Ns3.Lib

variable {μ : Type} {start n : ℕ}

/-! ## Distances within a lap -/

theorem intDistance_of_lap (h : start ≤ n) (h' : n < start + 4096) :
    intDistance (n % 4096) (start % 4096) = (n : ℤ) - start := by
  unfold intDistance seqnoSpaceSize
  rw [Int.tmod_eq_emod_of_nonneg (by omega)]
  omega

theorem getDistance_of_lap (h : start ≤ n) (h' : n < start + 4096) :
    getDistance (n % 4096) (start % 4096) = n - start := by
  unfold getDistance
  rw [intDistance_of_lap h h']
  omega

theorem forward_of_lap (h : start ≤ n) (h' : n < start + 4096) :
    forward (start % 4096) (n % 4096) = n - start := by
  unfold forward seqnoSpaceSize
  omega

theorem compare_of_lap {m : ℕ} (h : start ≤ n) (h' : n < start + 4096) (hm : start ≤ m)
    (hm' : m < start + 4096) : compare (start % 4096) (n % 4096) (m % 4096) = decide (n < m) := by
  unfold compare
  rw [intDistance_of_lap h h', intDistance_of_lap hm hm']
  refine decide_eq_decide.mpr ?_
  omega

/-- The number of the lap that a sequence number has, from the window start on. -/
theorem exists_lap (start : ℕ) {s : ℕ} (hs : s < 4096) :
    ∃ n, start ≤ n ∧ n < start + 4096 ∧ s = n % 4096 := by
  refine ⟨start + forward (start % 4096) s, Nat.le_add_right _ _, ?_, ?_⟩ <;>
    unfold forward seqnoSpaceSize <;> omega

/-! ## The buffer -/

/-- An MPDU with the sequence number that the agreement sees. -/
def narrow (it : ℕ × μ) : ℕ × μ := (it.1 % 4096, it.2)

/-- All numbers are in the lap that begins at `start`. -/
def InLap (start : ℕ) (es : List (ℕ × μ)) : Prop := ∀ it ∈ es, start ≤ it.1 ∧ it.1 < start + 4096

theorem insert_narrow {m : μ} {es : List (ℕ × μ)} (hes : InLap start es) (h : start ≤ n)
    (h' : n < start + 4096) :
    insert (start % 4096) (narrow (n, m)) (es.map narrow) =
      (StdMap.alterL n (fun o => some (o.getD m)) es).map narrow := by
  induction es with
  | nil => rfl
  | cons it es ih =>
    obtain ⟨hit, hit'⟩ := hes it List.mem_cons_self
    have ih := ih fun it' hmem => hes it' (List.mem_cons_of_mem _ hmem)
    unfold narrow at ih ⊢
    unfold StdMap.alterL
    rw [List.map_cons]
    unfold insert
    dsimp only
    rw [compare_of_lap hit hit' h h', compare_of_lap h h' hit hit']
    rcases Nat.lt_trichotomy it.1 n with hlt | heq | hgt
    · rw [if_pos (decide_eq_true hlt), if_neg (by omega), if_neg (by omega), ih]
      rfl
    · rw [if_neg (by simp [heq]), if_neg (by simp [heq]), if_neg (by omega), if_pos heq, heq]
      rfl
    · rw [if_neg (by simp; omega), if_pos (decide_eq_true hgt), if_pos hgt]
      rfl

/-- Below the new window start everything is passed up. -/
theorem untilFirstLost_narrow {es : List (ℕ × μ)} (hsorted : es.Pairwise fun a b => a.1 < b.1)
    (hes : InLap start es) : ∃ passed rest start', es = passed ++ rest ∧
      RecipientBlockAckAgreement.untilFirstLost (start % 4096) (es.map narrow) =
        (passed.map narrow, rest.map narrow, start' % 4096) ∧
      start ≤ start' ∧ (start' = start ∨ ∃ it ∈ passed, start' = it.1 + 1) ∧
      (∀ it ∈ passed, it.1 < start') ∧ ∀ it ∈ rest, start' < it.1 := by
  induction es generalizing start with
  | nil =>
    exact ⟨[], [], start, rfl, rfl, Nat.le_refl _, .inl rfl, fun _ hmem => (by cases hmem),
      fun _ hmem => (by cases hmem)⟩
  | cons it es ih =>
    obtain ⟨hfirst, hrest⟩ := List.pairwise_cons.mp hsorted
    obtain ⟨hit, hit'⟩ := hes it List.mem_cons_self
    by_cases heq : it.1 = start
    · have hnext : InLap (start + 1) es := by
        intro it' hmem
        have hlt := hfirst it' hmem
        have hbound := (hes it' (List.mem_cons_of_mem _ hmem)).2
        omega
      obtain ⟨passed, rest, start', hsplit, hloop, hle, hlast, hbelow, habove⟩ := ih hrest hnext
      refine ⟨it :: passed, rest, start', by rw [hsplit]; rfl, ?_, by omega, ?_, ?_, habove⟩
      · rw [List.map_cons]
        unfold RecipientBlockAckAgreement.untilFirstLost
        have hnarrow : (narrow it).1 = start % 4096 := by rw [← heq]; rfl
        have hstart : (start % 4096 + 1) % seqnoSpaceSize = (start + 1) % 4096 := by
          unfold seqnoSpaceSize
          omega
        rw [if_pos hnarrow, hstart, hloop]
        rfl
      · right
        rcases hlast with hlast | ⟨it', hmem, hlast⟩
        · exact ⟨it, List.mem_cons_self, by omega⟩
        · exact ⟨it', List.mem_cons_of_mem _ hmem, hlast⟩
      · intro it' hmem
        rcases List.mem_cons.mp hmem with rfl | hmem
        · omega
        · exact hbelow it' hmem
    · refine ⟨[], it :: es, start, rfl, ?_, Nat.le_refl _, .inl rfl,
        fun _ hmem => (by cases hmem), ?_⟩
      · rw [List.map_cons]
        unfold RecipientBlockAckAgreement.untilFirstLost
        have hnarrow : (narrow it).1 ≠ start % 4096 := by
          show it.1 % 4096 ≠ start % 4096
          omega
        rw [if_neg hnarrow]
        rfl
      · intro it' hmem
        rcases List.mem_cons.mp hmem with rfl | hmem
        · omega
        · have hlt := hfirst it' hmem
          omega

/-- In a sorted buffer, the numbers that are less than the new window start come first. -/
theorem lessThan_narrow (less : ℕ × μ → Bool) {es : List (ℕ × μ)}
    (hsorted : es.Pairwise fun a b => a.1 < b.1)
    (hless : ∀ it ∈ es, less (narrow it) = true ↔ it.1 < n) :
    ∃ passed rest, es = passed ++ rest ∧ (es.map narrow).takeWhile less = passed.map narrow ∧
      (es.map narrow).dropWhile less = rest.map narrow ∧
      (∀ it ∈ passed, it.1 < n) ∧ ∀ it ∈ rest, n ≤ it.1 := by
  induction es with
  | nil => exact ⟨[], [], rfl, rfl, rfl, fun _ hmem => (by cases hmem), fun _ hmem => (by cases hmem)⟩
  | cons it es ih =>
    obtain ⟨hfirst, hrest⟩ := List.pairwise_cons.mp hsorted
    obtain ⟨passed, rest, hsplit, htake, hdrop, hbelow, habove⟩ :=
      ih hrest fun it' hmem => hless it' (List.mem_cons_of_mem _ hmem)
    have hit := hless it List.mem_cons_self
    by_cases hlt : it.1 < n
    · refine ⟨it :: passed, rest, by rw [hsplit]; rfl, ?_, ?_, ?_, habove⟩
      · rw [List.map_cons, List.takeWhile_cons_of_pos (hit.mpr hlt), htake]
        rfl
      · rw [List.map_cons, List.dropWhile_cons_of_pos (hit.mpr hlt), hdrop]
      · intro it' hmem
        rcases List.mem_cons.mp hmem with rfl | hmem
        · exact hlt
        · exact hbelow it' hmem
    · refine ⟨[], it :: es, rfl, ?_, ?_, fun _ hmem => (by cases hmem), ?_⟩
      · rw [List.map_cons, List.takeWhile_cons_of_neg (mt hit.mp hlt)]
        rfl
      · rw [List.map_cons, List.dropWhile_cons_of_neg (mt hit.mp hlt)]
      · intro it' hmem
        rcases List.mem_cons.mp hmem with rfl | hmem
        · omega
        · have hlater := hfirst it' hmem
          omega

/-! ## The operations -/

/-- The agreement keeps the MPDUs in `buffered`. -/
structure Holds (r : RecipientBlockAckAgreement μ) (start : ℕ) (buffered : StdMap ℕ μ) : Prop where
  winStartB : r.winStartB = start % 4096
  bufferedMpdus : r.bufferedMpdus = buffered.entries.map narrow

/-- What is passed up are the MPDUs of `buffered` below the new window start, which is between
`first` and `last`; the others stay, and none of them is at the window start. -/
def PassesBelow (r : RecipientBlockAckAgreement μ) (first last : ℕ) (buffered : StdMap ℕ μ)
    (out : List (ℕ × μ) × RecipientBlockAckAgreement μ) : Prop :=
  ∃ passed buffered' start', buffered.entries = passed ++ StdMap.entries buffered' ∧
    out = (passed.map narrow, { r with
      winStartB := start' % 4096
      bufferedMpdus := buffered'.entries.map narrow }) ∧
    first ≤ start' ∧ start' ≤ last ∧
    (∀ it ∈ passed, it.1 < start') ∧ ∀ it ∈ buffered'.entries, start' < it.1

variable {r : RecipientBlockAckAgreement μ} {buffered : StdMap ℕ μ}

theorem Holds.insert (h : Holds r start buffered) (hlap : InLap start buffered.entries)
    (hn : start ≤ n) (hn' : n < start + 4096) (m : μ) :
    Holds { r with bufferedMpdus := insert r.winStartB (n % 4096, m) r.bufferedMpdus } start
      (buffered.insert n m) where
  winStartB := h.winStartB
  bufferedMpdus := by
    rw [h.winStartB, h.bufferedMpdus]
    exact insert_narrow hlap hn hn'

theorem Holds.untilFirstLost (h : Holds r start buffered) (hlap : InLap start buffered.entries)
    {last : ℕ} (hstart : start ≤ last) (hlast : ∀ it ∈ buffered.entries, it.1 < last) :
    PassesBelow r start last buffered r.passBufferedMpdusUntilFirstLost := by
  obtain ⟨passed, rest, start', hsplit, hloop, hle, hend, hbelow, habove⟩ :=
    untilFirstLost_narrow buffered.sorted hlap
  have hsorted : rest.Pairwise fun a b => a.1 < b.1 := by
    have hall := buffered.sorted
    rw [hsplit] at hall
    exact (List.pairwise_append.mp hall).2.1
  refine ⟨passed, ⟨rest, hsorted⟩, start', hsplit, ?_, hle, ?_, hbelow, habove⟩
  · unfold RecipientBlockAckAgreement.passBufferedMpdusUntilFirstLost
    rw [h.winStartB, h.bufferedMpdus, hloop]
  · rcases hend with heq | ⟨it, hmem, heq⟩
    · omega
    · have hbound := hlast it (by rw [hsplit]; exact List.mem_append_left _ hmem)
      omega

theorem Holds.moveWindow (h : Holds r start buffered) (hlap : InLap start buffered.entries)
    (hn : start ≤ n) (hn' : n < start + 4096) {last : ℕ} (hstart : n ≤ last)
    (hlast : ∀ it ∈ buffered.entries, it.1 < last) :
    PassesBelow r n last buffered (r.moveWindow (n % 4096)) := by
  have hless : ∀ it ∈ buffered.entries, decide (getDistance (narrow it).1 (start % 4096) <
      getDistance (n % 4096) (start % 4096)) = true ↔ it.1 < n := by
    intro it hit
    obtain ⟨hle, hlt⟩ := hlap it hit
    unfold narrow
    rw [decide_eq_true_eq, getDistance_of_lap hle hlt, getDistance_of_lap hn hn']
    omega
  obtain ⟨passed, rest, hsplit, htake, hdrop, hbelow, habove⟩ := lessThan_narrow
    (fun it => decide (getDistance it.1 (start % 4096) < getDistance (n % 4096) (start % 4096)))
    buffered.sorted hless
  have hsorted : rest.Pairwise fun a b => a.1 < b.1 := by
    have hall := buffered.sorted
    rw [hsplit] at hall
    exact (List.pairwise_append.mp hall).2.1
  have hmem : ∀ it ∈ rest, it ∈ buffered.entries := fun it hit => by
    rw [hsplit]
    exact List.mem_append_right _ hit
  have hfirst : r.passBufferedMpdusWithSeqNumberLessThan (n % 4096) = (passed.map narrow, { r with
      winStartB := n % 4096
      bufferedMpdus := rest.map narrow }) := by
    unfold RecipientBlockAckAgreement.passBufferedMpdusWithSeqNumberLessThan
    rw [h.winStartB, h.bufferedMpdus]
    dsimp only
    rw [htake, hdrop]
  have hheld : Holds { r with
      winStartB := n % 4096
      bufferedMpdus := rest.map narrow } n ⟨rest, hsorted⟩ := ⟨rfl, rfl⟩
  have hlap' : InLap n rest := fun it hit => ⟨habove it hit, by
    have hbound := (hlap it (hmem it hit)).2
    omega⟩
  obtain ⟨passed', buffered', start', hsplit', hout, hle, hend, hbelow', habove'⟩ :=
    hheld.untilFirstLost hlap' hstart fun it hit => hlast it (hmem it hit)
  refine ⟨passed ++ passed', buffered', start', ?_, ?_, hle, hend, ?_, habove'⟩
  · rw [hsplit, show rest = passed' ++ buffered'.entries from hsplit', List.append_assoc]
  · unfold RecipientBlockAckAgreement.moveWindow
    rw [hfirst]
    dsimp only
    rw [hout, List.map_append]
  · intro it hit
    rcases List.mem_append.mp hit with hit | hit
    · exact Nat.lt_of_lt_of_le (hbelow it hit) hle
    · exact hbelow' it hit

/-! ## The steps -/

theorem mem_insert {it : ℕ × μ} {m : μ} (h : it ∈ (buffered.insert n m).entries) :
    it.1 = n ∨ it ∈ buffered.entries := StdMap.mem_alterL h

namespace Reception

variable {bufferSize : ℕ} {w w' : Reception μ}

/-- The buffer of an agreement between two frames. An agreement without a buffer keeps its two
windows at the same number. -/
structure Inv (bufferSize : ℕ) (w : Reception μ) (buffered : StdMap ℕ μ) : Prop where
  holds : Holds w.agreement w.winStart buffered
  winSizeB : w.agreement.winSizeB = bufferSize
  scoreboard : w.agreement.scoreboard.getWinSize = bufferSize
  buffered : ∀ it ∈ buffered.entries, w.winStart < it.1 ∧ it.1 < w.winStart + bufferSize
  passedUp : w.passedUp.Pairwise fun a b => a.1 < b.1
  numbered : ∀ it ∈ w.passedUp, it.1 < w.winStart ∧ it.1 % 4096 = it.2.1
  noBuffer : bufferSize = 0 → w.agreement.scoreboard.winStart = w.agreement.winStartB

/-- What a step gives to `passUp`. -/
theorem Inv.passUp {buffered₀ : StdMap ℕ μ} (h : Inv bufferSize w buffered₀) {first last : ℕ}
    {out : List (ℕ × μ) × RecipientBlockAckAgreement μ}
    (hpass : PassesBelow r first last buffered out) (hsize : r.winSizeB = bufferSize)
    (hscoreboard : r.scoreboard.getWinSize = bufferSize) (hlap : InLap w.winStart buffered.entries)
    (hfirst : w.winStart ≤ first) (hlast : last < w.winStart + 4096)
    (hbound : ∀ it ∈ buffered.entries, it.1 < first + bufferSize)
    (hempty : bufferSize = 0 → out.2.scoreboard.winStart = out.2.winStartB) :
    ∃ buffered', Inv bufferSize (w.passUp out) buffered' := by
  obtain ⟨passed, buffered', start', hsplit, rfl, hle, hend, hbelow, habove⟩ := hpass
  have hstart : w.winStart + forward w.agreement.winStartB (start' % 4096) = start' := by
    rw [h.holds.winStartB, forward_of_lap (by omega) (by omega)]
    omega
  have hmem : ∀ it ∈ passed, w.winStart ≤ it.1 := fun it hit =>
    (hlap it (by rw [hsplit]; exact List.mem_append_left _ hit)).1
  have hnumber : ∀ it ∈ passed, w.winStart + forward w.agreement.winStartB (it.1 % 4096) = it.1 := by
    intro it hit
    have hlo := hmem it hit
    have hhi := hbelow it hit
    rw [h.holds.winStartB, forward_of_lap hlo (by omega)]
    omega
  have hsorted : (passed ++ buffered'.entries).Pairwise fun a b => a.1 < b.1 := by
    rw [← hsplit]
    exact buffered.sorted
  have hpassed : ((passed.map narrow).map fun it =>
      (w.winStart + forward w.agreement.winStartB it.1, it.1, it.2)) =
        passed.map fun it => (it.1, it.1 % 4096, it.2) := by
    rw [List.map_map]
    refine List.map_congr_left fun it hit => ?_
    show (w.winStart + forward w.agreement.winStartB (it.1 % 4096), it.1 % 4096, it.2) = _
    rw [hnumber it hit]
  refine ⟨buffered',
    { holds := ⟨?_, rfl⟩
      winSizeB := hsize
      scoreboard := hscoreboard
      buffered := ?_
      passedUp := ?_
      numbered := ?_
      noBuffer := hempty }⟩
  · show start' % 4096 = (w.winStart + forward w.agreement.winStartB (start' % 4096)) % 4096
    rw [hstart]
  · intro it hit
    show w.winStart + forward w.agreement.winStartB (start' % 4096) < it.1 ∧
      it.1 < w.winStart + forward w.agreement.winStartB (start' % 4096) + bufferSize
    have hlo := habove it hit
    have hhi := hbound it (by rw [hsplit]; exact List.mem_append_right _ hit)
    rw [hstart]
    omega
  · show (w.passedUp ++ _).Pairwise _
    rw [hpassed]
    refine List.pairwise_append.mpr ⟨h.passedUp, ?_, ?_⟩
    · rw [List.pairwise_map]
      exact (List.pairwise_append.mp hsorted).1
    · intro a ha b hb
      obtain ⟨it, hit, rfl⟩ := List.mem_map.mp hb
      exact Nat.lt_of_lt_of_le (h.numbered a ha).1 (hmem it hit)
  · intro it hit
    show it.1 < w.winStart + forward w.agreement.winStartB (start' % 4096) ∧ _
    rw [hstart]
    change it ∈ w.passedUp ++ _ at hit
    rw [hpassed] at hit
    rcases List.mem_append.mp hit with hit | hit
    · obtain ⟨hlt, hnum⟩ := h.numbered it hit
      exact ⟨by omega, hnum⟩
    · obtain ⟨it', hit', rfl⟩ := List.mem_map.mp hit
      exact ⟨hbelow it' hit', rfl⟩

/-- Nothing is passed up. -/
theorem Inv.keep (h : Inv bufferSize w buffered) (r : RecipientBlockAckAgreement μ)
    (hstart : r.winStartB = w.agreement.winStartB)
    (hbuffer : r.bufferedMpdus = w.agreement.bufferedMpdus) :
    PassesBelow r w.winStart w.winStart buffered ([], r) := by
  refine ⟨[], buffered, w.winStart, rfl, ?_, Nat.le_refl _, Nat.le_refl _,
    fun _ hmem => (by cases hmem), fun it hit => (h.buffered it hit).1⟩
  rw [← h.holds.winStartB, ← h.holds.bufferedMpdus, ← hstart, ← hbuffer]
  rfl

/-- The scoreboard keeps its size; without any, only an old MPDU does not divide by zero. -/
theorem markReceived_spec {mpduSeqNumber : ℕ} {scoreboard : BlockAckWindow}
    (h : r.markReceived mpduSeqNumber = some scoreboard) :
    scoreboard.getWinSize = r.scoreboard.getWinSize ∧ (r.scoreboard.getWinSize = 0 →
      scoreboard = r.scoreboard ∧ 2048 ≤ getDistance mpduSeqNumber r.scoreboard.winStart % 2 ^ 16) := by
  unfold RecipientBlockAckAgreement.markReceived at h
  dsimp only at h
  split at h
  · rename_i hinside
    exact ⟨BlockAckWindow.getWinSize_mark h, fun hzero => by omega⟩
  · split at h
    · have hsize := BlockAckWindow.getWinSize_mark h
      rw [BlockAckWindow.getWinSize_advance] at hsize
      refine ⟨hsize, fun hzero => ?_⟩
      have hnonempty := (Option.ite_none_left_eq_some.mp h).1
      exact absurd ((BlockAckWindow.getWinSize_advance _).trans hzero) hnonempty
    · rename_i hold
      cases h
      exact ⟨rfl, fun _ => ⟨rfl, Nat.le_of_not_lt hold⟩⟩

theorem Inv.mpdu (h : Inv bufferSize w buffered) (hsize : bufferSize ≤ 1024) {mpduSeqNumber : ℕ}
    {mpdu : μ} (hseq : mpduSeqNumber < 4096) (hwrap : w.NoWrap (.mpdu mpduSeqNumber mpdu))
    {out : List (ℕ × μ) × RecipientBlockAckAgreement μ}
    (hout : w.agreement.notifyReceivedMpdu mpduSeqNumber mpdu = some out) :
    ∃ buffered', Inv bufferSize (w.passUp out) buffered' := by
  obtain ⟨scoreboard, hmark, rfl⟩ : ∃ scoreboard,
      w.agreement.markReceived mpduSeqNumber = some scoreboard ∧
        out = { w.agreement with scoreboard := scoreboard }.reorder mpduSeqNumber mpdu := by
    unfold RecipientBlockAckAgreement.notifyReceivedMpdu at hout
    split at hout
    · cases hout
    · rename_i scoreboard hmark
      exact ⟨scoreboard, hmark, (Option.some.inj hout).symm⟩
  obtain ⟨hscoreboard, hzero⟩ := markReceived_spec hmark
  rw [h.scoreboard] at hscoreboard hzero
  obtain ⟨n, hn, hn', rfl⟩ := exists_lap w.winStart hseq
  have hdistance : getDistance (n % 4096) w.agreement.winStartB % 2 ^ 16 = n - w.winStart := by
    rw [h.holds.winStartB, getDistance_of_lap hn hn']
    omega
  have hpositive : n - w.winStart < 2048 → 0 < bufferSize := by
    intro hnear
    by_contra hnone
    have hempty : bufferSize = 0 := by omega
    obtain ⟨-, hfar⟩ := hzero hempty
    rw [h.noBuffer hempty, hdistance] at hfar
    omega
  have hheld := h.holds
  have hlap : InLap w.winStart buffered.entries := fun it hit => by
    have hbounds := h.buffered it hit
    omega
  have hlap' : InLap w.winStart (buffered.insert n mpdu).entries := by
    intro it hit
    rcases mem_insert hit with heq | hit
    · omega
    · exact hlap it hit
  have hinsert : Holds { w.agreement with
      scoreboard := scoreboard
      bufferedMpdus := insert w.agreement.winStartB (n % 4096, mpdu) w.agreement.bufferedMpdus }
      w.winStart (buffered.insert n mpdu) := by
    obtain ⟨hstart, hbuffer⟩ := hheld.insert hlap hn hn' mpdu
    exact ⟨hstart, hbuffer⟩
  have hwinSize := h.winSizeB
  unfold RecipientBlockAckAgreement.reorder
  dsimp only
  rw [hdistance]
  by_cases hinside : n - w.winStart < w.agreement.winSizeB
  · rw [if_pos hinside]
    have hpass := hinsert.untilFirstLost hlap' (Nat.le_add_right _ 2048) fun it hit => by
      rcases mem_insert hit with heq | hit
      · omega
      · have hbounds := h.buffered it hit
        omega
    refine h.passUp hpass h.winSizeB hscoreboard hlap' (Nat.le_refl _) (by omega) ?_
      fun hempty => by omega
    intro it hit
    rcases mem_insert hit with heq | hit
    · omega
    · exact (h.buffered it hit).2
  · rw [if_neg hinside]
    by_cases hnear : n - w.winStart < 2048
    · have hsome := hpositive hnear
      have hlow : bufferSize ≤ n % 4096 + 1 := by
        have hforward : forward w.agreement.winStartB (n % 4096) = n - w.winStart := by
          rw [h.holds.winStartB, forward_of_lap hn hn']
        have hcondition : w.agreement.winSizeB ≤ forward w.agreement.winStartB (n % 4096) →
            forward w.agreement.winStartB (n % 4096) < 2048 →
              w.agreement.winSizeB ≤ n % 4096 + 1 := hwrap
        rw [hforward, h.winSizeB] at hcondition
        exact hcondition (by omega) hnear
      have hwindow : (((n % 4096 : ℕ) : ℤ) - w.agreement.winSizeB + 1) % 2 ^ 16 =
          ((n + 1 - bufferSize) % 4096 : ℕ) := by omega
      rw [if_pos hnear, hwindow, Int.toNat_natCast]
      have hbelow : ∀ it ∈ (buffered.insert n mpdu).entries, it.1 < n + 1 := by
        intro it hit
        rcases mem_insert hit with heq | hit
        · omega
        · have hbounds := h.buffered it hit
          omega
      have hpass := hinsert.moveWindow hlap' (by omega : w.winStart ≤ n + 1 - bufferSize) (by omega)
        (by omega : _ ≤ n + 1) hbelow
      refine h.passUp hpass h.winSizeB hscoreboard hlap' (by omega) (by omega) ?_
        fun hempty => by omega
      intro it hit
      have hlast := hbelow it hit
      omega
    · rw [if_neg hnear]
      refine h.passUp (h.keep { w.agreement with scoreboard := scoreboard } rfl rfl) h.winSizeB
        hscoreboard hlap (Nat.le_refl _) (by omega) (fun it hit => (h.buffered it hit).2)
        fun hempty => ?_
      rw [(hzero hempty).1]
      exact h.noBuffer hempty

theorem getWinSize_moveScoreboard (startingSequenceNumber : ℕ) :
    (r.moveScoreboard startingSequenceNumber).getWinSize = r.scoreboard.getWinSize := by
  unfold RecipientBlockAckAgreement.moveScoreboard
  dsimp only
  split
  · exact BlockAckWindow.getWinSize_advance _
  · split
    · exact BlockAckWindow.getWinSize_reset _
    · rfl

theorem Inv.bar (h : Inv bufferSize w buffered) (hsize : bufferSize ≤ 1024)
    {startingSequenceNumber : ℕ} (hseq : startingSequenceNumber < 4096) :
    ∃ buffered',
      Inv bufferSize (w.passUp (w.agreement.notifyReceivedBar startingSequenceNumber)) buffered' := by
  obtain ⟨n, hn, hn', rfl⟩ := exists_lap w.winStart hseq
  have hscoreboard : (w.agreement.moveScoreboard (n % 4096)).getWinSize = bufferSize :=
    (getWinSize_moveScoreboard _).trans h.scoreboard
  have hdistance : getDistance (n % 4096) w.agreement.winStartB % 2 ^ 16 = n - w.winStart := by
    rw [h.holds.winStartB, getDistance_of_lap hn hn']
    omega
  have hlap : InLap w.winStart buffered.entries := fun it hit => by
    have hbounds := h.buffered it hit
    omega
  have hheld : Holds { w.agreement with scoreboard := w.agreement.moveScoreboard (n % 4096) }
      w.winStart buffered := ⟨h.holds.winStartB, h.holds.bufferedMpdus⟩
  -- without a buffer both windows see the same distance
  have hreset : bufferSize = 0 → w.agreement.moveScoreboard (n % 4096) =
      if 0 < n - w.winStart ∧ n - w.winStart < 2048 then w.agreement.scoreboard.reset (n % 4096)
      else w.agreement.scoreboard := by
    intro hempty
    unfold RecipientBlockAckAgreement.moveScoreboard
    dsimp only
    rw [h.noBuffer hempty, hdistance, h.scoreboard, if_neg (by omega)]
  unfold RecipientBlockAckAgreement.notifyReceivedBar
  dsimp only
  rw [hdistance]
  by_cases hnear : 0 < n - w.winStart ∧ n - w.winStart < 2048
  · rw [if_pos hnear]
    have hpass := hheld.moveWindow hlap hn hn' (Nat.le_max_left n (w.winStart + bufferSize))
      fun it hit => by
        have hbounds := (h.buffered it hit).2
        omega
    refine h.passUp hpass h.winSizeB hscoreboard hlap hn (by omega) ?_ fun hempty => ?_
    · intro it hit
      have hbounds := h.buffered it hit
      omega
    · obtain ⟨passed, buffered', start', -, hout, hle, hend, -, -⟩ := hpass
      rw [hout]
      show (w.agreement.moveScoreboard (n % 4096)).winStart = start' % 4096
      rw [hreset hempty, if_pos hnear]
      show n % 4096 = start' % 4096
      have hmax : max n (w.winStart + bufferSize) = n := by omega
      omega
  · rw [if_neg hnear]
    refine h.passUp (h.keep { w.agreement with
        scoreboard := w.agreement.moveScoreboard (n % 4096) } rfl rfl) h.winSizeB hscoreboard hlap
      (Nat.le_refl _) (by omega) (fun it hit => (h.buffered it hit).2) fun hempty => ?_
    show (w.agreement.moveScoreboard (n % 4096)).winStart = w.agreement.winStartB
    rw [hreset hempty, if_neg hnear]
    exact h.noBuffer hempty

/-! ## Runs -/

theorem inv_of_reachable (hsize : bufferSize ≤ 1024)
    (h : ((system μ bufferSize).restrict NoWrap).Reachable w) :
    ∃ buffered, Inv bufferSize w buffered := by
  refine h.invariant (P := fun w => ∃ buffered, Inv bufferSize w buffered) ?_ ?_
  · rintro w ⟨startingSeq, hseq, rfl⟩
    exact ⟨StdMap.empty,
      { holds := ⟨(Nat.mod_eq_of_lt hseq).symm, rfl⟩
        winSizeB := rfl
        scoreboard := List.length_replicate
        buffered := fun it hit => by cases hit
        passedUp := .nil
        numbered := fun it hit => by cases hit
        noBuffer := fun _ => rfl }⟩
  · rintro w e w' ⟨buffered, hinv⟩ ⟨hwrap, hstep⟩
    change w.step e = some w' at hstep
    cases e with
    | mpdu mpduSeqNumber mpdu =>
      obtain ⟨hseq, hstep⟩ := Option.ite_none_right_eq_some.mp hstep
      split at hstep
      · cases hstep
      · rename_i out hout
        cases hstep
        exact hinv.mpdu hsize hseq hwrap hout
    | bar startingSequenceNumber =>
      obtain ⟨hseq, ⟨⟩⟩ := Option.ite_none_right_eq_some.mp hstep
      exact hinv.bar hsize hseq

/-- What is passed up is in order, counted from the moving window start, and what waits is in the
window, past its start. -/
structure InOrder (bufferSize : ℕ) (w : Reception μ) : Prop where
  winStartB : w.agreement.winStartB < seqnoSpaceSize
  winStart : w.agreement.winStartB = w.winStart % seqnoSpaceSize
  passedUp : w.passedUp.Pairwise fun a b => a.1 < b.1
  numbered : ∀ it ∈ w.passedUp, it.1 < w.winStart ∧ it.1 % seqnoSpaceSize = it.2.1
  buffered : ∀ it ∈ w.agreement.bufferedMpdus, it.1 < seqnoSpaceSize ∧
    forward w.agreement.winStartB it.1 < bufferSize
  waiting : ∀ it ∈ w.agreement.bufferedMpdus, it.1 ≠ w.agreement.winStartB

theorem Inv.inOrder (h : Inv bufferSize w buffered) (hsize : bufferSize ≤ 1024) :
    InOrder bufferSize w where
  winStartB := by
    rw [h.holds.winStartB]
    exact Nat.mod_lt _ (by decide)
  winStart := h.holds.winStartB
  passedUp := h.passedUp
  numbered := h.numbered
  buffered := by
    intro it hit
    rw [h.holds.bufferedMpdus] at hit
    obtain ⟨it, hmem, rfl⟩ := List.mem_map.mp hit
    obtain ⟨hlo, hhi⟩ := h.buffered it hmem
    refine ⟨Nat.mod_lt _ (by decide), ?_⟩
    show forward w.agreement.winStartB (it.1 % 4096) < bufferSize
    rw [h.holds.winStartB, forward_of_lap (Nat.le_of_lt hlo) (by omega)]
    omega
  waiting := by
    intro it hit
    rw [h.holds.bufferedMpdus] at hit
    obtain ⟨it, hmem, rfl⟩ := List.mem_map.mp hit
    obtain ⟨hlo, hhi⟩ := h.buffered it hmem
    rw [h.holds.winStartB]
    show it.1 % 4096 ≠ w.winStart % 4096
    omega

/-- **MPDUs are passed up in order**, as long as the window start does not go below zero. -/
theorem inOrder_of_reachable (hsize : bufferSize ≤ 1024)
    (h : ((system μ bufferSize).restrict NoWrap).Reachable w) : InOrder bufferSize w := by
  obtain ⟨buffered, hinv⟩ := inv_of_reachable hsize h
  exact hinv.inOrder hsize

/-- The second MPDU comes first and waits for the other. -/
theorem inOrder_of_reachable_sample : ∃ w : Reception Bool, InOrder 64 w ∧
    w.passedUp = [(4095, 4095, true), (4096, 0, false)] := by
  have hrun : (System.exec step NoWrap (⟨.new 64 4095, 4095, []⟩ : Reception Bool)
      [.mpdu 0 false, .mpdu 4095 true]).map passedUp =
        some [(4095, 4095, true), (4096, 0, false)] := by decide +kernel
  obtain ⟨w, hw, hview⟩ := System.reachable_of_exec (S := system Bool 64) (fun _ _ _ => id)
    ⟨4095, by decide, rfl⟩ hrun
  exact ⟨w, inOrder_of_reachable (by decide) hw, hview⟩

/-- The window ends at 10, and its start is computed as 10 - 64 + 1 in 16 bits. -/
theorem window_start_wraps : ∃ w : Reception Unit, (system Unit 64).Reachable w ∧
    w.agreement.winStartB = 65483 ∧ ¬ InOrder 64 w := by
  have hrun : (System.exec step (fun _ _ => True) (⟨.new 64 4000, 4000, []⟩ : Reception Unit)
      [.mpdu 10 ()]).map (fun w => w.agreement.winStartB) = some 65483 := by decide +kernel
  obtain ⟨w, hw, hview⟩ := System.reachable_of_exec (S := system Unit 64) (fun _ _ _ => id)
    ⟨4000, by decide, rfl⟩ hrun
  refine ⟨w, hw.of_restrict, hview, fun horder => ?_⟩
  have hbound := horder.winStartB
  rw [hview] at hbound
  exact absurd hbound (by decide)

end Reception

end Ns3.Wifi
