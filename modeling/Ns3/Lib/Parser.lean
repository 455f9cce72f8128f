import Ns3.Lib.Wire

/-!
# Parsers that may read too far

A parser says how it ends: with a value, at an assertion, with a read outside
of the data that nothing checks, or not within the rounds it was given.
`Decodes P bs a` is the round trip of a field; `Within L bs P` says that `P`
reads no byte past the data, nor past the first `L` of them, and splits along
the binds.
-/

namespace Ns3.Lib

inductive Outcome (α : Type)
  | ok (a : α)
  | assertion
  | overrun
  | unfinished
  deriving DecidableEq

/-- How the parser ends on some data, and what it leaves unread. -/
structure Parser (α : Type) where
  run : List UInt8 → Outcome α × List UInt8
  suffix : ∀ bs, (run bs).2 <:+ bs

namespace Parser

variable {α β : Type}

/-- An end without a value. -/
def stop (o : Outcome α) : Parser α := ⟨fun bs => (o, bs), fun _ => List.suffix_rfl⟩

def bindRun (P : Parser α) (f : α → Parser β) (bs : List UInt8) : Outcome β × List UInt8 :=
  match P.run bs with
  | (.ok a, rest) => (f a).run rest
  | (.assertion, rest) => (.assertion, rest)
  | (.overrun, rest) => (.overrun, rest)
  | (.unfinished, rest) => (.unfinished, rest)

theorem suffix_bindRun (P : Parser α) (f : α → Parser β) (bs : List UInt8) :
    (bindRun P f bs).2 <:+ bs := by
  have hP := P.suffix bs
  unfold bindRun
  generalize P.run bs = r at hP
  obtain ⟨o, rest⟩ := r
  cases o with
  | ok a => exact ((f a).suffix rest).trans hP
  | assertion => exact hP
  | overrun => exact hP
  | unfinished => exact hP

instance : Monad Parser where
  pure a := stop (.ok a)
  bind P f := ⟨bindRun P f, suffix_bindRun P f⟩

/-- A byte, which is looked for with an assertion. -/
def readU8 : Parser UInt8 where
  run
    | [] => (.assertion, [])
    | b :: bs => (.ok b, bs)
  suffix
    | [] => List.suffix_rfl
    | b :: bs => List.suffix_cons b bs

/-- `n` bytes. Past the end of the data this runs into the assertion of a byte,
unless it starts in the last `tail` bytes, where nothing is checked. -/
def readBytes (tail n : ℕ) : Parser (List UInt8) where
  run bs :=
    if n ≤ bs.length then (.ok (bs.take n), bs.drop n)
    else if bs.length ≤ tail then (.overrun, bs)
    else (.assertion, [])
  suffix bs := by
    split
    · exact List.drop_suffix n bs
    · split
      · exact List.suffix_rfl
      · exact List.nil_suffix

/-- `NS_ASSERT`. -/
def check (p : Prop) [Decidable p] : Parser Unit := if p then pure () else stop .assertion

/-- A parser that is given the length of the data, to bound its rounds. -/
def withLength (f : ℕ → Parser α) : Parser α :=
  ⟨fun bs => (f bs.length).run bs, fun bs => (f bs.length).suffix bs⟩

def many (P : Parser α) : ℕ → Parser (List α)
  | 0 => pure []
  | n + 1 => do
    let a ← P
    let as ← many P n
    return a :: as

theorem run_pure (a : α) (bs : List UInt8) : (pure a : Parser α).run bs = (.ok a, bs) := rfl

theorem run_readU8 (b : UInt8) (bs : List UInt8) : readU8.run (b :: bs) = (.ok b, bs) := rfl

theorem run_bind (P : Parser α) (f : α → Parser β) (bs : List UInt8) :
    (P >>= f).run bs = bindRun P f bs := rfl

theorem run_bind_ok {P : Parser α} {f : α → Parser β} {bs rest : List UInt8} {a : α}
    (h : P.run bs = (.ok a, rest)) : (P >>= f).run bs = (f a).run rest := by
  rw [run_bind, bindRun, h]

/-- A value at the end is one of every part. -/
theorem ok_of_bind {P : Parser α} {f : α → Parser β} {bs rest : List UInt8} {b : β}
    (h : (P >>= f).run bs = (.ok b, rest)) :
    ∃ a bs', P.run bs = (.ok a, bs') ∧ (f a).run bs' = (.ok b, rest) := by
  rw [run_bind, bindRun] at h
  generalize P.run bs = r at h
  obtain ⟨o, bs'⟩ := r
  cases o with
  | ok a => exact ⟨a, bs', rfl, h⟩
  | assertion => cases h
  | overrun => cases h
  | unfinished => cases h

/-! ## Round trips -/

/-- `P` reads exactly `bs` and gives `a`, whatever follows. -/
def Decodes (P : Parser α) (bs : List UInt8) (a : α) : Prop :=
  ∀ rest, P.run (bs ++ rest) = (.ok a, rest)

theorem decodes_pure (a : α) : Decodes (pure a) [] a := fun _ => rfl

theorem Decodes.bind {P : Parser α} {f : α → Parser β} {bs bs' : List UInt8} {a : α} {b : β}
    (hP : Decodes P bs a) (hf : Decodes (f a) bs' b) : Decodes (P >>= f) (bs ++ bs') b := by
  intro rest
  rw [List.append_assoc, run_bind_ok (hP _)]
  exact hf rest

/-- What comes last reads nothing. -/
theorem Decodes.last {P : Parser α} {f : α → Parser β} {bs : List UInt8} {a : α} {b : β}
    (hP : Decodes P bs a) (hf : Decodes (f a) [] b) : Decodes (P >>= f) bs b := by
  have h := hP.bind hf
  rwa [List.append_nil] at h

theorem Decodes.readU8 {f : UInt8 → Parser β} {b : UInt8} {bs : List UInt8} {x : β}
    (hf : Decodes (f b) bs x) : Decodes (readU8 >>= f) (b :: bs) x := fun rest => hf rest

theorem decodes_readBytes (tail : ℕ) (bs : List UInt8) :
    Decodes (readBytes tail bs.length) bs bs := by
  intro rest
  show (if _ then _ else _) = _
  rw [if_pos (by simp), List.take_left, List.drop_left]

/-- What passes its check is read on. -/
theorem Decodes.check {p : Prop} [Decidable p] (hp : p) {f : Unit → Parser β} {bs : List UInt8}
    {b : β} (hf : Decodes (f ()) bs b) : Decodes (check p >>= f) bs b := by
  unfold Parser.check
  rw [if_pos hp]
  exact (decodes_pure ()).bind hf

/-- The rounds are enough for all data that starts with `bs`. -/
theorem decodes_withLength {f : ℕ → Parser α} {bs : List UInt8} {a : α}
    (h : ∀ n, bs.length ≤ n → Decodes (f n) bs a) : Decodes (withLength f) bs a := by
  intro rest
  refine h (bs ++ rest).length ?_ rest
  rw [List.length_append]
  exact Nat.le_add_right _ _

theorem decodes_many {P : Parser α} {w : α → List UInt8} (as : List α)
    (h : ∀ a ∈ as, Decodes P (w a) a) : Decodes (many P as.length) (as.flatMap w) as := by
  induction as with
  | nil => exact decodes_pure []
  | cons a as ih =>
    rw [List.flatMap_cons]
    apply (h a List.mem_cons_self).bind
    apply (ih fun a ha => h a (List.mem_cons_of_mem _ ha)).last
    exact decodes_pure _

/-! ## Enough rounds -/

/-- The parser does not run out of rounds on `bs`. -/
def Finishes (P : Parser α) (bs : List UInt8) : Prop := (P.run bs).1 ≠ .unfinished

theorem finishes_pure (a : α) (bs : List UInt8) : Finishes (pure a) bs := fun h => (by cases h)

theorem Finishes.bind {P : Parser α} {f : α → Parser β} {bs : List UInt8} (hP : Finishes P bs)
    (hf : ∀ a rest, P.run bs = (.ok a, rest) → Finishes (f a) rest) : Finishes (P >>= f) bs := by
  unfold Finishes at hP ⊢
  rw [run_bind, bindRun]
  generalize P.run bs = r at hP hf
  obtain ⟨o, rest⟩ := r
  cases o with
  | ok a => exact hf a rest rfl
  | assertion => exact fun h => (by cases h)
  | overrun => exact fun h => (by cases h)
  | unfinished => exact absurd rfl hP

theorem finishes_readU8 (bs : List UInt8) : Finishes readU8 bs := by
  cases bs <;> exact fun h => (by cases h)

theorem finishes_readBytes (tail n : ℕ) (bs : List UInt8) : Finishes (readBytes tail n) bs := by
  unfold Finishes readBytes
  dsimp only
  split
  · exact fun h => (by cases h)
  · split <;> exact fun h => (by cases h)

theorem Finishes.check {p : Prop} [Decidable p] {f : Unit → Parser β} {bs : List UInt8}
    (hf : p → Finishes (f ()) bs) : Finishes (check p >>= f) bs := by
  unfold Parser.check
  split
  · exact hf ‹p›
  · exact fun h => (by cases h)

theorem finishes_many {P : Parser α} (hP : ∀ bs, Finishes P bs) (n : ℕ) (bs : List UInt8) :
    Finishes (many P n) bs := by
  induction n generalizing bs with
  | zero => exact finishes_pure [] bs
  | succ n ih =>
    refine (hP bs).bind fun a rest _ => (ih rest).bind fun as rest _ => ?_
    exact finishes_pure _ _

theorem finishes_withLength {f : ℕ → Parser α} {bs : List UInt8}
    (h : Finishes (f bs.length) bs) : Finishes (withLength f) bs := h

theorem length_of_run {P : Parser α} {bs rest : List UInt8} {o : Outcome α}
    (h : P.run bs = (o, rest)) : rest.length ≤ bs.length := by
  have hP := (P.suffix bs).length_le
  rwa [h] at hP

/-- A byte is gone once one was read. -/
theorem length_of_readU8 {bs rest : List UInt8} {b : UInt8} (h : readU8.run bs = (.ok b, rest)) :
    rest.length < bs.length := by
  cases bs with
  | nil => cases h
  | cons b bs =>
    cases h
    exact Nat.lt_succ_self _

/-! ## Bounds -/

/-- How many bytes are read. -/
def used (P : Parser α) (bs : List UInt8) : ℕ := bs.length - (P.run bs).2.length

/-- Nothing is read past the data, nor past its first `L` bytes. -/
def Within (L : ℕ) (bs : List UInt8) (P : Parser α) : Prop :=
  (P.run bs).1 ≠ .overrun ∧ P.used bs ≤ L

variable {L : ℕ} {bs : List UInt8}

/-- More than the data is never read. -/
theorem within_length {P : Parser α} : Within bs.length bs P ↔ (P.run bs).1 ≠ .overrun :=
  ⟨And.left, fun h => ⟨h, Nat.sub_le _ _⟩⟩

theorem within_pure (a : α) : Within L bs (pure a) :=
  ⟨fun h => (by cases h), (Nat.sub_self bs.length).trans_le (Nat.zero_le L)⟩

theorem within_stop {o : Outcome α} : Within L bs (stop o) ↔ o ≠ .overrun :=
  ⟨And.left, fun h => ⟨h, (Nat.sub_self bs.length).trans_le (Nat.zero_le L)⟩⟩

/-- What comes after has what is left of the bound. -/
theorem within_bind {P : Parser α} {f : α → Parser β} : Within L bs (P >>= f) ↔
    Within L bs P ∧ ∀ a rest, P.run bs = (.ok a, rest) →
      Within (L - (bs.length - rest.length)) rest (f a) := by
  unfold Within used
  have hP := (P.suffix bs).length_le
  rw [run_bind, bindRun]
  generalize P.run bs = r at hP
  obtain ⟨o, rest⟩ := r
  cases o with
  | ok a =>
    have hf := ((f a).suffix rest).length_le
    dsimp only at hP ⊢
    constructor
    · rintro ⟨hend, hused⟩
      refine ⟨⟨fun h => (by cases h), by omega⟩, ?_⟩
      rintro _ _ ⟨⟩
      exact ⟨hend, by omega⟩
    · rintro ⟨⟨-, hused⟩, hnext⟩
      obtain ⟨hend, hused'⟩ := hnext a rest rfl
      exact ⟨hend, by omega⟩
  | assertion =>
    refine ⟨fun h => ⟨⟨fun h => (by cases h), h.2⟩, fun _ _ h => (by cases h)⟩,
      fun h => ⟨fun h => (by cases h), h.1.2⟩⟩
  | overrun => exact ⟨fun h => absurd rfl h.1, fun h => absurd rfl h.1.1⟩
  | unfinished =>
    refine ⟨fun h => ⟨⟨fun h => (by cases h), h.2⟩, fun _ _ h => (by cases h)⟩,
      fun h => ⟨fun h => (by cases h), h.1.2⟩⟩

theorem ne_overrun_bind {P : Parser α} {f : α → Parser β} (hP : (P.run bs).1 ≠ .overrun)
    (hf : ∀ a rest, P.run bs = (.ok a, rest) → ((f a).run rest).1 ≠ .overrun) :
    ((P >>= f).run bs).1 ≠ .overrun := by
  rw [← within_length, within_bind]
  refine ⟨within_length.mpr hP, fun a rest hrun => ?_⟩
  rw [Nat.sub_sub_self (length_of_run hrun), within_length]
  exact hf a rest hrun

/-! ## How far a parser gets -/

/-- What the sizes in some data lead to. -/
inductive Extent
  | beyond
  | stops
  | whole
  deriving DecidableEq

def Extent.andThen : Extent → Extent → Extent
  | .whole, e => e
  | .stops, _ => .stops
  | .beyond, _ => .beyond

@[simp] theorem Extent.whole_andThen (e : Extent) : Extent.whole.andThen e = e := rfl

@[simp] theorem Extent.andThen_whole (e : Extent) : e.andThen .whole = e := by
  cases e <;> rfl

theorem Extent.andThen_assoc (e e' e'' : Extent) :
    (e.andThen e').andThen e'' = e.andThen (e'.andThen e'') := by
  cases e <;> rfl

theorem Extent.andThen_eq_whole {e e' : Extent} :
    e.andThen e' = .whole ↔ e = .whole ∧ e' = .whole := by
  cases e
  · exact ⟨fun h => (by cases h), fun h => (by cases h.1)⟩
  · exact ⟨fun h => (by cases h), fun h => (by cases h.1)⟩
  · exact ⟨fun h => ⟨rfl, h⟩, And.right⟩

variable {Q : α → List UInt8 → Prop} {R : β → List UInt8 → Prop} {e : Extent}

/-- The parser reads too far, stops at an assertion, or gives a value with `Q`. -/
def Ends (L : ℕ) (bs : List UInt8) (P : Parser α) (Q : α → List UInt8 → Prop) : Extent → Prop
  | .beyond => ¬ Within L bs P
  | .stops => Within L bs P ∧ (P.run bs).1 = .assertion
  | .whole => Within L bs P ∧ ∃ a rest, P.run bs = (.ok a, rest) ∧ Q a rest

theorem Ends.mono {P : Parser α} {Q' : α → List UInt8 → Prop} (h : Ends L bs P Q e)
    (hQ : e = .whole → ∀ a rest, Q a rest → Q' a rest) : Ends L bs P Q' e := by
  cases e with
  | beyond => exact h
  | stops => exact h
  | whole =>
    obtain ⟨hwithin, a, rest, hrun, hq⟩ := h
    exact ⟨hwithin, a, rest, hrun, hQ rfl a rest hq⟩

theorem ends_pure {a : α} (h : Q a bs) : Ends L bs (pure a) Q .whole :=
  ⟨within_pure a, a, bs, rfl, h⟩

/-- What comes next decides once a value is there. -/
theorem Ends.bind {P : Parser α} {f : α → Parser β} {e' : Extent} (hP : Ends L bs P Q e)
    (hf : ∀ a rest, e = .whole → Q a rest →
      Ends (L - (bs.length - rest.length)) rest (f a) R e') :
    Ends L bs (P >>= f) R (e.andThen e') := by
  cases e with
  | beyond => exact fun h => hP (within_bind.mp h).1
  | stops =>
    obtain ⟨hwithin, hstop⟩ := hP
    have hrun : P.run bs = (.assertion, (P.run bs).2) := Prod.ext hstop rfl
    refine ⟨within_bind.mpr ⟨hwithin, fun a rest h => ?_⟩, ?_⟩
    · rw [hrun] at h
      cases h
    · rw [run_bind, bindRun, hrun]
  | whole =>
    obtain ⟨hwithin, a, rest, hrun, hQ⟩ := hP
    have hnext := hf a rest rfl hQ
    have hbind : Within L bs (P >>= f) ↔ Within (L - (bs.length - rest.length)) rest (f a) := by
      rw [within_bind]
      refine ⟨fun h => h.2 a rest hrun, fun h => ⟨hwithin, fun a' rest' hrun' => ?_⟩⟩
      rw [hrun] at hrun'
      cases hrun'
      exact h
    have hrun' := run_bind_ok (f := f) hrun
    rw [Extent.whole_andThen]
    cases e' with
    | beyond => exact fun h => hnext (hbind.mp h)
    | stops => exact ⟨hbind.mpr hnext.1, by rw [hrun']; exact hnext.2⟩
    | whole =>
      obtain ⟨hwithin', b, rest', hb, hR⟩ := hnext
      exact ⟨hbind.mpr hwithin', b, rest', by rw [hrun', hb], hR⟩

def checkExtent (p : Prop) [Decidable p] : Extent := if p then .whole else .stops

theorem checkExtent_congr {p q : Prop} [Decidable p] [Decidable q] (h : p ↔ q) :
    checkExtent p = checkExtent q := if_congr h rfl rfl

theorem ends_check {p : Prop} [Decidable p] :
    Ends L bs (check p) (fun _ rest => p ∧ rest = bs) (checkExtent p) := by
  unfold check checkExtent
  split
  · exact ends_pure ⟨‹p›, rfl⟩
  · exact ⟨within_stop.mpr fun h => (by cases h), rfl⟩

theorem Ends.check {p : Prop} [Decidable p] {f : Unit → Parser β} {e' : Extent}
    (hf : p → Ends L bs (f ()) R e') :
    Ends L bs (check p >>= f) R ((checkExtent p).andThen e') := by
  refine ends_check.bind fun _ rest _ hp => ?_
  rw [hp.2, Nat.sub_self]
  exact hf hp.1

theorem Ends.check_pos {p : Prop} [Decidable p] (hp : p) {f : Unit → Parser β}
    (hf : Ends L bs (f ()) R e) : Ends L bs (Parser.check p >>= f) R e := by
  have hwhole : checkExtent p = .whole := if_pos hp
  rw [← Extent.whole_andThen e, ← hwhole]
  exact Ends.check fun _ => hf

theorem ends_withLength {f : ℕ → Parser α} (h : Ends L bs (f bs.length) Q e) :
    Ends L bs (withLength f) Q e := by
  cases e <;> exact h

/-! ## Fields of a fixed size -/

/-- A field of `n` bytes where `L` may be read and `r` are there. -/
def fieldExtent (tail L r n : ℕ) : Extent :=
  if n ≤ r then if n ≤ L then .whole else .beyond
  else if (n = 1 ∨ tail < r) ∧ r ≤ L then .stops
  else .beyond

/-- Fields of the sizes `ns` one after the other. -/
def fieldsExtent (tail L r : ℕ) : List ℕ → Extent
  | [] => .whole
  | n :: ns => (fieldExtent tail L r n).andThen (fieldsExtent tail (L - n) (r - n) ns)

variable {tail : ℕ}

theorem fieldExtent_eq_whole {r n : ℕ} :
    fieldExtent tail L r n = .whole ↔ n ≤ r ∧ n ≤ L := by
  unfold fieldExtent
  split
  · split
    · exact ⟨fun _ => ⟨‹_›, ‹_›⟩, fun _ => rfl⟩
    · exact ⟨fun h => (by cases h), fun h => absurd h.2 ‹_›⟩
  · split
    · exact ⟨fun h => (by cases h), fun h => absurd h.1 ‹_›⟩
    · exact ⟨fun h => (by cases h), fun h => absurd h.1 ‹_›⟩

theorem fieldsExtent_eq_whole {r : ℕ} {ns : List ℕ} :
    fieldsExtent tail L r ns = .whole ↔ ns.sum ≤ r ∧ ns.sum ≤ L := by
  induction ns generalizing L r with
  | nil => simp [fieldsExtent]
  | cons n ns ih =>
    rw [fieldsExtent, Extent.andThen_eq_whole, fieldExtent_eq_whole, ih, List.sum_cons]
    omega

theorem fieldsExtent_append (r : ℕ) (ns ms : List ℕ) :
    fieldsExtent tail L r (ns ++ ms) =
      (fieldsExtent tail L r ns).andThen (fieldsExtent tail (L - ns.sum) (r - ns.sum) ms) := by
  induction ns generalizing L r with
  | nil => rfl
  | cons n ns ih =>
    rw [List.cons_append, fieldsExtent, fieldsExtent, ih, Extent.andThen_assoc, List.sum_cons,
      Nat.sub_sub, Nat.sub_sub]

theorem fieldsExtent_singleton (r n : ℕ) :
    fieldsExtent tail L r [n] = fieldExtent tail L r n := Extent.andThen_whole _

/-- The parser reads fields of the sizes `ns` and nothing else. -/
def Reads (tail : ℕ) (P : Parser α) (ns : List ℕ) : Prop :=
  ∀ L bs, Ends L bs P (fun _ rest => rest = bs.drop ns.sum) (fieldsExtent tail L bs.length ns)

theorem reads_pure (a : α) : Reads tail (pure a) [] := fun _ _ => ends_pure rfl

theorem Reads.bind {P : Parser α} {f : α → Parser β} {ns ms : List ℕ} (hP : Reads tail P ns)
    (hf : ∀ a, Reads tail (f a) ms) : Reads tail (P >>= f) (ns ++ ms) := by
  intro L bs
  rw [fieldsExtent_append]
  refine (hP L bs).bind fun a rest hwhole hrest => ?_
  have hsum := (fieldsExtent_eq_whole.mp hwhole).1
  subst hrest
  have hnext := hf a (L - (bs.length - (bs.drop ns.sum).length)) (bs.drop ns.sum)
  rw [List.length_drop, Nat.sub_sub_self hsum] at hnext ⊢
  rw [List.sum_append, ← List.drop_drop]
  exact hnext

/-- The parser reads a field of `n` bytes, which have the value `g`. -/
def Takes (tail : ℕ) (P : Parser α) (n : ℕ) (g : List UInt8 → α) : Prop :=
  ∀ L bs, Ends L bs P (fun a rest => a = g bs ∧ rest = bs.drop n) (fieldExtent tail L bs.length n)

theorem Takes.reads {P : Parser α} {n : ℕ} {g : List UInt8 → α} (h : Takes tail P n g) :
    Reads tail P [n] := by
  intro L bs
  rw [fieldsExtent_singleton]
  exact (h L bs).mono fun _ _ _ ha => ha.2

theorem Takes.map {P : Parser α} {n : ℕ} {g : List UInt8 → α} (h : Takes tail P n g)
    (k : α → β) : Takes tail (P >>= fun a => pure (k a)) n (fun bs => k (g bs)) := by
  intro L bs
  rw [← Extent.andThen_whole (fieldExtent _ _ _ _)]
  refine (h L bs).bind fun a rest _ ha => ends_pure ?_
  rw [ha.1, ha.2]
  exact ⟨rfl, rfl⟩

/-- The first of some fields, and what comes after it. -/
theorem Takes.andThen {P : Parser α} {f : α → Parser β} {n : ℕ} {ns : List ℕ}
    {g : List UInt8 → α} {e' : Extent} (hP : Takes tail P n g)
    (hf : n ≤ bs.length → n ≤ L → Ends (L - n) (bs.drop n) (f (g bs)) R
      ((fieldsExtent tail (L - n) (bs.drop n).length ns).andThen e')) :
    Ends L bs (P >>= f) R ((fieldsExtent tail L bs.length (n :: ns)).andThen e') := by
  rw [fieldsExtent, Extent.andThen_assoc]
  refine (hP L bs).bind fun a rest hwhole ha => ?_
  obtain ⟨hlen, hL⟩ := fieldExtent_eq_whole.mp hwhole
  have hnext := hf hlen hL
  rw [ha.1, ha.2]
  rw [List.length_drop] at hnext ⊢
  rwa [Nat.sub_sub_self hlen]

theorem takes_readU8 : Takes tail readU8 1 fun bs => bs.headD 0 := by
  intro L bs
  cases bs with
  | nil =>
    have hstop : fieldExtent tail L ([] : List UInt8).length 1 = .stops := by
      simp [fieldExtent]
    rw [hstop]
    exact ⟨⟨fun h => (by cases h), Nat.zero_le L⟩, rfl⟩
  | cons b rest =>
    have hused : readU8.used (b :: rest) = 1 := Nat.add_sub_cancel_left rest.length 1
    unfold fieldExtent
    rw [if_pos (by simp)]
    split
    · exact ⟨⟨fun h => (by cases h), hused.trans_le ‹_›⟩, b, rest, rfl, rfl, rfl⟩
    · intro h
      exact absurd (hused.symm.trans_le h.2) ‹_›

theorem takes_readBytes {n : ℕ} (hn : n ≠ 1) :
    Takes tail (readBytes tail n) n fun bs => bs.take n := by
  intro L bs
  unfold fieldExtent
  by_cases hlen : n ≤ bs.length
  · have hrun : (readBytes tail n).run bs = (.ok (bs.take n), bs.drop n) := if_pos hlen
    have hused : (readBytes tail n).used bs = n := by
      rw [used, hrun, List.length_drop]
      exact Nat.sub_sub_self hlen
    rw [if_pos hlen]
    split
    · refine ⟨⟨?_, hused.trans_le ‹_›⟩, _, _, hrun, rfl, rfl⟩
      rw [hrun]
      exact fun h => (by cases h)
    · intro h
      exact absurd (hused.symm.trans_le h.2) ‹_›
  · rw [if_neg hlen]
    by_cases htail : bs.length ≤ tail
    · have hrun : (readBytes tail n).run bs = (.overrun, bs) :=
        (if_neg hlen).trans (if_pos htail)
      rw [if_neg (by omega)]
      exact fun h => h.1 (by rw [hrun])
    · have hrun : (readBytes tail n).run bs = (.assertion, []) :=
        (if_neg hlen).trans (if_neg htail)
      have hused : (readBytes tail n).used bs = bs.length := by
        rw [used, hrun]
        rfl
      split
      · refine ⟨⟨?_, hused.trans_le (by omega)⟩, by rw [hrun]⟩
        rw [hrun]
        exact fun h => (by cases h)
      · intro h
        have hL := hused.symm.trans_le h.2
        omega

theorem Reads.map {P : Parser α} {ns : List ℕ} (hP : Reads tail P ns) (k : α → β) :
    Reads tail (P >>= fun a => pure (k a)) ns := by
  have h := hP.bind fun a => reads_pure (k a)
  rwa [List.append_nil] at h

/-- The number of values comes with what a loop reads. -/
theorem ends_many {P : Parser α} {ns : List ℕ} (hP : Reads tail P ns) (n : ℕ) :
    Ends L bs (many P n) (fun as rest => as.length = n ∧ rest = bs.drop (n * ns.sum))
      (fieldsExtent tail L bs.length (List.replicate n ns).flatten) := by
  induction n generalizing L bs with
  | zero => exact ends_pure ⟨rfl, by simp⟩
  | succ n ih =>
    rw [List.replicate_succ, List.flatten_cons, fieldsExtent_append]
    refine (hP L bs).bind fun a rest hwhole hrest => ?_
    have hsum := (fieldsExtent_eq_whole.mp hwhole).1
    subst hrest
    rw [List.length_drop, Nat.sub_sub_self hsum, ← List.length_drop,
      ← Extent.andThen_whole (fieldsExtent _ _ _ _)]
    refine ih.bind fun as rest _ has => ends_pure ?_
    rw [List.length_cons, has.1, has.2, List.drop_drop, Nat.succ_mul, Nat.add_comm ns.sum]
    exact ⟨rfl, rfl⟩

end Parser

end Ns3.Lib
