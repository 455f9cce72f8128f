import Mathlib.Data.UInt
import Mathlib.Data.List.Basic

/-!
# Byte readers and writers

A writer is the list of bytes it emits, or `none` where it throws; a reader
consumes a prefix of its data. `Decodes r bs x` says that `r` reads exactly
`bs` and returns `x` whatever follows. `RoundTrip w r x n` adds that `w` emits
those bytes and that there are `n` of them, and composes along `concat` on the
writer's side and the binds on the reader's: the round trip of a codec is that
of its fields in order, and what one field leaves is where the next one starts.
-/

namespace Ns3.Lib

/-- A reader: a value and the unread rest, or `none` past the end of the data. -/
abbrev Reader (α : Type) := StateT (List UInt8) Option α

/-- The bytes a serializer emits; `none` when it throws. -/
abbrev Writer := Option (List UInt8)

namespace Wire

variable {α β γ : Type}

/-! ## Words -/

def byteAt (n i : ℕ) : UInt8 := UInt8.ofNat (n / 256 ^ i)

/-- Four bytes, least significant first. -/
def writeU32 (x : UInt32) : List UInt8 :=
  [byteAt x.toNat 0, byteAt x.toNat 1, byteAt x.toNat 2, byteAt x.toNat 3]

/-- Four bytes, most significant first. -/
def writeHtonU32 (x : UInt32) : List UInt8 :=
  [byteAt x.toNat 3, byteAt x.toNat 2, byteAt x.toNat 1, byteAt x.toNat 0]

def u32 (x : UInt32) : Writer := some (writeU32 x)

def htonU32 (x : UInt32) : Writer := some (writeHtonU32 x)

def u8 (x : UInt8) : Writer := some [x]

/-- The fields of a header in the order they are written. -/
def concat : List Writer → Writer
  | [] => some []
  | w :: ws => do return (← w) ++ (← concat ws)

/-- A length word and then every item: how a container is written. -/
def counted (w : α → Writer) (xs : List α) : Writer :=
  concat (u32 (UInt32.ofNat xs.length) :: xs.map w)

def ofBytes (b₀ b₁ b₂ b₃ : UInt8) : UInt32 :=
  UInt32.ofNat (b₀.toNat + 256 * b₁.toNat + 65536 * b₂.toNat + 16777216 * b₃.toNat)

def readU8 : Reader UInt8
  | [] => none
  | b :: bs => some (b, bs)

def readU32 : Reader UInt32 := do
  let b₀ ← readU8
  let b₁ ← readU8
  let b₂ ← readU8
  let b₃ ← readU8
  return ofBytes b₀ b₁ b₂ b₃

def readNtohU32 : Reader UInt32 := do
  let b₃ ← readU8
  let b₂ ← readU8
  let b₁ ← readU8
  let b₀ ← readU8
  return ofBytes b₀ b₁ b₂ b₃

/-- Run a reader a fixed number of times: the body of a decoding loop. -/
def readMany (r : Reader α) : ℕ → Reader (List α)
  | 0 => pure []
  | n + 1 => do
    let x ← r
    let xs ← readMany r n
    return x :: xs

/-- Read a length word and then as many items. -/
def readCounted (r : Reader α) : Reader (List α) := do
  let n ← readU32
  readMany r n.toNat

/-! ## Reading back what was written -/

/-- `r` reads exactly `bs` off the front of any data and returns `x`. -/
def Decodes (r : Reader α) (bs : List UInt8) (x : α) : Prop :=
  ∀ rest, r (bs ++ rest) = some (x, rest)

theorem Decodes.bind {r : Reader α} {k : α → Reader β} {bs bs' : List UInt8} {x : α} {y : β}
    (hr : Decodes r bs x) (hk : Decodes (k x) bs' y) : Decodes (r >>= k) (bs ++ bs') y := by
  intro rest
  have h : (r >>= k) (bs ++ bs' ++ rest) = (r (bs ++ (bs' ++ rest))).bind fun p => k p.1 p.2 := by
    rw [List.append_assoc]
    rfl
  rw [h, hr]
  exact hk rest

/-- `w` emits `n` bytes, and `r` reads exactly them back as `x`. -/
def RoundTrip (w : Writer) (r : Reader α) (x : α) (n : ℕ) : Prop :=
  ∃ bs, w = some bs ∧ Decodes r bs x ∧ bs.length = n

theorem RoundTrip.nil (x : α) : RoundTrip (concat []) (pure x) x 0 :=
  ⟨[], rfl, fun _ => rfl, rfl⟩

/-- One field, and the rest of the header after it. -/
theorem RoundTrip.cons {w : Writer} {ws : List Writer} {r : Reader α} {k : α → Reader β} {x : α}
    {y : β} {n m : ℕ} (hw : RoundTrip w r x n) (hws : RoundTrip (concat ws) (k x) y m) :
    RoundTrip (concat (w :: ws)) (r >>= k) y (n + m) := by
  obtain ⟨bs, rfl, hd, rfl⟩ := hw
  obtain ⟨bs', hb', hd', rfl⟩ := hws
  exact ⟨bs ++ bs', by simp [concat, hb'], hd.bind hd', List.length_append⟩

theorem ofBytes_byteAt (x : UInt32) :
    ofBytes (byteAt x.toNat 0) (byteAt x.toNat 1) (byteAt x.toNat 2) (byteAt x.toNat 3) = x := by
  apply UInt32.toNat_inj.mp
  have hx := x.toNat_lt
  simp only [ofBytes, byteAt, UInt32.toNat_ofNat', UInt8.toNat_ofNat']
  omega

theorem roundTrip_u8 (b : UInt8) : RoundTrip (u8 b) readU8 b 1 :=
  ⟨_, rfl, fun _ => rfl, rfl⟩

theorem roundTrip_u32 (x : UInt32) : RoundTrip (u32 x) readU32 x 4 :=
  ⟨_, rfl, fun rest => congrArg (fun y => some (y, rest)) (ofBytes_byteAt x), rfl⟩

theorem roundTrip_htonU32 (x : UInt32) : RoundTrip (htonU32 x) readNtohU32 x 4 :=
  ⟨_, rfl, fun rest => congrArg (fun y => some (y, rest)) (ofBytes_byteAt x), rfl⟩

/-- A loop that reads as many items as were written reads each of them. -/
theorem roundTrip_many {r : Reader β} {w : α → Writer} {val : α → β} {n : ℕ} {xs : List α}
    (h : ∀ x ∈ xs, RoundTrip (w x) r (val x) n) :
    RoundTrip (concat (xs.map w)) (readMany r xs.length) (xs.map val) (n * xs.length) := by
  induction xs with
  | nil => exact .nil []
  | cons x xs ih =>
    have hx := h x (by simp)
    obtain ⟨bs, hw, hd, hn⟩ := ih fun y hy => h y (by simp [hy])
    let k (y : β) : Reader (List β) := do
      let ys ← readMany r xs.length
      return y :: ys
    have htail : RoundTrip (concat (xs.map w)) (k (val x)) ((x :: xs).map val) (n * xs.length) := by
      have hret : Decodes (pure (val x :: xs.map val) : Reader (List β)) [] _ := fun _ => rfl
      have := hd.bind (k := fun ys => pure (val x :: ys)) hret
      rw [List.append_nil] at this
      exact ⟨bs, hw, this, hn⟩
    have := hx.cons htail
    rwa [Nat.add_comm, ← Nat.mul_succ] at this

/-- A container survives as long as its length fits the length word. -/
theorem roundTrip_counted {r : Reader β} {w : α → Writer} {val : α → β} {n : ℕ} {xs : List α}
    (h : ∀ x ∈ xs, RoundTrip (w x) r (val x) n) (hlen : xs.length < 2 ^ 32) :
    RoundTrip (counted w xs) (readCounted r) (xs.map val) (4 + n * xs.length) := by
  refine (roundTrip_u32 _).cons ?_
  rw [UInt32.toNat_ofNat_of_lt' hlen]
  exact roundTrip_many h

end Wire

end Ns3.Lib
