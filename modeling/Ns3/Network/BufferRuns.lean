import Ns3.Lib.Run
import Ns3.Network.BufferAppend

/-!
# Programs with buffers

A program holds buffers in variables and applies the operations of `Buffer` to
them. New space is written at once, as `Packet` does it. Beside it every
variable has a list of bytes, and each operation changes the list of its own
variable only.
-/

namespace Ns3.Network

open Ns3.Lib

/-! ## The operations -/

/-- Sizes are `uint32_t`; what is appended is another buffer than the one it is appended to. -/
inductive BufferOp
  | create (zeroSize : UInt32)
  | copy (j : ℕ)
  | createFragment (j : ℕ) (start length : UInt32)
  | assign (i j : ℕ)
  | destroy (i : ℕ)
  | addAtStart (i : ℕ) (bytes : List UInt8)
  | addAtEnd (i : ℕ) (bytes : List UInt8)
  | addBufferAtEnd (i j : ℕ)
  | removeAtStart (i : ℕ) (start : UInt32)
  | removeAtEnd (i : ℕ) (stop : UInt32)

/-- The heap, and the variables; a destroyed buffer leaves `none`. -/
structure BufferProgram where
  heap : Heap
  vars : List (Option Buffer)

namespace BufferProgram

/-- A new variable. -/
def declare (p : BufferProgram) (out : Option (Heap × Buffer)) : Option BufferProgram :=
  out.map fun out => ⟨out.1, p.vars ++ [some out.2]⟩

/-- The buffer of one variable changes. -/
def change (p : BufferProgram) (i : ℕ) (f : Heap → Buffer → Option (Heap × Buffer)) :
    Option BufferProgram := do
  let b ← p.vars[i]?.join
  let out ← f p.heap b
  return ⟨out.1, p.vars.set i (some out.2)⟩

def prepend (bytes : List UInt8) (h : Heap) (b : Buffer) : Option (Heap × Buffer) := do
  let out ← b.addAtStart h bytes.length
  let h ← out.2.beginIter.write out.1 bytes
  return (h, out.2)

def append (bytes : List UInt8) (h : Heap) (b : Buffer) : Option (Heap × Buffer) := do
  let out ← b.addAtEnd h bytes.length
  let h ← (out.2.endIter.prev bytes.length).write out.1 bytes
  return (h, out.2)

def step (p : BufferProgram) : BufferOp → Option BufferProgram
  | .create zeroSize => p.declare (Buffer.init p.heap zeroSize.toNat)
  | .copy j => do
    let o ← p.vars[j]?.join
    p.declare (o.copy p.heap)
  | .createFragment j start length => do
    let o ← p.vars[j]?.join
    p.declare (o.createFragment p.heap start.toNat length.toNat)
  | .assign i j => do
    let o ← p.vars[j]?.join
    p.change i fun h b => b.assign h o
  | .destroy i => do
    let b ← p.vars[i]?.join
    let h ← b.destroy p.heap
    return ⟨h, p.vars.set i none⟩
  | .addAtStart i bytes => p.change i (prepend bytes)
  | .addAtEnd i bytes => p.change i (append bytes)
  | .addBufferAtEnd i j =>
    if i = j then none
    else do
      let o ← p.vars[j]?.join
      p.change i fun h b => b.addBufferAtEnd h o
  | .removeAtStart i start => p.change i fun h b => some (h, b.removeAtStart start.toNat)
  | .removeAtEnd i stop => p.change i fun h b => some (h, b.removeAtEnd stop.toNat)

/-! ## The same on lists -/

end BufferProgram

namespace BufferOp

/-- `CreateFragment`; what is removed at the end is counted modulo 2 ^ 32. -/
def fragment (start length : ℕ) (l : List UInt8) : List UInt8 :=
  let rest := l.drop start
  rest.take (rest.length - sub32 l.length (add32 start length))

/-- What a program's lists become. -/
def spec (ls : List (Option (List UInt8))) : BufferOp → Option (List (Option (List UInt8)))
  | .create zeroSize => some (ls ++ [some (List.replicate zeroSize.toNat 0)])
  | .copy j => ls[j]?.join.map fun l => ls ++ [some l]
  | .createFragment j start length =>
    ls[j]?.join.map fun l => ls ++ [some (fragment start.toNat length.toNat l)]
  | .assign i j => ls[i]?.join.bind fun _ => ls[j]?.join.map fun l => ls.set i (some l)
  | .destroy i => ls[i]?.join.map fun _ => ls.set i none
  | .addAtStart i bytes => ls[i]?.join.map fun l => ls.set i (some (bytes ++ l))
  | .addAtEnd i bytes => ls[i]?.join.map fun l => ls.set i (some (l ++ bytes))
  | .addBufferAtEnd i j =>
    if i = j then none
    else ls[i]?.join.bind fun l => ls[j]?.join.map fun l' => ls.set i (some (l ++ l'))
  | .removeAtStart i start => ls[i]?.join.map fun l => ls.set i (some (l.drop start.toNat))
  | .removeAtEnd i stop =>
    ls[i]?.join.map fun l => ls.set i (some (l.take (l.length - stop.toNat)))

end BufferOp

namespace BufferProgram

/-! ## When the operations are right -/

/-- No offset passes 2 ^ 32, and no buffer with bytes after its zero area is joined to a zero
area. -/
def InBounds (p : BufferProgram) : BufferOp → Prop
  | .create zeroSize => Buffer.initialStart p.heap + zeroSize.toNat < 2 ^ 32
  | .createFragment j start _ => ∀ o, p.vars[j]? = some (some o) → o.start + start.toNat < 2 ^ 32
  | .addAtStart i bytes => ∀ b, p.vars[i]? = some (some b) → b.getSize + bytes.length < 2 ^ 32
  | .addAtEnd i bytes => ∀ b, p.vars[i]? = some (some b) → Buffer.FitsAtEnd p.heap b bytes.length
  | .addBufferAtEnd i j => ∀ b o, p.vars[i]? = some (some b) → p.vars[j]? = some (some o) →
      Buffer.AppendFits p.heap b o
  | .removeAtStart i start => ∀ b, p.vars[i]? = some (some b) → b.start + start.toNat < 2 ^ 32
  | .copy _ | .assign _ _ | .destroy _ | .removeAtEnd _ _ => True

/-! ## One step -/

def live (p : BufferProgram) : List Buffer := p.vars.filterMap id

/-- What each variable reads. -/
def contents (p : BufferProgram) : List (Option (List UInt8)) :=
  p.vars.map fun v => v.bind (Buffer.content p.heap)

variable {p : BufferProgram} {h' : Heap} {b o : Buffer} {i j : ℕ} {l : List UInt8}

theorem mem_live : b ∈ p.live ↔ some b ∈ p.vars := by
  unfold live
  simp

theorem split_of_getElem? (hi : p.vars[i]? = some (some b)) :
    ∃ xs ys, p.vars = xs ++ some b :: ys ∧ xs.length = i := by
  obtain ⟨hlt, hb⟩ := List.getElem?_eq_some_iff.mp hi
  refine ⟨p.vars.take i, p.vars.drop (i + 1), ?_, List.length_take_of_le hlt.le⟩
  rw [← hb, ← List.drop_eq_getElem_cons hlt, List.take_append_drop]

/-- Where nothing changed a buffer reads the same. -/
theorem map_content {live' : List Buffer} (vs : List (Option Buffer))
    (hs : Sound p.heap p.live) (hs' : Sound h' live') (hkeep : Buffer.Keeps p.heap h' (vs.filterMap id))
    (hin : ∀ c ∈ vs.filterMap id, c ∈ p.live ∧ c ∈ live') :
    vs.map (fun v => v.bind (Buffer.content h')) =
      vs.map fun v => v.bind (Buffer.content p.heap) := by
  refine List.map_congr_left fun v hv => ?_
  cases v with
  | none => rfl
  | some c =>
    have hc : c ∈ vs.filterMap id := by simpa using hv
    exact hkeep.content hs hs' hc (hin c hc).1 (hin c hc).2

theorem declare_spec (hs : Sound p.heap p.live) {out : Option (Heap × Buffer)}
    (hout : ∃ h' b, out = some (h', b) ∧ Sound h' (b :: p.live) ∧ Buffer.Keeps p.heap h' p.live ∧
      Buffer.content h' b = some l) :
    ∃ p', p.declare out = some p' ∧ Sound p'.heap p'.live ∧ p'.contents = p.contents ++ [some l] := by
  obtain ⟨h', b, rfl, hs', hkeep, hl⟩ := hout
  refine ⟨⟨h', p.vars ++ [some b]⟩, rfl, ?_, ?_⟩
  · refine hs'.perm ?_
    have hlive : live ⟨h', p.vars ++ [some b]⟩ = p.live ++ [b] := by
      unfold live
      rw [List.filterMap_append]
      rfl
    rw [hlive]
    exact (List.perm_append_singleton b p.live).symm
  · have hsame := map_content p.vars hs hs' hkeep fun c hc => ⟨hc, List.mem_cons_of_mem b hc⟩
    unfold contents
    rw [List.map_append, hsame]
    simp only [List.map_cons, List.map_nil, Option.bind_some, hl]

/-- The buffers besides one, and how what is done to that one changes the program. -/
theorem replace_spec (hs : Sound p.heap p.live) (hi : p.vars[i]? = some (some b)) :
    ∃ rest, Sound p.heap (b :: rest) ∧ (∀ j o, j ≠ i → p.vars[j]? = some (some o) → o ∈ rest) ∧
      ∀ (h' : Heap) (v : Option Buffer), Sound h' (v.toList ++ rest) →
        Buffer.Keeps p.heap h' rest → Sound h' (live ⟨h', p.vars.set i v⟩) ∧
          contents ⟨h', p.vars.set i v⟩ = p.contents.set i (v.bind (Buffer.content h')) := by
  obtain ⟨xs, ys, hvars, rfl⟩ := split_of_getElem? hi
  have hlive : p.live.Perm (b :: (xs ++ ys).filterMap id) := by
    unfold live
    rw [hvars, List.filterMap_append, List.filterMap_append]
    exact List.perm_middle
  refine ⟨(xs ++ ys).filterMap id, hs.perm hlive, ?_, ?_⟩
  · intro j o hj ho
    rw [hvars] at ho
    have hmem : some o ∈ xs ++ ys := by
      rcases Nat.lt_or_ge j xs.length with hlt | hge
      · rw [List.getElem?_append_left hlt] at ho
        exact List.mem_append_left _ (List.mem_of_getElem? ho)
      · rw [List.getElem?_append_right hge] at ho
        have hpos : j - xs.length = j - xs.length - 1 + 1 := by omega
        rw [hpos, List.getElem?_cons_succ] at ho
        exact List.mem_append_right _ (List.mem_of_getElem? ho)
    simpa using hmem
  · intro h' v hs' hkeep
    have hset : p.vars.set xs.length v = xs ++ v :: ys := by
      rw [hvars, List.set_append_right _ _ le_rfl, Nat.sub_self]
      rfl
    have hlive' : (v.toList ++ (xs ++ ys).filterMap id).Perm (live ⟨h', xs ++ v :: ys⟩) := by
      unfold live
      dsimp only
      rw [List.filterMap_append, List.filterMap_append]
      cases v with
      | none => exact List.Perm.refl _
      | some c =>
        show (c :: (xs.filterMap id ++ ys.filterMap id)).Perm
          (xs.filterMap id ++ c :: ys.filterMap id)
        exact List.perm_middle.symm
    have hsame := map_content _ hs hs' hkeep fun c hc =>
      ⟨hlive.mem_iff.mpr (List.mem_cons_of_mem b hc), List.mem_append_right _ hc⟩
    rw [List.map_append, List.map_append] at hsame
    have hxs := List.append_inj_left hsame (by rw [List.length_map, List.length_map])
    have hys := List.append_inj_right hsame (by rw [List.length_map, List.length_map])
    rw [hset]
    refine ⟨hs'.perm hlive', ?_⟩
    unfold contents
    rw [hvars, List.map_append, List.map_append, List.map_cons, List.map_cons, hxs, hys,
      List.set_append_right _ _ (by rw [List.length_map]), List.length_map, Nat.sub_self]
    rfl

theorem change_spec (hs : Sound p.heap p.live) (hi : p.vars[i]? = some (some b))
    {f : Heap → Buffer → Option (Heap × Buffer)}
    (hf : ∀ rest, Sound p.heap (b :: rest) →
      (∀ j o, j ≠ i → p.vars[j]? = some (some o) → o ∈ rest) →
      ∃ h' b', f p.heap b = some (h', b') ∧ Sound h' (b' :: rest) ∧ Buffer.Keeps p.heap h' rest ∧
        Buffer.content h' b' = some l) :
    ∃ p', p.change i f = some p' ∧ Sound p'.heap p'.live ∧
      p'.contents = p.contents.set i (some l) := by
  obtain ⟨rest, hrest, hothers, hreplace⟩ := replace_spec hs hi
  obtain ⟨h', b', hout, hs', hkeep, hl⟩ := hf rest hrest hothers
  obtain ⟨hsound, hcontents⟩ := hreplace h' (some b') hs' hkeep
  refine ⟨⟨h', p.vars.set i (some b')⟩, ?_, hsound, ?_⟩
  · rw [change, hi, Option.join_some, Option.bind_eq_bind, Option.bind_some, hout,
      Option.bind_eq_bind, Option.bind_some]
    rfl
  · rw [hcontents, Option.bind_some, hl]

/-- A list that is there belongs to a buffer that is there. -/
theorem join_contents (hl : p.contents[i]?.join = some l) :
    ∃ b, p.vars[i]? = some (some b) ∧ Buffer.content p.heap b = some l := by
  unfold contents at hl
  rw [List.getElem?_map] at hl
  rcases hv : p.vars[i]? with _ | _ | b
  · rw [hv] at hl
    cases hl
  · rw [hv] at hl
    cases hl
  · rw [hv] at hl
    exact ⟨b, rfl, hl⟩

theorem length_content (hs : Sound p.heap p.live) (hi : p.vars[i]? = some (some b))
    (hl : Buffer.content p.heap b = some l) : l.length = b.getSize := by
  obtain ⟨d, hd, hb⟩ := hs.fits b (mem_live.mpr (List.mem_of_getElem? hi))
  obtain ⟨l', hl', hlen⟩ := Buffer.length_stored hs (mem_live.mpr (List.mem_of_getElem? hi))
  rw [hb.content_eq hd, hl'] at hl
  cases hl
  rw [length_spread, hlen, hb.getSize_eq]
  omega

/-- An operation that is in bounds does to the buffers what it does to their lists. -/
theorem step_spec (hs : Sound p.heap p.live) {e : BufferOp} (hok : p.InBounds e)
    {ls : List (Option (List UInt8))} (hspec : e.spec p.contents = some ls) :
    ∃ p', p.step e = some p' ∧ Sound p'.heap p'.live ∧ p'.contents = ls := by
  cases e with
  | create zeroSize =>
    cases hspec
    obtain ⟨h', b, hinit, hs', hkeep, hst, hparts, -⟩ := Buffer.init_spec hs _ hok
    refine declare_spec hs ⟨h', b, hinit, hs', hkeep, ?_⟩
    rw [hs'.content_eq (by simp), hst, hparts.1, hparts.2.1, Option.map_some, spread, List.take_nil,
      List.drop_nil, List.append_nil, List.nil_append]
  | copy j =>
    obtain ⟨l, hl, rfl⟩ := Option.map_eq_some_iff.mp hspec
    obtain ⟨o, hj, hl⟩ := join_contents hl
    have ho := mem_live.mpr (List.mem_of_getElem? hj)
    obtain ⟨h', b, hcopy, hs', hkeep, hview⟩ := Buffer.copy_spec hs ho
    have ho' := List.mem_cons_of_mem b ho
    have hsame : Buffer.content h' b = some l := by
      rw [Buffer.content_sameView hs' (by simp) ho' hview, hkeep.content hs hs' ho ho ho', hl]
    obtain ⟨p', hp', hout⟩ := declare_spec hs ⟨h', b, hcopy, hs', hkeep, hsame⟩
    refine ⟨p', ?_, hout⟩
    rw [step, hj, Option.join_some, Option.bind_eq_bind, Option.bind_some, hp']
  | createFragment j start length =>
    obtain ⟨l, hl, rfl⟩ := Option.map_eq_some_iff.mp hspec
    obtain ⟨o, hj, hl⟩ := join_contents hl
    have ho := mem_live.mpr (List.mem_of_getElem? hj)
    have hlen := length_content hs hj hl
    obtain ⟨h', b, hcopy, hs', hkeep, hview⟩ := Buffer.copy_spec hs ho
    have ho' := List.mem_cons_of_mem b ho
    have hsame : Buffer.content h' b = some l := by
      rw [Buffer.content_sameView hs' (by simp) ho' hview, hkeep.content hs hs' ho ho ho', hl]
    have hstart : b.start + start.toNat < 2 ^ 32 := by
      rw [hview.2.1]
      exact hok o hj
    obtain ⟨hs₁, hout₁⟩ := Buffer.removeAtStart_spec hs' hstart
    obtain ⟨hs₂, hout₂⟩ := Buffer.removeAtEnd_spec
      (n := sub32 o.getSize (add32 start.toNat length.toNat)) hs₁
    have hfragment : o.createFragment p.heap start.toNat length.toNat = some (h',
        (b.removeAtStart start.toNat).removeAtEnd
          (sub32 o.getSize (add32 start.toNat length.toNat))) := by
      rw [Buffer.createFragment, hcopy, Option.bind_eq_bind, Option.bind_some]
    have hout : Buffer.content h' ((b.removeAtStart start.toNat).removeAtEnd
        (sub32 o.getSize (add32 start.toNat length.toNat))) =
          some (BufferOp.fragment start.toNat length.toNat l) := by
      rw [hout₂, hout₁, hsame, Option.map_some, Option.map_some, BufferOp.fragment, hlen]
    obtain ⟨p', hp', hout⟩ := declare_spec hs ⟨h', _, hfragment, hs₂, hkeep, hout⟩
    refine ⟨p', ?_, hout⟩
    rw [step, hj, Option.join_some, Option.bind_eq_bind, Option.bind_some, hp']
  | assign i j =>
    obtain ⟨l, hli, hspec⟩ := Option.bind_eq_some_iff.mp hspec
    obtain ⟨l', hlj, rfl⟩ := Option.map_eq_some_iff.mp hspec
    obtain ⟨b, hi, -⟩ := join_contents hli
    obtain ⟨o, hj, hlj⟩ := join_contents hlj
    rw [step, hj, Option.join_some, Option.bind_eq_bind, Option.bind_some]
    refine change_spec hs hi fun rest hrest hothers => ?_
    rcases eq_or_ne j i with rfl | hij
    · -- a variable assigned to itself
      rw [hi] at hj
      cases hj
      refine ⟨_, b, Buffer.assign_self, hrest.recommend _, fun c _ => rfl, ?_⟩
      rw [(hrest.recommend _).content_eq (by simp), ← hlj, hrest.content_eq (by simp)]
      rfl
    · have ho := hothers j o hij hj
      obtain ⟨h', hassign, hs', hkeep⟩ := Buffer.assign_spec hrest ho
      refine ⟨h', o, hassign, hs', hkeep, ?_⟩
      rw [hkeep.content hrest hs' ho (List.mem_cons_of_mem b ho) (by simp), hlj]
  | destroy i =>
    obtain ⟨l, hl, rfl⟩ := Option.map_eq_some_iff.mp hspec
    obtain ⟨b, hi, hl⟩ := join_contents hl
    obtain ⟨rest, hrest, -, hreplace⟩ := replace_spec hs hi
    obtain ⟨h', hdestroy, hs', hkeep⟩ := Buffer.destroy_spec hrest
    obtain ⟨hsound, hcontents⟩ := hreplace h' none hs' hkeep
    refine ⟨_, ?_, hsound, hcontents⟩
    rw [step, hi, Option.join_some, Option.bind_eq_bind, Option.bind_some, hdestroy,
      Option.bind_eq_bind, Option.bind_some]
    rfl
  | addAtStart i bytes =>
    obtain ⟨l, hl, rfl⟩ := Option.map_eq_some_iff.mp hspec
    obtain ⟨b, hi, hl⟩ := join_contents hl
    refine change_spec hs hi fun rest hrest _ => ?_
    obtain ⟨h₁, h', b', hadd, -, -, hwrite, hs', hkeep, -, -, -, hout⟩ :=
      Buffer.prepend_spec hrest _ (hok b hi)
    refine ⟨h', b', ?_, hs', hkeep, ?_⟩
    · rw [prepend, hadd, Option.bind_eq_bind, Option.bind_some]
      dsimp only
      rw [hwrite, Option.bind_eq_bind, Option.bind_some]
      rfl
    · rw [hout, hl, Option.map_some]
  | addAtEnd i bytes =>
    obtain ⟨l, hl, rfl⟩ := Option.map_eq_some_iff.mp hspec
    obtain ⟨b, hi, hl⟩ := join_contents hl
    refine change_spec hs hi fun rest hrest _ => ?_
    obtain ⟨h₁, h', b', hadd, -, -, hwrite, hs', hkeep, -, -, -, hout⟩ :=
      Buffer.append_spec hrest _ (hok b hi)
    refine ⟨h', b', ?_, hs', hkeep, ?_⟩
    · rw [append, hadd, Option.bind_eq_bind, Option.bind_some]
      dsimp only
      rw [hwrite, Option.bind_eq_bind, Option.bind_some]
      rfl
    · rw [hout, hl, Option.map_some]
  | addBufferAtEnd i j =>
    obtain ⟨hij, hspec⟩ : i ≠ j ∧ _ := by
      rw [BufferOp.spec] at hspec
      exact Option.ite_none_left_eq_some.mp hspec
    obtain ⟨l, hli, hspec⟩ := Option.bind_eq_some_iff.mp hspec
    obtain ⟨l', hlj, rfl⟩ := Option.map_eq_some_iff.mp hspec
    obtain ⟨b, hi, hli⟩ := join_contents hli
    obtain ⟨o, hj, hlj⟩ := join_contents hlj
    rw [step, if_neg hij, hj, Option.join_some, Option.bind_eq_bind, Option.bind_some]
    refine change_spec hs hi fun rest hrest hothers => ?_
    have ho := hothers j o (Ne.symm hij) hj
    obtain ⟨h', b', hadd, hs', hkeep, hout⟩ := Buffer.addBufferAtEnd_spec hrest ho (hok b o hi hj)
    refine ⟨h', b', hadd, hs', hkeep, ?_⟩
    rw [hout, hli, hlj, Option.bind_some, Option.map_some]
  | removeAtStart i start =>
    obtain ⟨l, hl, rfl⟩ := Option.map_eq_some_iff.mp hspec
    obtain ⟨b, hi, hl⟩ := join_contents hl
    refine change_spec (f := fun h b => some (h, b.removeAtStart start.toNat)) hs hi
      fun rest hrest _ => ?_
    obtain ⟨hs', hout⟩ := Buffer.removeAtStart_spec hrest (hok b hi)
    exact ⟨p.heap, _, rfl, hs', fun c _ => rfl, by rw [hout, hl, Option.map_some]⟩
  | removeAtEnd i stop =>
    obtain ⟨l, hl, rfl⟩ := Option.map_eq_some_iff.mp hspec
    obtain ⟨b, hi, hl⟩ := join_contents hl
    refine change_spec (f := fun h b => some (h, b.removeAtEnd stop.toNat)) hs hi
      fun rest hrest _ => ?_
    obtain ⟨hs', hout⟩ := Buffer.removeAtEnd_spec (n := stop.toNat) hrest
    exact ⟨p.heap, _, rfl, hs', fun c _ => rfl, by rw [hout, hl, Option.map_some]⟩

/-! ## Runs -/

/-- No variables yet; `fresh` is what new memory happens to hold. -/
def start (fresh : ℕ → ℕ → UInt8) : BufferProgram := ⟨.new fresh, []⟩

def programs (fresh : ℕ → ℕ → UInt8) : System BufferProgram BufferOp where
  init p := p = start fresh
  step p e p' := p.step e = some p'

variable {fresh : ℕ → ℕ → UInt8}

theorem sound_start : Sound (start fresh).heap (start fresh).live where
  bounded _ _ := rfl
  fits b hb := absurd hb (by simp [start, live])
  counted a d hd := by cases hd
  small a d hd := by cases hd
  freeSmall d hd := absurd hd (by simp [start, Heap.new])
  ends b hb := absurd hb (by simp [start, live])

theorem contents_join (hs : Sound p.heap p.live) (hi : p.vars[i]?.join = some b) :
    ∃ l, p.contents[i]?.join = some l := by
  have hi' : p.vars[i]? = some (some b) := by
    rcases hv : p.vars[i]? with _ | _ | c
    · rw [hv] at hi
      cases hi
    · rw [hv] at hi
      cases hi
    · rw [hv] at hi
      cases hi
      rfl
  have hb := mem_live.mpr (List.mem_of_getElem? hi')
  obtain ⟨l, hl, -⟩ := Buffer.length_stored hs hb
  have hcontent := hs.content_eq hb
  rw [hl, Option.map_some] at hcontent
  refine ⟨spread b.head b.zeroes 0 l, ?_⟩
  unfold contents
  rw [List.getElem?_map, hi', Option.map_some, Option.join_some, Option.bind_some, hcontent]

theorem change_inv {f : Heap → Buffer → Option (Heap × Buffer)} {p' : BufferProgram}
    (hs : Sound p.heap p.live) (h : p.change i f = some p') :
    ∃ l, p.contents[i]?.join = some l := by
  obtain ⟨b, hi, -⟩ := Option.bind_eq_some_iff.mp h
  exact contents_join hs hi

/-- An operation on buffers that are there is one on lists that are there. -/
theorem spec_of_step (hs : Sound p.heap p.live) {e : BufferOp} {p' : BufferProgram}
    (h : p.step e = some p') : ∃ ls, e.spec p.contents = some ls := by
  cases e with
  | create zeroSize => exact ⟨_, rfl⟩
  | copy j | createFragment j start length =>
    obtain ⟨o, hj, -⟩ := Option.bind_eq_some_iff.mp h
    obtain ⟨l, hl⟩ := contents_join hs hj
    exact ⟨_, Option.map_eq_some_iff.mpr ⟨l, hl, rfl⟩⟩
  | assign i j =>
    obtain ⟨o, hj, h⟩ := Option.bind_eq_some_iff.mp h
    obtain ⟨l, hl⟩ := change_inv hs h
    obtain ⟨l', hl'⟩ := contents_join hs hj
    exact ⟨_, Option.bind_eq_some_iff.mpr ⟨l, hl, Option.map_eq_some_iff.mpr ⟨l', hl', rfl⟩⟩⟩
  | destroy i =>
    obtain ⟨b, hi, -⟩ := Option.bind_eq_some_iff.mp h
    obtain ⟨l, hl⟩ := contents_join hs hi
    exact ⟨_, Option.map_eq_some_iff.mpr ⟨l, hl, rfl⟩⟩
  | addAtStart i bytes | addAtEnd i bytes =>
    obtain ⟨l, hl⟩ := change_inv hs h
    exact ⟨_, Option.map_eq_some_iff.mpr ⟨l, hl, rfl⟩⟩
  | removeAtStart i start | removeAtEnd i stop =>
    rw [step] at h
    obtain ⟨l, hl⟩ := change_inv hs h
    exact ⟨_, Option.map_eq_some_iff.mpr ⟨l, hl, rfl⟩⟩
  | addBufferAtEnd i j =>
    rw [step] at h
    obtain ⟨hij, h⟩ := Option.ite_none_left_eq_some.mp h
    obtain ⟨o, hj, h⟩ := Option.bind_eq_some_iff.mp h
    obtain ⟨l, hl⟩ := change_inv hs h
    obtain ⟨l', hl'⟩ := contents_join hs hj
    rw [BufferOp.spec, if_neg hij]
    exact ⟨_, Option.bind_eq_some_iff.mpr ⟨l, hl, Option.map_eq_some_iff.mpr ⟨l', hl', rfl⟩⟩⟩

/-- A program within bounds leaves in its buffers what its operations leave in their lists. -/
theorem run_spec {es : List BufferOp}
    (h : ((programs fresh).restrict InBounds).Run (start fresh) es p) :
    Sound p.heap p.live ∧ es.foldlM BufferOp.spec [] = some p.contents := by
  induction h with
  | nil => exact ⟨sound_start, rfl⟩
  | snoc _ hlast ih =>
    obtain ⟨hs, hls⟩ := ih
    obtain ⟨hok, hstep⟩ := hlast
    obtain ⟨ls, hspec⟩ := spec_of_step hs hstep
    obtain ⟨p', hp', hs', hcontents⟩ := step_spec hs hok hspec
    rw [show _ = some _ from hstep] at hp'
    cases hp'
    refine ⟨hs', ?_⟩
    rw [List.foldlM_append, hls, Option.bind_eq_bind, Option.bind_some, hcontents,
      List.foldlM_cons, hspec]
    rfl

/-- Two buffers share their storage, and one is made shorter. -/
def sampleShared : List BufferOp := [.create 2, .copy 0, .removeAtEnd 1 5]

def sampleInBounds (p : BufferProgram) : BufferOp → Bool
  | .create zeroSize => Buffer.initialStart p.heap + zeroSize.toNat < 2 ^ 32
  | .copy _ | .removeAtEnd _ _ => true
  | _ => false

theorem inBounds_of_sample {e : BufferOp} (h : sampleInBounds p e = true) : p.InBounds e := by
  cases e <;> simp_all [sampleInBounds, InBounds]

/-- A buffer with a zero area and two bytes behind it, put behind a buffer that was emptied. -/
def sampleAppend : List BufferOp :=
  [.create 0, .addAtEnd 0 (List.replicate 20 9), .removeAtEnd 0 20, .addAtEnd 0 [], .create 3,
    .addAtEnd 1 [1, 2], .addBufferAtEnd 0 1]

end BufferProgram

end Ns3.Network
