import Ns3.Lib.Run
import Ns3.Lib.SharedList

/-!
# `PacketTagList`

`packet-tag-list.cc` and `packet-tag-list.h`: the tags of a packet, serialized,
in a list whose tail is shared with the copies of the packet. The family of all
lists lies in one store. The loops get as many rounds as there are addresses,
and one more.
-/

namespace Ns3.Network

open Ns3.Lib

/-- What the tag classes say about their values: the tag of type `tid` with the value `v` is written
as `serialize tid v`, which has the length that `GetSerializedSize` gives. -/
structure TagCodec (ι V : Type) where
  serialize : ι → V → List UInt8
  deserialize : ι → List UInt8 → V

/-- `Deserialize` reads back what `Serialize` wrote, and not more. -/
def TagCodec.Lawful {ι V : Type} (C : TagCodec ι V) : Prop :=
  ∀ tid v rest, C.deserialize tid (C.serialize tid v ++ rest) = v

/-- `size` is the length of `data`. -/
structure TagBytes (ι : Type) where
  tid : ι
  data : List UInt8
  deriving DecidableEq

/-- `TagData`: a cell of the list. -/
abbrev TagData (ι : Type) := Cell (TagBytes ι)

/-- The cells that were allocated, and the family of lists; `heads i` is `m_next` of the list `i`. -/
abbrev Tags (ι : Type) := Store (TagBytes ι)

namespace PacketTagList

variable {ι V : Type} [DecidableEq ι]

/-- Where the search of `COWTraverse` from the head of a list ends: at the null pointer, at the first
merge, or at the tag. -/
inductive Found
  | nothing
  | merge (prevNext : Loc) (cur : ℕ)
  | tag (prevNext : Loc) (cur : ℕ)
  deriving DecidableEq

def search (tags : Tags ι) (tid : ι) : ℕ → Loc → Option Found
  | 0, _ => none
  | fuel + 1, prevNext =>
    match tags.read prevNext with
    | none => some .nothing
    | some cur =>
      match tags.cells cur with
      | none => none
      | some c =>
        if 1 < c.count then some (.merge prevNext cur)
        else if c.value.tid = tid then some (.tag prevNext cur)
        else search tags tid fuel (.next cur)

/-- The loops that look for a type from `cur` on. -/
def find (tags : Tags ι) (tid : ι) : ℕ → Option ℕ → Option (Option ℕ)
  | 0, _ => none
  | _ + 1, none => some none
  | fuel + 1, some cur =>
    match tags.cells cur with
    | none => none
    | some c => if c.value.tid = tid then some (some cur) else find tags tid fuel c.next

/-- The loop that copies up to the tag. -/
def copyUntil (tid : ι) : ℕ → Tags ι → Loc → ℕ → Option (Tags ι × Loc × ℕ)
  | 0, _, _, _ => none
  | fuel + 1, tags, prevNext, cur =>
    match tags.cells cur with
    | none => none
    | some c =>
      if c.value.tid = tid then some (tags, prevNext, cur)
      else
        match c.next with
        | none => none
        | some next =>
          let tags := tags.recount cur (· - 1)
          let copy := tags.brk
          let tags := tags.alloc ⟨some next, 1, c.value⟩
          let tags := tags.recount next (· + 1)
          copyUntil tid fuel (tags.write (some copy) prevNext) (.next copy) next

/-- A `COWWriter`: given whether the tag was found before the first merge, the cell, and the location
that points to it. The result is what was done, with the new cells. -/
abbrev COWWriter (ι ρ : Type) := Tags ι → Bool → ℕ → Loc → Option (ρ × Tags ι)

def cowTraverse {ρ : Type} (tags : Tags ι) (i : ℕ) (tid : ι) (writer : COWWriter ι ρ) :
    Option (Option ρ × Tags ι) :=
  let fuel := tags.brk + 1
  let found (r : Option (ρ × Tags ι)) : Option (Option ρ × Tags ι) := r.map fun r => (some r.1, r.2)
  match search tags tid fuel (.head i) with
  | none => none
  | some .nothing => some (none, tags)
  | some (.tag prevNext cur) => found (writer tags true cur prevNext)
  | some (.merge prevNext cur) =>
    match find tags tid fuel (some cur) with
    | none => none
    | some none => some (none, tags)
    | some (some _) =>
      match copyUntil tid fuel tags prevNext cur with
      | none => none
      | some (tags, prevNext, cur) => found (writer tags false cur prevNext)

def removeWriter (C : TagCodec ι V) (tid : ι) : COWWriter ι V := fun tags preMerge cur prevNext =>
  match tags.cells cur with
  | none => none
  | some c =>
    let value := C.deserialize tid c.value.data
    let tags := tags.write c.next prevNext
    if preMerge then some (value, tags.free cur)
    else some (value, (tags.recount cur (· - 1)).acquire c.next)

/-- A `TagBuffer` has the size of the cell; writing past its end is not defined. -/
def serializeInto (data bytes : List UInt8) : Option (List UInt8) :=
  if bytes.length ≤ data.length then some (bytes ++ data.drop bytes.length) else none

def replaceWriter (C : TagCodec ι V) (tid : ι) (v : V) : COWWriter ι Unit :=
  fun tags preMerge cur prevNext =>
    match tags.cells cur with
    | none => none
    | some c =>
      if preMerge then
        match serializeInto c.value.data (C.serialize tid v) with
        | none => none
        | some data =>
          some ((), tags.modify cur fun c => { c with value := { c.value with data := data } })
      else
        let tags := tags.recount cur (· - 1)
        let copy := tags.brk
        let tags := tags.alloc ⟨c.next, 1, ⟨tid, C.serialize tid v⟩⟩
        some ((), (tags.acquire c.next).write (some copy) prevNext)

/-- `Add`; that the type is not in the list is only asserted. -/
def add (C : TagCodec ι V) (tags : Tags ι) (i : ℕ) (tid : ι) (v : V) : Tags ι :=
  (tags.alloc ⟨tags.heads i, 1, ⟨tid, C.serialize tid v⟩⟩).write (some tags.brk) (.head i)

/-- `Remove`, with the value that the tag is set to where it was found. -/
def remove (C : TagCodec ι V) (tags : Tags ι) (i : ℕ) (tid : ι) : Option (Option V × Tags ι) :=
  cowTraverse tags i tid (removeWriter C tid)

def replace (C : TagCodec ι V) (tags : Tags ι) (i : ℕ) (tid : ι) (v : V) : Option (Bool × Tags ι) :=
  match cowTraverse tags i tid (replaceWriter C tid v) with
  | none => none
  | some (some (), tags) => some (true, tags)
  | some (none, tags) => some (false, add C tags i tid v)

def peek (C : TagCodec ι V) (tags : Tags ι) (i : ℕ) (tid : ι) : Option (Option V) :=
  match find tags tid (tags.brk + 1) (tags.heads i) with
  | none => none
  | some none => some none
  | some (some cur) =>
    match tags.cells cur with
    | none => none
    | some c => some (some (C.deserialize tid c.value.data))

/-- The loop of `RemoveAll`: it frees one cell late, after it has read its link. -/
def release : ℕ → Tags ι → Option ℕ → Option (Tags ι)
  | 0, _, _ => none
  | _ + 1, tags, none => some tags
  | fuel + 1, tags, some cur =>
    match tags.cells cur with
    | none => none
    | some c =>
      if 0 < c.count - 1 then some (tags.recount cur (· - 1))
      else release fuel (tags.free cur) c.next

def removeAll (tags : Tags ι) (i : ℕ) : Option (Tags ι) :=
  (release (tags.brk + 1) tags (tags.heads i)).map fun tags => tags.write none (.head i)

/-- The copy constructor. -/
def copy (tags : Tags ι) (j : ℕ) : Tags ι := (tags.acquire (tags.heads j)).newList (tags.heads j)

/-- `operator=`. -/
def assign (tags : Tags ι) (i j : ℕ) : Option (Tags ι) :=
  if tags.heads i = tags.heads j then some tags
  else (removeAll tags i).map fun tags =>
    (tags.write (tags.heads j) (.head i)).acquire (tags.heads j)

end PacketTagList

/-! ## Families of lists -/

open PacketTagList

/-- What is done with the lists; a destructor does what `removeAll` does. -/
inductive TagOperation (ι V : Type)
  | create
  | copy (j : ℕ)
  | assign (i j : ℕ)
  | add (i : ℕ) (tid : ι) (v : V)
  | remove (i : ℕ) (tid : ι)
  | replace (i : ℕ) (tid : ι) (v : V)
  | removeAll (i : ℕ)

/-- The lists, and the maps that they should be. -/
structure TagFamily (ι V : Type) where
  tags : Tags ι
  maps : ℕ → ι → Option V

namespace TagFamily

variable {ι V : Type} [DecidableEq ι]

/-- What an operation does to maps that share nothing, when there are `n` of them. -/
def onMaps (maps : ℕ → ι → Option V) (n : ℕ) : TagOperation ι V → ℕ → ι → Option V
  | .create => Function.update maps n fun _ => none
  | .copy j => Function.update maps n (maps j)
  | .assign i j => Function.update maps i (maps j)
  | .add i tid v => Function.update maps i (Function.update (maps i) tid (some v))
  | .remove i tid => Function.update maps i (Function.update (maps i) tid none)
  | .replace i tid v => Function.update maps i (Function.update (maps i) tid (some v))
  | .removeAll i => Function.update maps i fun _ => none

def onTags (C : TagCodec ι V) (tags : Tags ι) : TagOperation ι V → Option (Tags ι)
  | .create => some (tags.newList none)
  | .copy j => some (copy tags j)
  | .assign i j => assign tags i j
  | .add i tid v => some (add C tags i tid v)
  | .remove i tid => (remove C tags i tid).map Prod.snd
  | .replace i tid v => (replace C tags i tid v).map Prod.snd
  | .removeAll i => removeAll tags i

/-- The lists that an operation names exist. -/
def Named (n : ℕ) : TagOperation ι V → Prop
  | .create => True
  | .copy j => j < n
  | .assign i j => i < n ∧ j < n
  | .add i _ _ => i < n
  | .remove i _ => i < n
  | .replace i _ _ => i < n
  | .removeAll i => i < n

def system (C : TagCodec ι V) : System (TagFamily ι V) (TagOperation ι V) where
  init w := w = ⟨.empty, fun _ _ => none⟩
  step w o w' := Named w.tags.lists o ∧ onTags C w.tags o = some w'.tags ∧
    w'.maps = onMaps w.maps w.tags.lists o

/-- What the list asserts when a tag is added; and a tag that is replaced where it is found, before
the first merge, is not larger than the one that is there. -/
def Fits (C : TagCodec ι V) (w : TagFamily ι V) : TagOperation ι V → Prop
  | .add i tid _ => find w.tags tid (w.tags.brk + 1) (w.tags.heads i) = some none
  | .replace i tid v => ∀ prevNext cur c,
      search w.tags tid (w.tags.brk + 1) (.head i) = some (.tag prevNext cur) →
        w.tags.cells cur = some c → (C.serialize tid v).length ≤ c.value.data.length
  | _ => True

end TagFamily

end Ns3.Network
