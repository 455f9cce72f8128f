import Ns3.Aodv.Packet

/-!
# The AODV routing table

`aodv-rtable.cc`. An entry's interface and output device are always set
together and are one field, the interface's address. The timer for the
acknowledgement of a reply is only ever given a delay, never started, so that no
link is ever marked as unidirectional. `All P` says that the table is keyed
by destination and every entry has `P`; the operations keep it.
-/

namespace Ns3.Aodv

open Ns3.Lib

inductive RouteFlags where
  | valid
  | invalid
  | inSearch
  deriving DecidableEq, Repr

structure RoutingTableEntry where
  dst : Ipv4Address
  validSeqNo : Bool
  seqNo : UInt32
  iface : Option Ipv4Address
  /-- The source address of the route, that of the interface the entry was made for. -/
  source : Ipv4Address
  hops : UInt16
  nextHop : Ipv4Address
  /-- The time at which the entry expires. -/
  lifeTime : ℤ
  flag : RouteFlags
  reqCount : UInt8
  blackListState : Bool
  precursors : List Ipv4Address
  deriving DecidableEq, Repr

namespace RoutingTableEntry

/-- `Ipv4Address ()`. -/
def unset : Ipv4Address := 0x66666666

/-- The constructor. -/
def ofRoute (now : ℕ) (iface : Option Ipv4Address) (dst : Ipv4Address) (vSeqNo : Bool)
    (seqNo : UInt32) (hops : UInt16) (nextHop : Ipv4Address) (lifetime : ℤ) :
    RoutingTableEntry where
  dst := dst
  validSeqNo := vSeqNo
  seqNo := seqNo
  iface := iface
  source := iface.getD unset
  hops := hops
  nextHop := nextHop
  lifeTime := lifetime + now
  flag := .valid
  reqCount := 0
  blackListState := false
  precursors := []

/-- `RoutingTableEntry ()`, what a variable holds when a lookup has failed. -/
def blank (now : ℕ) : RoutingTableEntry := ofRoute now none unset false 0 0 unset now

def getLifeTime (e : RoutingTableEntry) (now : ℕ) : ℤ := e.lifeTime - now

def setLifeTime (e : RoutingTableEntry) (now : ℕ) (lt : ℤ) : RoutingTableEntry :=
  { e with lifeTime := lt + now }

def insertPrecursor (e : RoutingTableEntry) (id : Ipv4Address) : RoutingTableEntry :=
  if id ∈ e.precursors then e else { e with precursors := e.precursors ++ [id] }

/-- `GetPrecursors`: those not collected yet. -/
def getPrecursors (e : RoutingTableEntry) (prec : List Ipv4Address) : List Ipv4Address :=
  e.precursors.foldl (fun prec i => if i ∈ prec then prec else prec ++ [i]) prec

def invalidate (e : RoutingTableEntry) (now : ℕ) (badLinkLifetime : ℤ) : RoutingTableEntry :=
  if e.flag = .invalid then e
  else { e with flag := .invalid, reqCount := 0, lifeTime := badLinkLifetime + now }

/-- What `AddRoute` and `Update` do to the count of an entry that is not searched for. -/
def settle (e : RoutingTableEntry) : RoutingTableEntry :=
  if e.flag = .inSearch then e else { e with reqCount := 0 }

/-- What `Purge` does to an entry. -/
def purge (e : RoutingTableEntry) (now : ℕ) (badLinkLifetime : ℤ) : Option RoutingTableEntry :=
  if e.getLifeTime now < 0 then
    match e.flag with
    | .invalid => none
    | .valid => some (e.invalidate now badLinkLifetime)
    | .inSearch => some e
  else some e

end RoutingTableEntry

/-- `badLinkLifetime` is what `DeletePeriod` is when the protocol is constructed. -/
structure RoutingTable where
  entries : StdMap Ipv4Address RoutingTableEntry
  badLinkLifetime : ℕ
  deriving DecidableEq

namespace RoutingTable

def purge (t : RoutingTable) (now : ℕ) : RoutingTable :=
  { t with entries := t.entries.filterMap fun _ e => e.purge now t.badLinkLifetime }

/-- `LookupRoute`, which purges first. -/
def lookupRoute (t : RoutingTable) (now : ℕ) (id : Ipv4Address) :
    Option RoutingTableEntry × RoutingTable :=
  let t := t.purge now
  (t.entries.find id, t)

def deleteRoute (t : RoutingTable) (now : ℕ) (dst : Ipv4Address) : RoutingTable :=
  let t := t.purge now
  { t with entries := t.entries.erase dst }

def addRoute (t : RoutingTable) (now : ℕ) (rt : RoutingTableEntry) : RoutingTable :=
  let t := t.purge now
  { t with entries := t.entries.insert rt.dst rt.settle }

def update (t : RoutingTable) (rt : RoutingTableEntry) : RoutingTable :=
  match t.entries.find rt.dst with
  | none => t
  | some _ => { t with entries := t.entries.assign rt.dst rt.settle }

def getListOfDestinationWithNextHop (t : RoutingTable) (now : ℕ) (nextHop : Ipv4Address) :
    StdMap Ipv4Address UInt32 × RoutingTable :=
  let t := t.purge now
  (t.entries.filterMap fun _ e => if e.nextHop = nextHop then some e.seqNo else none, t)

def invalidateRoutesWithDst (t : RoutingTable) (now : ℕ)
    (unreachable : StdMap Ipv4Address UInt32) : RoutingTable :=
  let t := t.purge now
  { t with entries := t.entries.filterMap fun dst e =>
      if unreachable.contains dst ∧ e.flag = .valid then some (e.invalidate now t.badLinkLifetime)
      else some e }

/-! ## What all entries have -/

/-- A property of entries that no purge, no update that only notes a precursor or a lifetime and
no reset of a count takes away. -/
structure Lasting (P : RoutingTableEntry → Prop) : Prop where
  lifeTime : ∀ e l, P e → P { e with lifeTime := l }
  precursors : ∀ e ps, P e → P { e with precursors := ps }
  invalidate : ∀ e, P e → P { e with flag := .invalid, reqCount := 0 }
  settle : ∀ e, P e → e.flag ≠ .inSearch → P { e with reqCount := 0 }

/-- The entries are found under their destinations, and all have `P`. -/
def All (P : RoutingTableEntry → Prop) (t : RoutingTable) : Prop :=
  ∀ dst e, t.entries.find dst = some e → e.dst = dst ∧ P e

variable {P : RoutingTableEntry → Prop} {t : RoutingTable} {now : ℕ} {e : RoutingTableEntry}
  {dst : Ipv4Address}

theorem Lasting.insertPrecursor (hP : Lasting P) {id : Ipv4Address} (h : P e) :
    P (e.insertPrecursor id) := by
  unfold RoutingTableEntry.insertPrecursor
  split
  · exact h
  · exact hP.precursors e _ h

@[simp] theorem dst_insertPrecursor {id : Ipv4Address} : (e.insertPrecursor id).dst = e.dst := by
  unfold RoutingTableEntry.insertPrecursor
  split <;> rfl

@[simp] theorem dst_settle : e.settle.dst = e.dst := by
  unfold RoutingTableEntry.settle
  split <;> rfl

@[simp] theorem dst_invalidate {l : ℤ} : (e.invalidate now l).dst = e.dst := by
  unfold RoutingTableEntry.invalidate
  split <;> rfl

theorem flag_invalidate {l : ℤ} : (e.invalidate now l).flag = .invalid := by
  unfold RoutingTableEntry.invalidate
  split <;> trivial

theorem Lasting.invalidated (hP : Lasting P) {l : ℤ} (h : P e) : P (e.invalidate now l) := by
  unfold RoutingTableEntry.invalidate
  split
  · exact h
  · exact hP.lifeTime _ _ (hP.invalidate e h)

theorem Lasting.settled (hP : Lasting P) (h : P e) : P e.settle := by
  unfold RoutingTableEntry.settle
  split
  · exact h
  · exact hP.settle e h ‹_›

/-- An entry after a purge is the entry before it, or that entry invalidated. -/
theorem purge_eq_some {e' : RoutingTableEntry} {l : ℤ} (h : e.purge now l = some e') :
    e' = e ∨ e.flag = .valid ∧ e' = e.invalidate now l := by
  unfold RoutingTableEntry.purge at h
  split at h
  · split at h
    · cases h
    · rename_i hvalid
      cases h
      exact .inr ⟨hvalid, rfl⟩
    · cases h
      exact .inl rfl
  · cases h
    exact .inl rfl

theorem find_purge : (t.purge now).entries.find dst =
    (t.entries.find dst).bind fun e => e.purge now t.badLinkLifetime := StdMap.find_filterMap _ _ _

/-- What a purge leaves is left alone by the next one at the same time. -/
theorem purge_purge_entry {l : ℕ} : (e.purge now l).bind (fun e => e.purge now l) = e.purge now l := by
  unfold RoutingTableEntry.purge
  split
  · rename_i hexp
    cases hflag : e.flag with
    | valid =>
      have hnot : ¬ (e.invalidate now l).getLifeTime now < 0 := by
        unfold RoutingTableEntry.invalidate RoutingTableEntry.getLifeTime
        rw [hflag]
        simp
      simp [hnot]
    | invalid => rfl
    | inSearch => simp [hexp, hflag]
  · rename_i hlive
    simp [hlive]

theorem purge_purge : (t.purge now).purge now = t.purge now := by
  have hentries : ((t.purge now).purge now).entries = (t.purge now).entries := by
    ext dst : 1
    rw [find_purge, find_purge]
    cases t.entries.find dst with
    | none => rfl
    | some e => exact purge_purge_entry
  exact congrArg (fun es => ({ t with entries := es } : RoutingTable)) hentries

/-- Tables with the same entries off `a` have the same entries off `a` after a purge. -/
theorem purge_frame {t₀ : RoutingTable} {a d : Ipv4Address}
    (hbad : t.badLinkLifetime = t₀.badLinkLifetime)
    (hoff : ∀ d, d ≠ a → t.entries.find d = (t₀.purge now).entries.find d) (hd : d ≠ a) :
    (t.purge now).entries.find d = (t₀.purge now).entries.find d := by
  rw [find_purge, hoff d hd, hbad]
  show (t₀.purge now).entries.find d >>= _ = _
  exact (find_purge (t := t₀.purge now)).symm.trans
    (by rw [purge_purge])

theorem nextHop_of_purge {e' : RoutingTableEntry} {l : ℤ}
    (h : e.purge now l = some e') : e'.nextHop = e.nextHop := by
  rcases purge_eq_some h with rfl | ⟨hvalid, rfl⟩
  · rfl
  · unfold RoutingTableEntry.invalidate
    rw [hvalid]
    rfl

theorem find_addRoute_new {rt : RoutingTableEntry} {d : Ipv4Address}
    (hnew : (t.purge now).entries.find rt.dst = none) :
    ((t.addRoute now rt).entries.find d) =
      if d = rt.dst then some rt.settle else (t.purge now).entries.find d := by
  show ((t.purge now).entries.insert rt.dst rt.settle).find d = _
  rw [StdMap.find_insert, hnew]
  by_cases hd : d = rt.dst <;> simp [hd]

theorem find_update_old {rt : RoutingTableEntry} {d : Ipv4Address}
    (hold : t.entries.find rt.dst = some e) :
    (t.update rt).entries.find d = if d = rt.dst then some rt.settle else t.entries.find d := by
  unfold update
  rw [hold]
  show (t.entries.assign rt.dst rt.settle).find d = _
  rw [StdMap.find_assign]
  by_cases hd : d = rt.dst <;> simp [hd]

theorem badLinkLifetime_update {rt : RoutingTableEntry} :
    (t.update rt).badLinkLifetime = t.badLinkLifetime := by
  unfold update
  split <;> rfl

theorem All.purge (h : t.All P) (hP : Lasting P) : (t.purge now).All P := by
  intro dst e he
  rw [find_purge] at he
  obtain ⟨old, hold, hpurge⟩ := Option.bind_eq_some_iff.mp he
  obtain ⟨hdst, hp⟩ := h dst old hold
  rcases purge_eq_some hpurge with rfl | ⟨-, rfl⟩
  · exact ⟨hdst, hp⟩
  · exact ⟨dst_invalidate.trans hdst, hP.invalidated hp⟩

theorem All.deleteRoute (h : t.All P) (hP : Lasting P) : (t.deleteRoute now dst).All P := by
  intro d e he
  have hfind : ((t.purge now).entries.erase dst).find d = some e := he
  rw [StdMap.find_erase] at hfind
  split at hfind
  · cases hfind
  · exact h.purge hP d e hfind

theorem All.addRoute (h : t.All P) (hP : Lasting P) (he : P e.settle) : (t.addRoute now e).All P := by
  intro d e' hd
  have hfind : ((t.purge now).entries.insert e.dst e.settle).find d = some e' := hd
  rw [StdMap.find_insert] at hfind
  split at hfind
  · rename_i hde
    cases hfind
    cases hold : (t.purge now).entries.find e.dst with
    | none => exact ⟨dst_settle.trans hde.symm, he⟩
    | some old =>
      obtain ⟨hdst, hp⟩ := h.purge hP _ _ hold
      exact ⟨hdst.trans hde.symm, hp⟩
  · exact h.purge hP d e' hfind

theorem All.update (h : t.All P) (he : P e.settle) : (t.update e).All P := by
  unfold RoutingTable.update
  split
  · exact h
  · intro d e' hd
    have hfind : (t.entries.assign e.dst e.settle).find d = some e' := hd
    rw [StdMap.find_assign] at hfind
    split at hfind
    · rename_i hde
      cases hfind
      exact ⟨dst_settle.trans hde.symm, he⟩
    · exact h d e' hfind

theorem All.invalidateRoutesWithDst (h : t.All P) (hP : Lasting P)
    {unreachable : StdMap Ipv4Address UInt32} :
    (t.invalidateRoutesWithDst now unreachable).All P := by
  intro d e he
  have hfind := (StdMap.find_filterMap _ _ d).symm.trans he
  obtain ⟨old, hold, hpass⟩ := Option.bind_eq_some_iff.mp hfind
  obtain ⟨hdst, hp⟩ := h.purge hP d old hold
  split at hpass
  · cases hpass
    exact ⟨dst_invalidate.trans hdst, hP.invalidated hp⟩
  · cases hpass
    exact ⟨hdst, hp⟩

end RoutingTable

end Ns3.Aodv
