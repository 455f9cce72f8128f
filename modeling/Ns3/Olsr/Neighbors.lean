import Ns3.Olsr.State

/-!
# The neighbor sets of OLSR

`olsr-repositories.h` and the functions of `olsr-state.cc` on the neighbor set
and the two-hop neighbor set. A main address is in the neighbor set once, and a
pair of addresses in the two-hop neighbor set once: the functions that insert
look first.
-/

namespace Ns3.Olsr

/-- `OLSR_WILL_NEVER`. -/
def willNever : UInt8 := 0

/-- `OLSR_WILL_ALWAYS`. -/
def willAlways : UInt8 := 7

/-- `NeighborTuple::Status`. -/
inductive Status
  | notSym
  | sym
  deriving DecidableEq

structure NeighborTuple where
  neighborMainAddr : Ipv4Address
  status : Status
  willingness : UInt8
  deriving DecidableEq

structure TwoHopNeighborTuple where
  neighborMainAddr : Ipv4Address
  twoHopNeighborAddr : Ipv4Address
  expirationTime : Time
  deriving DecidableEq

/-! ## Neighbors -/

structure NeighborSet where
  tuples : List NeighborTuple
  nodup : (tuples.map NeighborTuple.neighborMainAddr).Nodup

namespace NeighborSet

variable (ns : NeighborSet)

def findNeighborTuple (mainAddr : Ipv4Address) : Option NeighborTuple :=
  ns.tuples.find? fun n => n.neighborMainAddr = mainAddr

def insertTuple (tuple : NeighborTuple) : List NeighborTuple → List NeighborTuple
  | [] => [tuple]
  | n :: ns =>
    if n.neighborMainAddr = tuple.neighborMainAddr then tuple :: ns else n :: insertTuple tuple ns

theorem mem_insertTuple {tuple : NeighborTuple} {ns : List NeighborTuple} {a : Ipv4Address}
    (h : a ∈ (insertTuple tuple ns).map NeighborTuple.neighborMainAddr) :
    a = tuple.neighborMainAddr ∨ a ∈ ns.map NeighborTuple.neighborMainAddr := by
  induction ns with
  | nil => exact .inl (List.mem_singleton.mp h)
  | cons n ns ih =>
    unfold insertTuple at h
    split at h
    · exact (List.mem_cons.mp h).imp_right (List.mem_cons_of_mem _)
    · rcases List.mem_cons.mp h with rfl | h
      · exact .inr List.mem_cons_self
      · exact (ih h).imp_right (List.mem_cons_of_mem _)

theorem nodup_insertTuple (tuple : NeighborTuple) {ns : List NeighborTuple}
    (h : (ns.map NeighborTuple.neighborMainAddr).Nodup) :
    ((insertTuple tuple ns).map NeighborTuple.neighborMainAddr).Nodup := by
  induction ns with
  | nil => exact List.nodup_singleton _
  | cons n ns ih =>
    obtain ⟨hn, hns⟩ := List.nodup_cons.mp h
    unfold insertTuple
    split
    · rename_i heq
      rw [heq] at hn
      exact List.nodup_cons.mpr ⟨hn, hns⟩
    · rename_i hne
      refine List.nodup_cons.mpr ⟨fun hmem => ?_, ih hns⟩
      exact (mem_insertTuple hmem).elim hne hn

/-- Also what the changes of `status` and `willingness` in place do. -/
def insertNeighborTuple (tuple : NeighborTuple) : NeighborSet :=
  ⟨insertTuple tuple ns.tuples, nodup_insertTuple tuple ns.nodup⟩

def eraseNeighborTuple (mainAddr : Ipv4Address) : NeighborSet where
  tuples := ns.tuples.eraseP fun n => n.neighborMainAddr = mainAddr
  nodup := ns.nodup.sublist ((List.eraseP_sublist).map _)

variable {ns}

/-- The tuple with a main address is the one that is found. -/
theorem find_of_mem {n : NeighborTuple} (hn : n ∈ ns.tuples) {p : NeighborTuple → Bool}
    (hp : p n = true) :
    (ns.tuples.filter p).find? (fun n' => n'.neighborMainAddr = n.neighborMainAddr) = some n := by
  have hnodup := ns.nodup
  generalize ns.tuples = tuples at hn hnodup
  induction tuples with
  | nil => cases hn
  | cons n' tuples ih =>
    obtain ⟨hn', hrest⟩ := List.nodup_cons.mp hnodup
    rcases List.mem_cons.mp hn with rfl | hn
    · rw [List.filter_cons_of_pos hp]
      exact List.find?_cons_of_pos (decide_eq_true rfl)
    · have hne : n'.neighborMainAddr ≠ n.neighborMainAddr := fun heq =>
        hn' (heq ▸ List.mem_map_of_mem hn)
      by_cases hp' : p n' = true
      · rw [List.filter_cons_of_pos hp', List.find?_cons_of_neg (by simpa using hne)]
        exact ih hn hrest
      · rw [List.filter_cons_of_neg hp']
        exact ih hn hrest

end NeighborSet

/-! ## Two-hop neighbors -/

structure TwoHopNeighborSet where
  tuples : List TwoHopNeighborTuple
  nodup : (tuples.map fun t => (t.neighborMainAddr, t.twoHopNeighborAddr)).Nodup

namespace TwoHopNeighborSet

variable (ts : TwoHopNeighborSet)

/-- The part of `PopulateTwoHopNeighborSet` for one address: a pair that is there already gets the
new time. -/
def addTuple (tuple : TwoHopNeighborTuple) : List TwoHopNeighborTuple → List TwoHopNeighborTuple
  | [] => [tuple]
  | t :: ts =>
    if t.neighborMainAddr = tuple.neighborMainAddr ∧
        t.twoHopNeighborAddr = tuple.twoHopNeighborAddr then
      { t with expirationTime := tuple.expirationTime } :: ts
    else t :: addTuple tuple ts

/-- The two addresses of a tuple. -/
def pair (t : TwoHopNeighborTuple) : Ipv4Address × Ipv4Address :=
  (t.neighborMainAddr, t.twoHopNeighborAddr)

theorem mem_addTuple {tuple : TwoHopNeighborTuple} {ts : List TwoHopNeighborTuple}
    {p : Ipv4Address × Ipv4Address} (h : p ∈ (addTuple tuple ts).map pair) :
    p = pair tuple ∨ p ∈ ts.map pair := by
  induction ts with
  | nil => exact .inl (List.mem_singleton.mp h)
  | cons t ts ih =>
    unfold addTuple at h
    split at h
    · exact .inr h
    · rcases List.mem_cons.mp h with rfl | h
      · exact .inr List.mem_cons_self
      · exact (ih h).imp_right (List.mem_cons_of_mem _)

theorem nodup_addTuple (tuple : TwoHopNeighborTuple) {ts : List TwoHopNeighborTuple}
    (h : (ts.map pair).Nodup) : ((addTuple tuple ts).map pair).Nodup := by
  induction ts with
  | nil => exact List.nodup_singleton _
  | cons t ts ih =>
    obtain ⟨ht, hts⟩ := List.nodup_cons.mp h
    unfold addTuple
    split
    · exact List.nodup_cons.mpr ⟨ht, hts⟩
    · rename_i hne
      refine List.nodup_cons.mpr ⟨fun hmem => ?_, ih hts⟩
      rcases mem_addTuple hmem with heq | hmem
      · exact hne ⟨congrArg Prod.fst heq, congrArg Prod.snd heq⟩
      · exact ht hmem

def addTwoHopNeighborTuple (tuple : TwoHopNeighborTuple) : TwoHopNeighborSet :=
  ⟨addTuple tuple ts.tuples, nodup_addTuple tuple ts.nodup⟩

def eraseTwoHopNeighborTuples (neighborMainAddr : Ipv4Address) : TwoHopNeighborSet where
  tuples := ts.tuples.filter fun t => t.neighborMainAddr ≠ neighborMainAddr
  nodup := ts.nodup.sublist (List.filter_sublist.map _)

end TwoHopNeighborSet

end Ns3.Olsr
