import Ns3.Aodv.NodeSpec
import Ns3.Lib.Run
import Mathlib.Logic.Function.Basic

/-!
# A network of AODV nodes

Any nodes, and all frames ever sent. Whoever a frame is for may take it in at
any time, any number of times or never, whatever the topology is at that time;
timers expire and packets arrive in any order. `World.step_cases` says that a
step is a step of one node or lets time pass.
-/

namespace Ns3.Aodv

open Ns3.Lib

/-- The attributes and interfaces of the nodes; no address belongs to two of them. -/
structure Nodes (N : Type) where
  cfg : N → Config
  ifaces : N → List Iface
  unique : ∀ m m', ∀ i ∈ ifaces m, ∀ j ∈ ifaces m', i.addr = j.addr → m = m'

/-- The address belongs to the node. -/
def Nodes.Owns {N : Type} (ns : Nodes N) (m : N) (a : Ipv4Address) : Prop :=
  ∃ i ∈ ns.ifaces m, i.addr = a

instance {N : Type} (ns : Nodes N) (m : N) (a : Ipv4Address) : Decidable (ns.Owns m a) :=
  inferInstanceAs (Decidable (∃ i ∈ ns.ifaces m, _))

structure World (N : Type) where
  now : ℕ
  node : N → Node
  /-- Every frame ever sent. -/
  sent : List Frame

inductive Event (N : Type) where
  | wait (t : ℕ)
  | act (me : N) (e : NodeEvent)
  deriving DecidableEq

variable {N : Type}

theorem Nodes.Owns.unique {ns : Nodes N} {m m' : N} {a : Ipv4Address} (h : ns.Owns m a)
    (h' : ns.Owns m' a) : m = m' := by
  obtain ⟨i, hi, rfl⟩ := h
  obtain ⟨j, hj, heq⟩ := h'
  exact ns.unique m m' i hi j hj heq.symm

namespace World

variable (ns : Nodes N)

/-- A frame that another node has sent to everyone or to this interface. -/
def Hears (w : World N) (me : N) (f : Frame) (receiver : Ipv4Address) : Prop :=
  f ∈ w.sent ∧ ¬ ns.Owns me f.sender ∧ ns.Owns me receiver ∧
    (f.receiver = none ∨ f.receiver = some receiver)

instance (w : World N) (me : N) (f : Frame) (receiver : Ipv4Address) :
    Decidable (w.Hears ns me f receiver) :=
  inferInstanceAs (Decidable (_ ∧ _ ∧ _ ∧ _))

/-- The event can happen: a message that is received has been sent. -/
def Occurs (w : World N) (me : N) : NodeEvent → Prop
  | .recv f receiver => w.Hears ns me f receiver
  | _ => True

instance (w : World N) (me : N) (e : NodeEvent) : Decidable (w.Occurs ns me e) := by
  cases e <;> unfold Occurs <;> infer_instance

variable [DecidableEq N]

/-- A node has handled something: its new state, and what it has put out is sent. -/
def put (w : World N) (me : N) (n : Node) : World N :=
  { w with
    node := Function.update w.node me { n with outbox := [] }
    sent := w.sent ++ n.outbox }

def step (w : World N) : Event N → Option (World N)
  | .wait t => some { w with now := w.now + t }
  | .act me e =>
    if w.Occurs ns me e then ((w.node me).step ⟨ns.cfg me, w.now⟩ e).map (w.put me) else none

/-- All nodes have come up, and nothing has been sent. -/
def Started (w : World N) : Prop :=
  (∀ m, w.node m = .up (ns.ifaces m)) ∧ w.sent = []

def system : System (World N) (Event N) where
  init := Started ns
  step w e w' := w.step ns e = some w'

variable {ns} {w w' : World N} {e : Event N}

/-- Time passes, or one node takes a step. -/
theorem step_cases (h : w.step ns e = some w') :
    (∃ t, e = .wait t ∧ w' = { w with now := w.now + t }) ∨
    (∃ me ev n, e = .act me ev ∧ w.Occurs ns me ev ∧
      (w.node me).step ⟨ns.cfg me, w.now⟩ ev = some n ∧ w' = w.put me n) := by
  cases e with
  | wait t =>
    cases h
    exact .inl ⟨t, rfl, rfl⟩
  | act me ev =>
    simp only [step] at h
    split at h
    · rename_i hocc
      obtain ⟨n, hn, rfl⟩ := Option.map_eq_some_iff.mp h
      exact .inr ⟨me, ev, n, rfl, hocc, hn, rfl⟩
    · cases h

theorem node_put_self {me : N} {n : Node} : (w.put me n).node me = { n with outbox := [] } :=
  Function.update_self ..

theorem node_put_ne {me m : N} {n : Node} (h : m ≠ me) : (w.put me n).node m = w.node m :=
  Function.update_of_ne h ..

/-! ## Between the steps -/

/-- Every node has the interfaces it was made with, no frame is left behind in an outbox, and the
routing tables are keyed by destination. -/
structure Tidy (ns : Nodes N) (w : World N) : Prop where
  ifaces : ∀ m, (w.node m).ifaces = ns.ifaces m
  outbox : ∀ m, (w.node m).outbox = []
  keyed : ∀ m, (w.node m).routingTable.All fun _ => True

variable {K : UInt32 → Ipv4Address → UInt32 → Prop} {P : RoutingTableEntry → Prop}
  {T : UInt16 → Prop}

omit [DecidableEq N] in
theorem Started.tidy (h : w.Started ns) : w.Tidy ns := by
  refine ⟨fun m => ?_, fun m => ?_, fun m => ?_⟩
  · rw [h.1 m]
    rfl
  · rw [h.1 m]
    rfl
  · rw [h.1 m]
    exact startRoutes_all fun _ _ => trivial

omit [DecidableEq N] in
/-- A node with good entries starts a step with all it has to have. -/
theorem Tidy.meets (hw : w.Tidy ns) {me : N}
    (htable : (w.node me).routingTable.All (Good (K (w.node me).seqNo) P)) :
    Meets K P (fun _ => True) (w.node me).seqNo (ns.ifaces me) (w.node me) where
  seqNo := rfl
  ifaces := hw.ifaces me
  table := htable
  outbox f hf := by
    rw [hw.outbox me] at hf
    cases hf
  timers _ _ _ _ _ := trivial

/-- After a step of one node the world is tidy again. -/
theorem Tidy.put (hw : w.Tidy ns) {me : N} {n : Node} {s : UInt32}
    (hn : Meets K P T s (ns.ifaces me) n) : (w.put me n).Tidy ns := by
  refine ⟨fun m => ?_, fun m => ?_, fun m => ?_⟩
  · rcases eq_or_ne m me with rfl | hne
    · rw [node_put_self]
      exact hn.ifaces
    · rw [node_put_ne hne]
      exact hw.ifaces m
  · rcases eq_or_ne m me with rfl | hne
    · rw [node_put_self]
    · rw [node_put_ne hne]
      exact hw.outbox m
  · rcases eq_or_ne m me with rfl | hne
    · rw [node_put_self]
      exact fun d e he => ⟨(hn.table d e he).1, trivial⟩
    · rw [node_put_ne hne]
      exact hw.keyed m

end World

/-- Three nodes with the default attributes, at the addresses 10, 11 and 12. -/
def sampleNodes : Nodes (Fin 3) where
  cfg _ := {}
  ifaces m := [⟨m.val, 10 + m.val.toUInt32, 255⟩]
  unique := by decide

def sampleIdle : World (Fin 3) where
  now := 0
  node m := .up (sampleNodes.ifaces m)
  sent := []

theorem sampleIdle_started : sampleIdle.Started sampleNodes := ⟨fun _ => rfl, rfl⟩

end Ns3.Aodv
