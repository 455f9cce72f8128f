import Ns3.Core.Scheduler
import Ns3.Lib.Run

/-!
# `DefaultSimulatorImpl`

`default-simulator-impl.cc`, `event-id.cc` and `event-impl.cc`, over any
scheduler. Times and delays are in range, so that they add up as numbers. Each
event has an implementation of its own; the next free address stands for `new`.
A program is any interleaving of the operations with the steps of `Run`:
between the start of an event and its end come those that the event invokes.
-/

namespace Ns3.Core

open Ns3.Lib

/-- The null pointer is `none`. -/
structure EventId where
  impl : Option ℕ
  ts : ℕ
  context : BitVec 32
  uid : BitVec 32
  deriving DecidableEq

def EventId.key (id : EventId) : EventKey := ⟨id.ts, id.uid, id.context⟩

structure EventWithContext where
  context : BitVec 32
  timestamp : ℕ
  event : ℕ
  deriving DecidableEq

/-- `cancelled` lists the implementations whose `m_cancel` is set. -/
structure Simulator (σ : Type) where
  destroyEvents : List EventId
  stop : Bool
  events : σ
  uid : BitVec 32
  currentUid : BitVec 32
  currentTs : ℕ
  currentContext : BitVec 32
  unscheduledEvents : ℤ
  eventCount : ℕ
  eventsWithContext : List EventWithContext
  cancelled : List ℕ
  heap : ℕ

namespace Simulator

variable {σ : Type}

/-- The constructor. -/
def new (Q : PriorityQueue Event σ) : Simulator σ where
  destroyEvents := []
  stop := false
  events := Q.empty
  uid := 4
  currentUid := 0
  currentTs := 0
  currentContext := 0xffffffff
  unscheduledEvents := 0
  eventCount := 0
  eventsWithContext := []
  cancelled := []
  heap := 0

variable (Q : PriorityQueue Event σ) (m : Simulator σ)

/-- The part that all ways of scheduling share: an event gets the next uid. -/
def insertEvent (impl ts : ℕ) (context : BitVec 32) : EventId × Simulator σ :=
  (⟨some impl, ts, context, m.uid⟩,
    { m with
      uid := m.uid + 1
      unscheduledEvents := m.unscheduledEvents + 1
      events := Q.insert ⟨impl, ⟨ts, m.uid, context⟩⟩ m.events })

def allocate : ℕ × Simulator σ := (m.heap, { m with heap := m.heap + 1 })

def schedule (delay : ℕ) : EventId × Simulator σ :=
  let (event, m) := m.allocate
  m.insertEvent Q event (delay + m.currentTs) m.currentContext

/-- `ScheduleWithContext`, in the main thread. -/
def scheduleWithContext (context : BitVec 32) (delay : ℕ) : EventId × Simulator σ :=
  let (event, m) := m.allocate
  m.insertEvent Q event (delay + m.currentTs) context

def scheduleNow : EventId × Simulator σ :=
  let (event, m) := m.allocate
  m.insertEvent Q event m.currentTs m.currentContext

/-- `ScheduleWithContext`, in another thread. -/
def scheduleFromThread (context : BitVec 32) (delay : ℕ) : Simulator σ :=
  let (event, m) := m.allocate
  { m with eventsWithContext := m.eventsWithContext ++ [⟨context, delay, event⟩] }

def scheduleDestroy : EventId × Simulator σ :=
  let (event, m) := m.allocate
  let id : EventId := ⟨some event, m.currentTs, 0xffffffff, 2⟩
  (id, { m with destroyEvents := m.destroyEvents ++ [id], uid := m.uid + 1 })

/-- `PeekEventImpl () == 0 || PeekEventImpl ()->IsCancelled ()`. -/
def nullOrCancelled (id : EventId) : Bool :=
  match id.impl with
  | none => true
  | some impl => decide (impl ∈ m.cancelled)

def isExpired (id : EventId) : Bool :=
  if id.uid = 2 then
    if m.nullOrCancelled id then true else decide (id ∉ m.destroyEvents)
  else
    decide (id.ts < m.currentTs) || decide (id.ts = m.currentTs ∧ id.uid ≤ m.currentUid) ||
      m.nullOrCancelled id

def setCancelled (id : EventId) : Simulator σ :=
  match id.impl with
  | none => m
  | some impl => { m with cancelled := impl :: m.cancelled }

def cancel (id : EventId) : Simulator σ :=
  if m.isExpired id then m else m.setCancelled id

def remove (id : EventId) : Simulator σ :=
  if id.uid = 2 then { m with destroyEvents := m.destroyEvents.erase id }
  else if m.isExpired id then m
  else match id.impl with
    | none => m
    | some impl =>
      { m.setCancelled id with
        events := Q.remove ⟨impl, id.key⟩ m.events
        unscheduledEvents := m.unscheduledEvents - 1 }

/-- `ProcessEventsWithContext`, with the ids of the events. -/
def processEventsWithContext : List EventId × Simulator σ :=
  m.eventsWithContext.foldl
    (fun r ev =>
      let (id, m) := r.2.insertEvent Q ev.event (r.2.currentTs + ev.timestamp) ev.context
      (r.1 ++ [id], m))
    ([], { m with eventsWithContext := [] })

def isFinished : Bool := Q.isEmpty m.events || m.stop

/-- `ProcessOneEvent`, up to the invocation of the event that is taken from the scheduler. -/
def takeNext : Option (Event × Simulator σ) :=
  match Q.removeNext m.events with
  | none => none
  | some (next, events) =>
    some (next, { m with
      events := events
      unscheduledEvents := m.unscheduledEvents - 1
      eventCount := m.eventCount + 1
      currentTs := next.key.ts
      currentContext := next.key.context
      currentUid := next.key.uid })

end Simulator

/-! ## Programs -/

/-- What is running: the main program, the loop of `Run`, or an event in the loop. -/
inductive Phase
  | main
  | loop
  | event
  deriving DecidableEq

/-- What an event or the main program does. -/
inductive Operation
  | schedule (delay : ℕ)
  | scheduleWithContext (context : BitVec 32) (delay : ℕ)
  | scheduleNow
  | scheduleDestroy
  | cancel (id : EventId)
  | remove (id : EventId)
  | stop
  deriving DecidableEq

inductive Step
  | operation (o : Operation)
  | thread (context : BitVec 32) (delay : ℕ)
  | run
  | next
  | done
  | leave
  | destroy
  deriving DecidableEq

/-- A simulator, with a record of what happened: the events created, those that `Run` started, in
order, those that `Destroy` started, and those that were cancelled or removed before they started. -/
structure Program (σ : Type) where
  simulator : Simulator σ
  phase : Phase
  created : List EventId
  executed : List EventId
  destroyed : List EventId
  dropped : List EventId

namespace Program

variable {σ : Type} (Q : PriorityQueue Event σ)

def start : Program σ := ⟨.new Q, .main, [], [], [], []⟩

variable (w : Program σ)

def started (id : EventId) : Prop := id ∈ w.executed ∨ id ∈ w.destroyed

instance (id : EventId) : Decidable (w.started id) := inferInstanceAs (Decidable (_ ∨ _))

/-- A program has the ids that it was given, and the null one. -/
def Known (id : EventId) : Prop := id ∈ w.created ∨ id = ⟨none, 0, 0, 0⟩

instance (id : EventId) : Decidable (w.Known id) := inferInstanceAs (Decidable (_ ∨ _))

def create (r : EventId × Simulator σ) : Program σ :=
  { w with simulator := r.2, created := w.created ++ [r.1] }

/-- A cancellation or removal is recorded when it comes before the event starts. -/
def drop (id : EventId) (m : Simulator σ) : Program σ :=
  { w with
    simulator := m
    dropped := if id ∈ w.created ∧ ¬ w.started id then id :: w.dropped else w.dropped }

def operate : Operation → Option (Program σ)
  | .schedule delay => some (w.create (w.simulator.schedule Q delay))
  | .scheduleWithContext context delay =>
    some (w.create (w.simulator.scheduleWithContext Q context delay))
  | .scheduleNow => some (w.create (w.simulator.scheduleNow Q))
  | .scheduleDestroy => some (w.create w.simulator.scheduleDestroy)
  | .cancel id => if w.Known id then some (w.drop id (w.simulator.cancel id)) else none
  | .remove id => if w.Known id then some (w.drop id (w.simulator.remove Q id)) else none
  | .stop => some { w with simulator := { w.simulator with stop := true } }

def processEventsWithContext : Program σ :=
  let r := w.simulator.processEventsWithContext Q
  { w with simulator := r.2, created := w.created ++ r.1 }

/-- `EventImpl::Invoke`: a cancelled event does nothing. -/
def invoke (next : Event) (m : Simulator σ) : Program σ :=
  if next.impl ∈ m.cancelled then
    { { w with simulator := m }.processEventsWithContext Q with phase := .loop }
  else
    { w with
      simulator := m
      phase := .event
      executed := w.executed ++ [⟨some next.impl, next.key.ts, next.key.context, next.key.uid⟩] }

def step : Step → Option (Program σ)
  | .operation o => if w.phase ≠ .loop then w.operate Q o else none
  | .thread context delay =>
    some { w with simulator := w.simulator.scheduleFromThread context delay }
  | .run =>
    if w.phase = .main then
      let w := w.processEventsWithContext Q
      some { w with simulator := { w.simulator with stop := false }, phase := .loop }
    else none
  | .next =>
    if w.phase = .loop ∧ w.simulator.isFinished Q = false then
      match w.simulator.takeNext Q with
      | none => none
      | some (next, m) => some (w.invoke Q next m)
    else none
  | .done =>
    if w.phase = .event then some { w.processEventsWithContext Q with phase := .loop } else none
  | .leave =>
    if w.phase = .loop ∧ w.simulator.isFinished Q = true then some { w with phase := .main }
    else none
  | .destroy =>
    if w.phase = .main then
      match w.simulator.destroyEvents with
      | [] => none
      | ev :: rest =>
        let m := { w.simulator with destroyEvents := rest }
        if m.nullOrCancelled ev then some { w with simulator := m }
        else some { w with simulator := m, destroyed := w.destroyed ++ [ev] }
    else none

def system : System (Program σ) Step where
  init w := w = start Q
  step w e w' := w.step Q e = some w'

end Program

end Ns3.Core
