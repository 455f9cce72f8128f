import Ns3.Ferry2.Exchange
import Ns3.Lib.Fold
import Ns3.Lib.Run

/-!
# The window in which requests are collected

The flag, the buffer and the scheduled event of a node that is asked for data,
over its runs: requests come at any time, also when the event is due, and other
handlers run in between. `window_of_reachable`: they stay together, each request
is in one window, and a window is answered once, with what its first request
names.
-/

namespace Ns3.Ferry2

open Ns3.Lib

variable {E : Type} {cfg : Config} {ops : UserOps E} {now : ℕ} {n n' : DtnNode E}
  {out : List Datagram}

/-! ## The other handlers -/

/-- What `RecvRequest` and `ProcessRequestBuffer` share. -/
def DtnNode.waiting (n : DtnNode E) : List BufferedRequest × Bool :=
  (n.requestBuffer, n.requestCollecting)

/-- A handler that is neither of the two, or something the user does. -/
inductive OtherHandler (cfg : Config) (ops : UserOps E) (now : ℕ) (n : DtnNode E) :
    DtnNode E → Prop
  | sendHello {n' : DtnNode E} {out : List Datagram} (h : sendHello cfg now n = some (n', out)) :
      OtherHandler cfg ops now n n'
  | recvHello {junk : SummaryVector} {p : List UInt8} {sender : Ipv4Address} {n' : DtnNode E}
      {out : List Datagram} (h : recvHello cfg ops now junk n p sender = some (n', out)) :
      OtherHandler cfg ops now n n'
  | recvUserData {junk : RecvJunk} {p : List UInt8} {n' : DtnNode E} {out : List Datagram}
      (h : recvUserDataAsUnicast cfg ops now junk n p = some (n', out)) :
      OtherHandler cfg ops now n n'
  | recvShelterData {junk : UInt32} {p : List UInt8} {n' : DtnNode E} {out : List Datagram}
      (h : recvShelterDataAsBroadcast cfg now junk n p = some (n', out)) :
      OtherHandler cfg ops now n n'
  | sendShelterInfo {data : ShelterInfo} {n' : DtnNode E} {out : List Datagram}
      (h : sendShelterInfoAsBroadcast now n data = some (n', out)) : OtherHandler cfg ops now n n'
  | findBlocked {id : String} {n' : DtnNode E} (h : findBlocked ops now n id = some n') :
      OtherHandler cfg ops now n n'
  | user {n' : DtnNode E} (h : n'.waiting = n.waiting) : OtherHandler cfg ops now n n'

theorem sendHello_waiting (h : sendHello cfg now n = some (n', out)) : n'.waiting = n.waiting := by
  unfold sendHello at h
  dsimp only at h
  split at h
  · cases h
    rfl
  · simp only [Option.bind_eq_bind, Option.bind_eq_some_iff] at h
    obtain ⟨packet, -, hout⟩ := h
    cases hout
    rfl

theorem requestNews_waiting {sender : Ipv4Address} {blockIds : List String}
    (h : requestNews n sender blockIds = some (n', out)) : n'.waiting = n.waiting := by
  unfold requestNews at h
  split at h
  · cases h
    rfl
  · simp only [sendRequest, Option.bind_eq_bind, Option.bind_eq_some_iff] at h
    obtain ⟨packet, -, hout⟩ := h
    cases hout
    rfl

theorem reconsiderRoute_waiting (h : reconsiderRoute ops now n = some n') :
    n'.waiting = n.waiting := by
  unfold reconsiderRoute at h
  split at h
  · simp only [Option.bind_eq_bind, Option.bind_eq_some_iff] at h
    obtain ⟨user, -, hn⟩ := h
    cases hn
    rfl
  · cases h
    rfl

theorem recvHello_waiting {junk : SummaryVector} {p : List UInt8} {sender : Ipv4Address}
    (h : recvHello cfg ops now junk n p sender = some (n', out)) : n'.waiting = n.waiting := by
  unfold recvHello at h
  simp only [Option.bind_eq_bind, Option.bind_eq_some_iff] at h
  obtain ⟨y, -, h⟩ := h
  split at h
  · cases h
    rfl
  · simp only [Option.bind_eq_some_iff] at h
    obtain ⟨⟨n₁, out₁⟩, hreq, n₂, hroute, h⟩ := h
    cases h
    have hsame : n₁.waiting = n.waiting := (requestNews_waiting hreq).trans rfl
    exact (reconsiderRoute_waiting hroute).trans hsame

theorem updateGraphInfoReceivedPacket_waiting {id : String}
    (h : updateGraphInfoReceivedPacket ops n id = some n') : n'.waiting = n.waiting := by
  unfold updateGraphInfoReceivedPacket at h
  split at h
  · cases h
    rfl
  · simp only [Option.bind_eq_bind, Option.bind_eq_some_iff] at h
    obtain ⟨user, -, hn⟩ := h
    cases hn
    rfl

theorem recvExitInfo_waiting {st st' : RecvState E} {e : String × (UInt32 × UInt32)}
    (h : recvExitInfo st e = some st') : st'.node.waiting = st.node.waiting := by
  simp only [recvExitInfo, Option.bind_eq_bind, Option.bind_eq_some_iff] at h
  obtain ⟨old, -, h⟩ := h
  split at h
  · cases h
    rfl
  · cases h
    rfl

theorem acceptBlocked_waiting {st st' : RecvState E} {id : String} {recv : Binary32}
    (h : acceptBlocked cfg ops now st id recv = some st') :
    st'.node.waiting = st.node.waiting := by
  unfold acceptBlocked at h
  split at h
  · cases h
    rfl
  · simp only [storeBlocked, Option.bind_eq_bind, Option.bind_eq_some_iff] at h
    obtain ⟨node, hnode, hst⟩ := h
    cases hst
    exact (updateGraphInfoReceivedPacket_waiting hnode).trans rfl

theorem recvBlockedInfo_waiting {junk : String → Binary32} {st st' : RecvState E}
    {e : String × Binary32} (h : recvBlockedInfo cfg ops now junk st e = some st') :
    st'.node.waiting = st.node.waiting := by
  have hrest : ∀ {st₁ : RecvState E} {old : Binary32}, st₁.node.waiting = st.node.waiting →
      (if old < e.2 then acceptBlocked cfg ops now st₁ e.1 e.2 else some st₁) = some st' →
      st'.node.waiting = st.node.waiting := by
    intro st₁ old hst₁ h
    split at h
    · exact (acceptBlocked_waiting h).trans hst₁
    · cases h
      exact hst₁
  cases hold : st.oldAoIblockedinfo.find e.1 with
  | some old =>
    simp only [recvBlockedInfo, hold, Option.bind_eq_bind, Option.bind_some] at h
    exact hrest rfl h
  | none =>
    simp only [recvBlockedInfo, hold, Option.bind_eq_bind, Option.bind_eq_some_iff] at h
    obtain ⟨st₁, hstore, ⟨st₂, old⟩, heq, h⟩ := h
    cases heq
    exact hrest (acceptBlocked_waiting hstore) h

theorem recvUserData_waiting {junk : RecvJunk} {p : List UInt8}
    (h : recvUserDataAsUnicast cfg ops now junk n p = some (n', out)) :
    n'.waiting = n.waiting := by
  unfold recvUserDataAsUnicast at h
  simp only [Option.bind_eq_bind, Option.bind_eq_some_iff] at h
  obtain ⟨y, -, st₁, h₁, st₂, h₂, h⟩ := h
  have hst₁ := foldlM_fixed (g := fun st : RecvState E => st.node.waiting)
    (fun _ _ _ h => recvExitInfo_waiting h) h₁
  have hst₂ := foldlM_fixed (g := fun st : RecvState E => st.node.waiting)
    (fun _ _ _ h => recvBlockedInfo_waiting h) h₂
  have hst : st₂.node.waiting = n.waiting := hst₂.trans hst₁
  split at h
  · exact (sendHello_waiting h).trans hst
  · cases h
    exact hst

theorem recvShelterData_waiting {junk : UInt32} {p : List UInt8}
    (h : recvShelterDataAsBroadcast cfg now junk n p = some (n', out)) :
    n'.waiting = n.waiting := by
  simp only [recvShelterDataAsBroadcast, checkShelterData, Option.bind_eq_bind,
    Option.bind_eq_some_iff] at h
  obtain ⟨⟨dup, data, n₁⟩, ⟨q, -, hcheck⟩, h⟩ := h
  cases hcheck
  split at h
  · cases h
    rfl
  · simp only [updateShelterData, Option.bind_eq_bind, Option.bind_eq_some_iff] at h
    obtain ⟨old, -, h⟩ := h
    split at h
    · split at h
      · exact (sendHello_waiting h).trans rfl
      · cases h
        rfl
    · cases h
      rfl

theorem OtherHandler.waiting (h : OtherHandler cfg ops now n n') : n'.waiting = n.waiting := by
  cases h with
  | sendHello h => exact sendHello_waiting h
  | recvHello h => exact recvHello_waiting h
  | recvUserData h => exact recvUserData_waiting h
  | recvShelterData h => exact recvShelterData_waiting h
  | sendShelterInfo h =>
    simp only [sendShelterInfoAsBroadcast, Option.bind_eq_bind, Option.bind_eq_some_iff] at h
    obtain ⟨packet, -, hout⟩ := h
    cases hout
    rfl
  | findBlocked h =>
    unfold Ns3.Ferry2.findBlocked at h
    split at h
    · cases h
      rfl
    · simp only [Option.bind_eq_bind, Option.bind_eq_some_iff] at h
      obtain ⟨user, -, hn⟩ := h
      cases hn
      rfl
  | user h => exact h

/-! ## The requests and the event -/

/-- A reply: the requests that came since the one before, the node that sends it, the data it
makes (none when the buffer is empty) and what goes out. -/
structure Reply (E : Type) where
  requests : List BufferedRequest
  node : DtnNode E
  data : Option UserData
  out : List Datagram

/-- A node, the times of its pending `ProcessRequestBuffer` events, the requests so far and those
of them that came since the last such event, and the replies so far. -/
structure WindowState (E : Type) where
  now : ℕ
  node : DtnNode E
  events : List ℕ
  received : List BufferedRequest
  window : List BufferedRequest
  replies : List (Reply E)

/-- What `MakeSendDataFromRequest` is called for. -/
def replyData (junk : UInt32) (n : DtnNode E) : Option UserData :=
  match n.requestBuffer with
  | [] => none
  | selected :: _ =>
    some (makeSendDataFromRequest junk n selected.requesterAddress selected.exitIds
      selected.blockIds)

/-- `RecvRequest`, with the event it schedules in one second when none is being waited for. -/
def WindowState.recvRequest (junk : RequestData) (s : WindowState E) (p : List UInt8)
    (sender : Ipv4Address) : Option (WindowState E) := do
  let (request, _) ← removeRequest junk p
  let (n, _) ← Ferry2.recvRequest junk s.node p sender
  let buffered := ⟨sender, request.requesterId, request.exitIds, request.blockIds⟩
  return { s with
    node := n
    events := if s.node.requestCollecting then s.events else s.events ++ [s.now + 1000000000]
    received := s.received ++ [buffered]
    window := s.window ++ [buffered] }

/-- A `ProcessRequestBuffer` event that is due. -/
def WindowState.processRequestBuffer (cfg : Config) (junk : UInt32) (s : WindowState E) :
    Option (WindowState E) := do
  let (n, out) ← Ferry2.processRequestBuffer cfg junk s.node
  return { s with
    node := n
    events := s.events.erase s.now
    window := []
    replies := s.replies ++ [⟨s.window, s.node, replyData junk s.node, out⟩] }

inductive WindowEvent
  | wait (t : ℕ)
  | request (p : List UInt8) (sender : Ipv4Address)
  | process
  | other
  deriving DecidableEq, Repr

/-- Time does not pass an event; of what happens at one time any order is possible. -/
inductive WindowStep (cfg : Config) (ops : UserOps E) (s : WindowState E) :
    WindowEvent → WindowState E → Prop
  | wait {t : ℕ} (hnow : s.now ≤ t) (hevents : ∀ e ∈ s.events, t ≤ e) :
      WindowStep cfg ops s (.wait t) { s with now := t }
  | request {junk : RequestData} {p : List UInt8} {sender : Ipv4Address} {s' : WindowState E}
      (h : s.recvRequest junk p sender = some s') : WindowStep cfg ops s (.request p sender) s'
  | process {junk : UInt32} {s' : WindowState E} (hdue : s.now ∈ s.events)
      (h : s.processRequestBuffer cfg junk = some s') : WindowStep cfg ops s .process s'
  | other {n : DtnNode E} (h : OtherHandler cfg ops s.now s.node n) :
      WindowStep cfg ops s .other { s with node := n }

/-- A node as it is built: an empty buffer, and no event. -/
def requestWindow (cfg : Config) (ops : UserOps E) : System (WindowState E) WindowEvent where
  init s := s.node.waiting = ([], false) ∧ s.events = [] ∧ s.received = [] ∧ s.window = [] ∧
    s.replies = []
  step := WindowStep cfg ops

/-! ## The invariant -/

/-- A reply is one packet to `receiver`, and its data are the items that `asked` names and the
node holds. -/
structure Answers (cfg : Config) (r : Reply E) (receiver : Ipv4Address)
    (asked : List BufferedRequest) : Prop where
  sent : ∃ data packet, r.data = some data ∧ data.dst = receiver ∧
    userDataPacket cfg.sendHopFlag data ⟨.empty⟩ = some packet ∧
    r.out = [⟨r.node.id, some receiver, packet⟩]
  exits : ∀ data, r.data = some data → ∀ id v, data.aoiExitinfo.find id = some v ↔
    (∃ q ∈ asked, id ∈ q.exitIds) ∧ r.node.aoiExitinfo.find id = some v
  blocks : ∀ data, r.data = some data → ∀ id v, data.aoiBlockinfo.find id = some v ↔
    (∃ q ∈ asked, id ∈ q.blockIds) ∧ r.node.blockednodeidAndTime.find id = some v

/-- Either no event is pending and nothing waits, or one is, for the requests of this window. -/
structure Collecting (s : WindowState E) : Prop where
  buffer : s.node.requestBuffer = s.window
  states : (s.node.requestCollecting = false ∧ s.events = [] ∧ s.window = []) ∨
    (s.node.requestCollecting = true ∧ (∃ t, s.now ≤ t ∧ s.events = [t]) ∧ s.window ≠ [])

/-- Each request is in one window, and each window that ended has the reply it is due. -/
structure Answered (cfg : Config) (s : WindowState E) : Prop where
  received : s.received = s.replies.flatMap Reply.requests ++ s.window
  replies : ∀ r ∈ s.replies, ∃ first rest, r.requests = first :: rest ∧
    Answers cfg r first.requesterAddress [first]

variable {s s' : WindowState E}

theorem WindowState.recvRequest_spec {junk : RequestData} {p : List UInt8} {sender : Ipv4Address}
    (h : s.recvRequest junk p sender = some s') :
    ∃ n q, n.requestBuffer = s.node.requestBuffer ++ [q] ∧ n.requestCollecting = true ∧
      s' = { s with
        node := n
        events := if s.node.requestCollecting then s.events else s.events ++ [s.now + 1000000000]
        received := s.received ++ [q]
        window := s.window ++ [q] } := by
  simp only [WindowState.recvRequest, Ferry2.recvRequest, Option.bind_eq_bind,
    Option.bind_eq_some_iff] at h
  obtain ⟨⟨r, q⟩, hr, ⟨n, out⟩, ⟨⟨r', q'⟩, hr', hn⟩, hs⟩ := h
  cases hr.symm.trans hr'
  cases hn
  cases hs
  exact ⟨_, _, rfl, rfl, rfl⟩

/-- What an event does that finds a request in the buffer. -/
theorem WindowState.processRequestBuffer_spec {junk : UInt32} {first : BufferedRequest}
    {rest : List BufferedRequest} (hbuf : s.node.requestBuffer = first :: rest)
    (h : s.processRequestBuffer cfg junk = some s') :
    ∃ packet, userDataPacket cfg.sendHopFlag (makeSendDataFromRequest junk s.node
        first.requesterAddress first.exitIds first.blockIds) ⟨.empty⟩ = some packet ∧
      s' = { s with
        node := { s.node with requestBuffer := [], requestCollecting := false }
        events := s.events.erase s.now
        window := []
        replies := s.replies ++ [⟨s.window, s.node,
          some (makeSendDataFromRequest junk s.node first.requesterAddress first.exitIds
            first.blockIds),
          [⟨s.node.id, some first.requesterAddress, packet⟩]⟩] } := by
  simp only [WindowState.processRequestBuffer, Ferry2.processRequestBuffer, replyData, hbuf,
    sendUserDataAsUnicast, Option.bind_eq_bind, Option.bind_eq_some_iff] at h
  obtain ⟨⟨n, out⟩, ⟨⟨n₁, out₁⟩, ⟨packet, hp, hn₁⟩, hn⟩, hs⟩ := h
  cases hn₁
  cases hn
  cases hs
  exact ⟨packet, hp, rfl⟩

/-- The items of the data are those asked for which the node holds. -/
theorem answers_first {junk : UInt32} {first : BufferedRequest} {requests : List BufferedRequest}
    {packet : List UInt8} (hp : userDataPacket cfg.sendHopFlag (makeSendDataFromRequest junk n
      first.requesterAddress first.exitIds first.blockIds) ⟨.empty⟩ = some packet) :
    Answers cfg ⟨requests, n, some (makeSendDataFromRequest junk n first.requesterAddress
        first.exitIds first.blockIds), [⟨n.id, some first.requesterAddress, packet⟩]⟩
      first.requesterAddress [first] where
  sent := ⟨_, packet, rfl, rfl, hp, rfl⟩
  exits := by
    intro data hdata id v
    cases hdata
    simp [makeSendDataFromRequest, find_selectEntries]
  blocks := by
    intro data hdata id v
    cases hdata
    simp [makeSendDataFromRequest, find_selectEntries]

theorem Collecting.step {e : WindowEvent} (hs : Collecting s) (h : WindowStep cfg ops s e s') :
    Collecting s' := by
  cases h with
  | wait hnow hevents =>
    refine ⟨hs.buffer, ?_⟩
    rcases hs.states with hidle | ⟨hflag, ⟨t, -, ht⟩, hwindow⟩
    · exact .inl hidle
    · exact .inr ⟨hflag, ⟨t, hevents t (by simp [ht]), ht⟩, hwindow⟩
  | request h =>
    obtain ⟨n, q, hbuf, hflag', rfl⟩ := WindowState.recvRequest_spec h
    refine ⟨by simp only [hbuf, hs.buffer], .inr ⟨hflag', ?_, by simp⟩⟩
    rcases hs.states with ⟨hflag, hevents, -⟩ | ⟨hflag, hevent, -⟩
    · exact ⟨s.now + 1000000000, Nat.le_add_right _ _, by simp [hflag, hevents]⟩
    · simpa [hflag] using hevent
  | process hdue h =>
    rcases hs.states with ⟨-, hevents, -⟩ | ⟨-, ⟨t, -, ht⟩, hwindow⟩
    · simp [hevents] at hdue
    · obtain ⟨first, rest, hcons⟩ := List.exists_cons_of_ne_nil hwindow
      obtain ⟨packet, -, rfl⟩ :=
        WindowState.processRequestBuffer_spec (hs.buffer.trans hcons) h
      obtain rfl : s.now = t := by simpa [ht] using hdue
      exact ⟨rfl, .inl ⟨rfl, by simp [ht], rfl⟩⟩
  | other h =>
    obtain ⟨hbuf, hflag⟩ := Prod.mk.inj h.waiting
    refine ⟨hbuf.trans hs.buffer, ?_⟩
    show (_ ∧ _ ∧ _) ∨ _
    rw [hflag]
    exact hs.states

theorem Answered.step {e : WindowEvent} (hcollecting : Collecting s) (hs : Answered cfg s)
    (h : WindowStep cfg ops s e s') : Answered cfg s' := by
  cases h with
  | wait => exact ⟨hs.received, hs.replies⟩
  | request h =>
    obtain ⟨n, q, -, -, rfl⟩ := WindowState.recvRequest_spec h
    refine ⟨?_, hs.replies⟩
    simp only [hs.received, List.append_assoc]
  | process hdue h =>
    rcases hcollecting.states with ⟨-, hevents, -⟩ | ⟨-, -, hwindow⟩
    · simp [hevents] at hdue
    · obtain ⟨first, rest, hcons⟩ := List.exists_cons_of_ne_nil hwindow
      obtain ⟨packet, hp, rfl⟩ :=
        WindowState.processRequestBuffer_spec (hcollecting.buffer.trans hcons) h
      constructor
      · simp [hs.received]
      · intro r hr
        rcases List.mem_append.mp hr with hold | hnew
        · exact hs.replies r hold
        · obtain rfl := List.mem_singleton.mp hnew
          exact ⟨first, rest, hcons, answers_first hp⟩
  | other h => exact ⟨hs.received, hs.replies⟩

theorem invariant_of_reachable (h : (requestWindow cfg ops).Reachable s) :
    Collecting s ∧ Answered cfg s := by
  apply h.invariant
  · rintro s ⟨hwaiting, hevents, hreceived, hwindow, hreplies⟩
    obtain ⟨hbuf, hflag⟩ := Prod.mk.inj hwaiting
    exact ⟨⟨hbuf.trans hwindow.symm, .inl ⟨hflag, hevents, hwindow⟩⟩,
      ⟨by simp [hreceived, hreplies, hwindow], by simp [hreplies]⟩⟩
  · rintro s e s' ⟨hcollecting, hanswered⟩ hstep
    exact ⟨hcollecting.step hstep, hanswered.step hcollecting hstep⟩

/-- **The window.** A node is collecting exactly when one event is pending, and never are two; it
is when a request is in the buffer. Each request is in one window, and a window ends with one
reply to its first requester, with what the first request names and the node holds. -/
theorem window_of_reachable (h : (requestWindow cfg ops).Reachable s) :
    (s.node.requestCollecting = true ↔ ∃ t, s.events = [t]) ∧ s.events.length ≤ 1 ∧
    (s.node.requestBuffer ≠ [] → s.node.requestCollecting = true) ∧
    s.received = s.replies.flatMap Reply.requests ++ s.node.requestBuffer ∧
    ∀ r ∈ s.replies, ∃ first rest, r.requests = first :: rest ∧
      Answers cfg r first.requesterAddress [first] := by
  obtain ⟨hcollecting, hanswered⟩ := invariant_of_reachable h
  have hreceived : s.received = s.replies.flatMap Reply.requests ++ s.node.requestBuffer := by
    rw [hcollecting.buffer]
    exact hanswered.received
  rcases hcollecting.states with ⟨hflag, hevents, hwindow⟩ | ⟨hflag, ⟨t, -, ht⟩, -⟩
  · refine ⟨by simp [hflag, hevents], by simp [hevents], ?_, hreceived, hanswered.replies⟩
    intro hbuf
    exact absurd (hcollecting.buffer.trans hwindow) hbuf
  · exact ⟨by simp [hflag, ht], by simp [ht], fun _ => hflag, hreceived, hanswered.replies⟩

section Sample

def sampleFirst : BufferedRequest := ⟨0x0a000002, 1, [], ["node/10004"]⟩

def sampleSecond : BufferedRequest := ⟨0x0a000003, 2, [], ["node/10005"]⟩

/-- A node that has found two crossings, asked for `qs` at time 0. -/
def sampleAsked (qs : List BufferedRequest) : WindowState Unit where
  now := 0
  node := { sampleNode .evcUser 0x0a000001 0 with
    blockednodeidAndTime := .ofList [("node/10004", ⟨0x41200000⟩), ("node/10005", ⟨0x41200000⟩)]
    requestBuffer := qs
    requestCollecting := !qs.isEmpty }
  events := if qs.isEmpty then [] else [1000000000]
  received := qs
  window := qs
  replies := []

/-- It is asked for one of them, then for the other, and replies a second later. -/
theorem sampleAsked_run : ∃ s, (requestWindow (sampleConfig false) sampleOps).Reachable s ∧
    s.events = [] ∧ ∃ r, s.replies = [r] ∧
      r.requests = [sampleFirst, sampleSecond] ∧
      (r.data.map fun data => data.aoiBlockinfo.find "node/10005") = some none ∧
      r.node.blockednodeidAndTime.find "node/10005" = some ⟨0x41200000⟩ := by
  have hfirst : (sampleAsked []).recvRequest sampleJunk.request
      [1, 0, 0, 0, 0, 0, 0, 0, 1, 0, 0, 0, 20, 39, 0, 0] 0x0a000002 =
        some (sampleAsked [sampleFirst]) := rfl
  have hsecond : (sampleAsked [sampleFirst]).recvRequest sampleJunk.request
      [2, 0, 0, 0, 0, 0, 0, 0, 1, 0, 0, 0, 21, 39, 0, 0] 0x0a000003 =
        some (sampleAsked [sampleFirst, sampleSecond]) := rfl
  have hwait : WindowStep (sampleConfig false) sampleOps (sampleAsked [sampleFirst, sampleSecond])
      _ _ := .wait (Nat.zero_le 1000000000) (by decide)
  have hrun := (((System.Run.nil (S := requestWindow (sampleConfig false) sampleOps) _).snoc
    (WindowStep.request hfirst)).snoc (WindowStep.request hsecond)).snoc hwait
  refine ⟨_, ⟨_, _, ⟨rfl, rfl, rfl, rfl, rfl⟩, hrun.snoc (WindowStep.process (by decide)
    (show WindowState.processRequestBuffer _ 0 _ = some _ from rfl))⟩, rfl, _, rfl, rfl, ?_, ?_⟩
  · decide
  · decide

theorem window_sample : ∃ s, (requestWindow (sampleConfig false) sampleOps).Reachable s ∧
    s.events = [] ∧ s.replies.length = 1 ∧
    (s.node.requestCollecting = true ↔ ∃ t, s.events = [t]) ∧ s.events.length ≤ 1 ∧
    (s.node.requestBuffer ≠ [] → s.node.requestCollecting = true) ∧
    s.received = s.replies.flatMap Reply.requests ++ s.node.requestBuffer ∧
    ∀ r ∈ s.replies, ∃ first rest, r.requests = first :: rest ∧
      Answers (sampleConfig false) r first.requesterAddress [first] := by
  obtain ⟨s, hs, hevents, r, hr, -⟩ := sampleAsked_run
  exact ⟨s, hs, hevents, by simp [hr], window_of_reachable hs⟩

/-- The reply is not what the whole window asked for: the second request is dropped. -/
theorem not_all_answered : ¬ ∀ s, (requestWindow (sampleConfig false) sampleOps).Reachable s →
    ∀ r ∈ s.replies, ∃ first rest, r.requests = first :: rest ∧
      Answers (sampleConfig false) r first.requesterAddress r.requests := by
  intro h
  obtain ⟨s, hs, -, r, hr, hrequests, hdata, hheld⟩ := sampleAsked_run
  obtain ⟨_, _, _, hanswers⟩ := h s hs r (by simp [hr])
  obtain ⟨data, hdata', hfind⟩ := Option.map_eq_some_iff.mp hdata
  have hnamed : ∃ q ∈ r.requests, "node/10005" ∈ q.blockIds := by
    simp [hrequests, sampleSecond]
  have hsent := (hanswers.blocks data hdata' "node/10005" _).mpr ⟨hnamed, hheld⟩
  cases hfind.symm.trans hsent

end Sample

end Ns3.Ferry2
