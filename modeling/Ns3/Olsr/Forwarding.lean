import Ns3.Olsr.Messages
import Ns3.Olsr.RoutingTable

/-!
# `ForwardDefault`

From `olsr-routing-protocol.cc` what a node does with each message of a packet:
the loop over the messages in `RecvOlsr`, `ForwardDefault` and
`DupTupleTimerExpire`, with the duplicate set and the MPR selector set of
`olsr-state.cc`. A message that is read is put down in `processed`.
-/

namespace Ns3.Olsr

structure MprSelectorTuple where
  mainAddr : Ipv4Address
  expirationTime : Time
  deriving DecidableEq

structure DuplicateTuple where
  address : Ipv4Address
  sequenceNumber : UInt16
  retransmitted : Bool
  ifaceList : List Ipv4Address
  expirationTime : Time
  deriving DecidableEq

/-- `OLSR_DUP_HOLD_TIME`. -/
def dupHoldTime : Time := 30000000000

/-- What tells the messages of a network apart. -/
abbrev Key := Ipv4Address × UInt16

namespace MessageHeader

def key (m : MessageHeader) : Key := (m.originatorAddress, m.messageSequenceNumber)

def isHello (m : MessageHeader) : Bool := m.message.messageType = 1

/-- The message that is passed on. -/
def relay (m : MessageHeader) : MessageHeader :=
  { m with timeToLive := m.timeToLive - 1, hopCount := m.hopCount + 1 }

end MessageHeader

namespace DuplicateTuple

def key (d : DuplicateTuple) : Key := (d.address, d.sequenceNumber)

/-- The update of the tuple that `FindDuplicateTuple` finds. -/
def update (k : Key) (f : DuplicateTuple → DuplicateTuple) :
    List DuplicateTuple → List DuplicateTuple
  | [] => []
  | d :: ds => if d.key = k then f d :: ds else d :: update k f ds

end DuplicateTuple

structure Node where
  mainAddress : Ipv4Address
  links : LinkSet
  mprSelectors : List MprSelectorTuple
  ifaceAssocs : List IfaceAssocTuple
  duplicates : List DuplicateTuple
  queuedMessages : List MessageHeader
  processed : List MessageHeader

namespace Node

variable (n : Node)

def findDuplicateTuple (k : Key) : Option DuplicateTuple := n.duplicates.find? fun d => d.key = k

def findMprSelectorTuple (mainAddr : Ipv4Address) : Option MprSelectorTuple :=
  n.mprSelectors.find? fun t => t.mainAddr = mainAddr

def getMainAddress (ifaceAddr : Ipv4Address) : Ipv4Address :=
  match n.ifaceAssocs.find? fun t => t.ifaceAddr = ifaceAddr with
  | some t => t.mainAddr
  | none => ifaceAddr

def queueMessage (m : MessageHeader) : Node :=
  { n with queuedMessages := n.queuedMessages ++ [m] }

/-- Whether a message from the sender is to be retransmitted. -/
def retransmits (m : MessageHeader) (senderAddress : Ipv4Address) : Bool :=
  1 < m.timeToLive && (n.findMprSelectorTuple (n.getMainAddress senderAddress)).isSome

def forwardDefault (m : MessageHeader) (duplicated : Option DuplicateTuple)
    (localIface senderAddress : Ipv4Address) (now : Time) : Node :=
  match findSymLinkTuple n.links senderAddress now with
  | none => n
  | some _ =>
    if duplicated.any DuplicateTuple.retransmitted then n
    else
      let retransmitted := n.retransmits m senderAddress
      let n := if retransmitted then n.queueMessage m.relay else n
      match duplicated with
      | some _ =>
        { n with
          duplicates := DuplicateTuple.update m.key (fun d => { d with
            expirationTime := now + dupHoldTime
            retransmitted := retransmitted
            ifaceList := d.ifaceList ++ [localIface] }) n.duplicates }
      | none =>
        { n with
          duplicates := n.duplicates ++ [⟨m.originatorAddress, m.messageSequenceNumber,
            retransmitted, [localIface], now + dupHoldTime⟩] }

/-- One message of a packet, in `RecvOlsr`. -/
def recvMessage (m : MessageHeader) (receiverIfaceAddr senderIfaceAddr : Ipv4Address)
    (now : Time) : Node :=
  if m.timeToLive = 0 ∨ m.originatorAddress = n.mainAddress then n
  else
    let duplicated := n.findDuplicateTuple m.key
    let doForwarding := duplicated.all fun d => receiverIfaceAddr ∉ d.ifaceList
    let n := if duplicated.isNone then { n with processed := n.processed ++ [m] } else n
    if doForwarding ∧ ¬ m.isHello then
      n.forwardDefault m duplicated receiverIfaceAddr senderIfaceAddr now
    else n

/-- `DupTupleTimerExpire`. A tuple that has not expired is looked at again later. -/
def dupTupleTimerExpire (k : Key) (now : Time) : Node :=
  match n.findDuplicateTuple k with
  | none => n
  | some tuple =>
    if tuple.expirationTime < now then
      { n with duplicates := n.duplicates.eraseP fun d => d.key = k }
    else n

/-! ## One message and the others -/

variable (k : Key)

/-- The copies of a message that wait to be sent. -/
def queued : List MessageHeader := n.queuedMessages.filter fun m => m.key = k

/-- The copies of a message that were read. -/
def read : List MessageHeader := n.processed.filter fun m => m.key = k

end Node

variable {n : Node} {m : MessageHeader} {k : Key} {receiver sender : Ipv4Address} {now : Time}

@[simp] theorem MessageHeader.key_relay (m : MessageHeader) : m.relay.key = m.key := rfl

@[simp] theorem MessageHeader.isHello_relay (m : MessageHeader) : m.relay.isHello = m.isHello := rfl

theorem DuplicateTuple.find_update {f : DuplicateTuple → DuplicateTuple} {k' : Key}
    (hf : ∀ d, (f d).key = d.key) (hk : k' ≠ k) (ds : List DuplicateTuple) :
    (DuplicateTuple.update k f ds).find? (fun d => d.key = k') = ds.find? fun d => d.key = k' := by
  induction ds with
  | nil => rfl
  | cons d ds ih =>
    unfold DuplicateTuple.update
    split
    · rename_i heq
      rw [List.find?_cons_of_neg (by simp [hf, heq, Ne.symm hk]),
        List.find?_cons_of_neg (by simp [heq, Ne.symm hk])]
    · rw [List.find?_cons, List.find?_cons, ih]

theorem DuplicateTuple.find_other {d : DuplicateTuple} (hd : d.key ≠ k) :
    [d].find? (fun d => d.key = k) = none :=
  List.find?_cons_of_neg fun h => hd (of_decide_eq_true h)

namespace Node

/-- What does not touch a message. -/
def Same (k : Key) (n n' : Node) : Prop :=
  n'.mainAddress = n.mainAddress ∧ n'.findDuplicateTuple k = n.findDuplicateTuple k ∧
    n'.queued k = n.queued k ∧ n'.read k = n.read k

theorem Same.refl (k : Key) (n : Node) : Same k n n := ⟨rfl, rfl, rfl, rfl⟩

theorem mainAddress_forwardDefault (m : MessageHeader) (duplicated : Option DuplicateTuple) :
    (n.forwardDefault m duplicated receiver sender now).mainAddress = n.mainAddress := by
  unfold forwardDefault
  dsimp only
  repeat' split
  all_goals rfl

theorem processed_forwardDefault (m : MessageHeader) (duplicated : Option DuplicateTuple) :
    (n.forwardDefault m duplicated receiver sender now).processed = n.processed := by
  unfold forwardDefault
  dsimp only
  repeat' split
  all_goals rfl

theorem mainAddress_recvMessage (m : MessageHeader) :
    (n.recvMessage m receiver sender now).mainAddress = n.mainAddress := by
  unfold recvMessage
  dsimp only
  split
  · rfl
  split
  · rw [mainAddress_forwardDefault]
    split <;> rfl
  · split <;> rfl

theorem queued_queueMessage_other (hk : m.key ≠ k) : (n.queueMessage m).queued k = n.queued k := by
  unfold queued queueMessage
  rw [List.filter_append, List.filter_singleton]
  simp [hk]

/-- A message is forwarded with no change to what is known of the others. -/
theorem same_forwardDefault (hk : m.key ≠ k) (duplicated : Option DuplicateTuple) :
    Same k n (n.forwardDefault m duplicated receiver sender now) := by
  have hqueued : ∀ b : Bool, (if b = true then n.queueMessage m.relay else n).queued k =
      n.queued k := by
    intro b
    split
    · exact queued_queueMessage_other hk
    · rfl
  have hduplicates : ∀ b : Bool, (if b = true then n.queueMessage m.relay else n).duplicates =
      n.duplicates := by
    intro b
    split <;> rfl
  refine ⟨mainAddress_forwardDefault m duplicated, ?_, ?_,
    congrArg (List.filter _) (processed_forwardDefault m duplicated)⟩
  · unfold forwardDefault
    dsimp only
    split
    · rfl
    split
    · rfl
    split
    · show (DuplicateTuple.update m.key _ _).find? _ = _
      rw [hduplicates, DuplicateTuple.find_update (by intros; rfl) (Ne.symm hk)]
      rfl
    · show (_ ++ [_]).find? _ = _
      rw [hduplicates, List.find?_append, DuplicateTuple.find_other (by exact hk), Option.or_none]
      rfl
  · unfold forwardDefault
    dsimp only
    split
    · rfl
    split
    · rfl
    split
    · exact hqueued _
    · exact hqueued _

theorem same_recvMessage (hk : m.key ≠ k) :
    Same k n (n.recvMessage m receiver sender now) := by
  have hread : ({ n with processed := n.processed ++ [m] } : Node).read k = n.read k := by
    unfold read
    rw [List.filter_append, List.filter_singleton]
    simp [hk]
  unfold recvMessage
  dsimp only
  split
  · exact .refl k n
  split
  · rename_i hnone
    split
    · have hsame : Same k { n with processed := n.processed ++ [m] }
          (({ n with processed := n.processed ++ [m] } : Node).forwardDefault m
            (n.findDuplicateTuple m.key) receiver sender now) := same_forwardDefault hk _
      exact ⟨hsame.1, hsame.2.1, hsame.2.2.1, hsame.2.2.2.trans hread⟩
    · exact same_forwardDefault hk _
  · split
    · exact ⟨rfl, rfl, rfl, hread⟩
    · exact .refl k n

/-- A message that is known is not read, and not passed on. -/
theorem recvMessage_of_known {d : DuplicateTuple} (hd : n.findDuplicateTuple m.key = some d)
    (hmem : receiver ∈ d.ifaceList) : n.recvMessage m receiver sender now = n := by
  unfold recvMessage
  dsimp only
  rw [hd]
  simp [hmem]

theorem recvMessage_of_own (hown : m.originatorAddress = n.mainAddress) :
    n.recvMessage m receiver sender now = n := by
  unfold recvMessage
  rw [if_pos (.inr hown)]

/-- A new message makes a tuple. -/
theorem forwardDefault_of_new (hlink : (findSymLinkTuple n.links sender now).isSome)
    (m : MessageHeader) :
    n.forwardDefault m none receiver sender now = { n with
      queuedMessages := n.queuedMessages ++ if n.retransmits m sender then [m.relay] else []
      duplicates := n.duplicates ++ [⟨m.originatorAddress, m.messageSequenceNumber,
        n.retransmits m sender, [receiver], now + dupHoldTime⟩] } := by
  obtain ⟨link, hlink⟩ := Option.isSome_iff_exists.mp hlink
  unfold forwardDefault
  rw [hlink]
  dsimp only [Option.any_none]
  rw [if_neg Bool.false_ne_true]
  cases n.retransmits m sender with
  | true => rfl
  | false => simp

/-- A message that is not known is read, and passed on for a selector. -/
theorem recvMessage_of_unknown (hlive : m.timeToLive ≠ 0)
    (hown : m.originatorAddress ≠ n.mainAddress) (hhello : m.isHello = false)
    (hnone : n.findDuplicateTuple m.key = none)
    (hlink : (findSymLinkTuple n.links sender now).isSome) :
    (∃ d, (n.recvMessage m receiver sender now).findDuplicateTuple m.key = some d ∧
        receiver ∈ d.ifaceList) ∧
      (n.recvMessage m receiver sender now).read m.key = n.read m.key ++ [m] ∧
      (n.recvMessage m receiver sender now).queued m.key = n.queued m.key ++
        if n.retransmits m sender then [m.relay] else [] := by
  have hrecv : n.recvMessage m receiver sender now =
      ({ n with processed := n.processed ++ [m] } : Node).forwardDefault m none receiver sender
        now := by
    unfold recvMessage
    rw [if_neg (not_or.mpr ⟨hlive, hown⟩)]
    dsimp only
    rw [hnone]
    simp [hhello]
  rw [hrecv, forwardDefault_of_new (by exact hlink)]
  refine ⟨⟨⟨m.originatorAddress, m.messageSequenceNumber, n.retransmits m sender, [receiver],
    now + dupHoldTime⟩, ?_, List.mem_singleton_self _⟩, ?_, ?_⟩
  · show (n.duplicates ++ [_]).find? _ = _
    rw [List.find?_append]
    show (n.findDuplicateTuple m.key).or _ = _
    rw [hnone, Option.none_or]
    exact List.find?_cons_of_pos (decide_eq_true rfl)
  · show (n.processed ++ [m]).filter _ = n.processed.filter _ ++ [m]
    rw [List.filter_append]
    exact congrArg _ (List.filter_cons_of_pos (decide_eq_true rfl))
  · show (n.queuedMessages ++ if n.retransmits m sender = true then [m.relay] else []).filter _ =
      n.queuedMessages.filter _ ++ _
    rw [List.filter_append]
    congr 1
    split
    · exact List.filter_cons_of_pos (decide_eq_true rfl)
    · rfl

/-- A tuple that expires is no longer found, and nothing else changes. -/
theorem dupTupleTimerExpire_keeps (n : Node) (k k' : Key) (now : Time) :
    (n.dupTupleTimerExpire k now).mainAddress = n.mainAddress ∧
      (n.dupTupleTimerExpire k now).queued k' = n.queued k' ∧
      (n.dupTupleTimerExpire k now).read k' = n.read k' ∧
      (n.findDuplicateTuple k' = none →
        (n.dupTupleTimerExpire k now).findDuplicateTuple k' = none) := by
  unfold dupTupleTimerExpire
  split
  · exact ⟨rfl, rfl, rfl, id⟩
  split
  · refine ⟨rfl, rfl, rfl, fun hnone => ?_⟩
    rw [findDuplicateTuple, List.find?_eq_none] at hnone ⊢
    exact fun d hd => hnone d (List.mem_of_mem_eraseP hd)
  · exact ⟨rfl, rfl, rfl, id⟩

theorem same_dupTupleTimerExpire {k' : Key} (hk : k' ≠ k) :
    Same k' n (n.dupTupleTimerExpire k now) := by
  have hfind : ∀ ds : List DuplicateTuple, (ds.eraseP fun d => d.key = k).find?
      (fun d => d.key = k') = ds.find? fun d => d.key = k' := by
    intro ds
    induction ds with
    | nil => rfl
    | cons d ds ih =>
      by_cases heq : d.key = k
      · rw [List.eraseP_cons_of_pos (by simpa using heq),
          List.find?_cons_of_neg (by simpa [heq] using Ne.symm hk)]
      · rw [List.eraseP_cons_of_neg (by simpa using heq), List.find?_cons, List.find?_cons, ih]
  obtain ⟨hmain, hqueued, hread, -⟩ := dupTupleTimerExpire_keeps n k k' now
  refine ⟨hmain, ?_, hqueued, hread⟩
  unfold dupTupleTimerExpire
  split
  · rfl
  split
  · exact hfind n.duplicates
  · rfl

end Node

end Ns3.Olsr
