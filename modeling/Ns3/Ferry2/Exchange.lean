import Ns3.Ferry2.DtnSpec
import Ns3.Ferry2.ShelterBroadcast

/-!
# One complete exchange

A hello of `a` makes `b` ask for what it lacks, and the answer of `a` brings
it. `Exchange` lists the four handler runs and what may happen between them:
anything that leaves the two stores and the selected request alone. With
`eraseinfoflag` off the store of `b` ends as the pointwise newest merge of both
and the store of `a` is unchanged; with the flag on, entries past the age limit
are refused and the merge fails.
-/

namespace Ns3.Ferry2

open Ns3.Lib

variable {E : Type}

/-- A complete exchange from `a` to `b`, ending in `a'` and `b'`. Every handler in it returns. -/
structure Exchange (cfg : Config) (ops : UserOps E) (a b a' b' : DtnNode E) where
  time : Fin 4 → ℕ
  junk : Fin 3 → Junk
  junkId : UInt32
  hello : Datagram
  request : Datagram
  answer : Datagram
  /-- `a` sends a hello, which reaches `b`. -/
  a₁ : DtnNode E
  out₁ : List Datagram
  sent : sendHello cfg (time 0) a = some (a₁, out₁)
  hello_mem : hello ∈ out₁
  /-- `b` answers it with a request, which reaches `a` while its buffer is empty. -/
  b₁ : DtnNode E
  out₂ : List Datagram
  asked : recvProto cfg ops (time 1) (junk 0) b hello = some (b₁, out₂)
  request_mem : request ∈ out₂
  a₂ : DtnNode E
  a₂_store : a₂.blockednodeidAndTime = a₁.blockednodeidAndTime
  a₂_buffer : a₂.requestBuffer = []
  a₃ : DtnNode E
  out₃ : List Datagram
  buffered : recvProto cfg ops (time 2) (junk 1) a₂ request = some (a₃, out₃)
  /-- By the end of the window more requests may have come in. -/
  a₄ : DtnNode E
  later : List BufferedRequest
  a₄_store : a₄.blockednodeidAndTime = a₃.blockednodeidAndTime
  a₄_buffer : a₄.requestBuffer = a₃.requestBuffer ++ later
  out₄ : List Datagram
  answered : processRequestBuffer cfg junkId a₄ = some (a', out₄)
  answer_mem : answer ∈ out₄
  /-- The answer reaches `b`, whose store nobody else has changed. -/
  b₂ : DtnNode E
  b₂_store : b₂.blockednodeidAndTime = b₁.blockednodeidAndTime
  out₅ : List Datagram
  merged : recvProto cfg ops (time 3) (junk 2) b₂ answer = some (b', out₅)

namespace Exchange

variable {cfg : Config} {ops : UserOps E} {a b a' b' : DtnNode E}

/-- The request asks for what `a` has and `b` lacks or has older. -/
theorem request_bytes (e : Exchange cfg ops a b a' b')
    (hcan : CanonicalKeys a.blockednodeidAndTime) :
    e.b₁.blockednodeidAndTime = b.blockednodeidAndTime ∧
      requestPacket ⟨b.userId + 1, [],
        requestBlockIds b.blockednodeidAndTime a.blockednodeidAndTime⟩ =
          some e.request.bytes := by
  obtain ⟨-, hout⟩ := sendHello_spec e.sent
  obtain ⟨s, hop, hp, hexit, hblock⟩ := hout _ e.hello_mem
  have hs : s.WF := ⟨hexit ▸ canonicalKeys_empty, hblock ▸ hcan⟩
  obtain ⟨p, ht, hread⟩ := helloPacket_read hs hp
  rcases recvProto_hello ht e.asked with ⟨-, hnil⟩ | hrecv
  · -- a node that waits or has left takes no hello, so it sends no request
    have := e.request_mem
    rw [hnil] at this
    cases this
  · obtain ⟨hsame, y, hy, hreq⟩ := recvHello_spec hrecv
    have hsum := hread _ _ hy
    refine ⟨hsame.blocked, ?_⟩
    rw [← hblock, ← hsum]
    exact hreq _ e.request_mem

/-- The answer holds the entries that were asked for. -/
theorem answer_bytes (e : Exchange cfg ops a b a' b')
    (hcan : CanonicalKeys a.blockednodeidAndTime) :
    a'.blockednodeidAndTime = a.blockednodeidAndTime ∧
      ∃ n : DtnNode E, n.blockednodeidAndTime = a.blockednodeidAndTime ∧ ∃ dst hop,
        userDataPacket cfg.sendHopFlag (makeSendDataFromRequest e.junkId n dst []
          (requestBlockIds b.blockednodeidAndTime a.blockednodeidAndTime)) hop =
            some e.answer.bytes := by
  obtain ⟨hsame₁, -⟩ := sendHello_spec e.sent
  obtain ⟨-, hp⟩ := e.request_bytes hcan
  obtain ⟨p, ht, hread⟩ := requestPacket_read (requestBlockIds_wf hcan _) (by simp)
    (length_requestBlockIds hcan) hp
  have hbuffered := e.buffered
  rw [recvProto_request ht] at hbuffered
  obtain ⟨-, hstore₃, r, q, hr, hbuf₃⟩ := recvRequest_spec hbuffered
  obtain ⟨q', hr'⟩ := hread (e.junk 1).request
  obtain ⟨rfl, -⟩ : _ = r ∧ _ := by simpa [hr'] using hr
  have ha₄ : e.a₄.blockednodeidAndTime = a.blockednodeidAndTime := by
    rw [e.a₄_store, hstore₃, e.a₂_store, hsame₁.blocked]
  obtain ⟨hstore, -, hout⟩ := processRequestBuffer_spec e.answered
  refine ⟨hstore.trans ha₄, e.a₄, ha₄, ?_⟩
  obtain ⟨sel, rest, hbuf, hpacket⟩ := hout _ e.answer_mem
  rw [e.a₄_buffer, hbuf₃, e.a₂_buffer, List.nil_append, List.cons_append] at hbuf
  obtain ⟨rfl, -⟩ := List.cons.inj hbuf
  exact ⟨_, _, hpacket⟩

/-- **One exchange.** With `eraseinfoflag` off, an exchange that runs to its end leaves `b` with
every crossing of either store at the larger of its times, and `a` as it was. -/
theorem merges (e : Exchange cfg ops a b a' b') (hoff : cfg.eraseinfoflag = false)
    (hcan : CanonicalKeys a.blockednodeidAndTime) :
    (∀ k, b'.blockednodeidAndTime.find k =
      Option.merge larger (b.blockednodeidAndTime.find k) (a.blockednodeidAndTime.find k)) ∧
    a'.blockednodeidAndTime = a.blockednodeidAndTime := by
  obtain ⟨hb₁, -⟩ := e.request_bytes hcan
  obtain ⟨ha', n, hn, dst, hop, hp⟩ := e.answer_bytes hcan
  refine ⟨fun k => ?_, ha'⟩
  obtain ⟨p, ht, hread⟩ := userDataPacket_read (makeSendData_wf (hn ▸ hcan)) hp
  have hmerged := e.merged
  rw [recvProto_userData ht] at hmerged
  obtain ⟨y, hy, hstore, -, -⟩ := recvUserData_spec hoff hmerged
  have hdata := congrArg UserData.aoiBlockinfo (hread _ _ hy)
  have hsel : y.1.1.aoiBlockinfo = selectEntries a.blockednodeidAndTime
      (requestBlockIds b.blockednodeidAndTime a.blockednodeidAndTime) := by
    rw [hdata, ← hn]
    rfl
  rw [hstore, hsel, e.b₂_store, hb₁, newest_selectEntries, StdMap.find_newest]

end Exchange

/-! ## A run of the handlers -/

section Sample

/-- Road graph updates that never throw, and no patrol. -/
def sampleOps : UserOps Unit where
  updateGraphInfo _ _ := some ()
  changePatrolRoute _ _ _ := some ()

def sampleJunk : Junk where
  summary := ⟨0, 0, 0, .empty, .empty⟩
  request := ⟨0, [], []⟩
  recv := ⟨⟨0, 0, 0, .empty, .empty, .empty, .empty, ("", 0), .empty, .empty⟩, fun _ => ⟨0⟩⟩
  shelterBroadcastId := 0

/-- A crossing found at second 10. -/
def sampleA : DtnNode Unit :=
  { sampleNode .evcUser 0x0a000001 0 with
    blockednodeidAndTime := .ofList [("node/10004", ⟨0x41200000⟩)] }

def sampleHello : Datagram :=
  ⟨0x0a000001, none, [2, 1, 0, 0, 0, 1, 0, 0, 0, 255, 255, 255, 255, 0, 0, 0, 0, 1, 0, 0, 0,
    20, 39, 0, 0, 0, 0, 32, 65]⟩

def sampleRequest : Datagram :=
  ⟨0x0a000002, some 0x0a000001, [5, 1, 0, 0, 0, 0, 0, 0, 0, 1, 0, 0, 0, 20, 39, 0, 0]⟩

def sampleAnswer : Datagram :=
  ⟨0x0a000001, some 0x0a000002, [3, 0, 0, 0, 0, 1, 0, 0, 0, 10, 0, 0, 2, 1, 0, 0, 0, 20, 39, 0, 0,
    0, 0, 0, 0, 0, 0, 0, 0, 1, 0, 0, 0, 20, 39, 0, 0, 0, 0, 32, 65, 0, 0, 0, 0, 0, 0, 0, 0,
    0, 0, 0, 0, 0, 0, 0, 0]⟩

def sampleConfig (erase : Bool) : Config := ⟨false, erase, 60, false, 0⟩

/-- `sampleB` hears of it at second 100. -/
def sampleB : DtnNode Unit := sampleNode .evcUser 0x0a000002 0

theorem sampleExchange {erase : Bool} {b' : DtnNode Unit} {out : List Datagram}
    (h : recvProto (sampleConfig erase) sampleOps 100000000000 sampleJunk sampleB sampleAnswer =
      some (b', out)) :
    ∃ a', Nonempty (Exchange (sampleConfig erase) sampleOps sampleA sampleB a' b') := by
  refine ⟨_, ⟨{
    time := fun i => if i = 3 then 100000000000 else 0
    junk := fun _ => sampleJunk
    junkId := 0
    hello := sampleHello
    request := sampleRequest
    answer := sampleAnswer
    a₁ := _
    out₁ := _
    sent := rfl
    hello_mem := by decide
    b₁ := _
    out₂ := _
    asked := rfl
    request_mem := by decide
    a₂ := sampleA
    a₂_store := rfl
    a₂_buffer := rfl
    a₃ := _
    out₃ := _
    buffered := rfl
    a₄ := _
    later := []
    a₄_store := rfl
    a₄_buffer := rfl
    out₄ := _
    answered := rfl
    answer_mem := by decide
    b₂ := sampleB
    b₂_store := rfl
    out₅ := out
    merged := h }⟩⟩

theorem sampleAnswer_stored (erase : Bool) :
    (recvProto (sampleConfig erase) sampleOps 100000000000 sampleJunk sampleB sampleAnswer).map
      (fun r => r.1.blockednodeidAndTime.find "node/10004") =
        some (if erase then none else some ⟨0x41200000⟩) := by
  cases erase <;> decide +kernel

theorem Exchange.merges_sample : ∃ a' b',
    Nonempty (Exchange (sampleConfig false) sampleOps sampleA sampleB a' b') ∧
    (∀ k, b'.blockednodeidAndTime.find k = Option.merge larger
      (sampleB.blockednodeidAndTime.find k) (sampleA.blockednodeidAndTime.find k)) ∧
    a'.blockednodeidAndTime = sampleA.blockednodeidAndTime := by
  obtain ⟨⟨b', out⟩, hb', -⟩ := Option.map_eq_some_iff.mp (sampleAnswer_stored false)
  obtain ⟨a', ⟨e⟩⟩ := sampleExchange hb'
  exact ⟨a', b', ⟨e⟩, e.merges rfl (canonicalKeys_one canonical_10004)⟩

/-- With `eraseinfoflag` on and a limit of 60 s, a crossing found 90 s ago does not arrive. -/
theorem exchange_drops_old : ∃ a' b',
    Nonempty (Exchange (sampleConfig true) sampleOps sampleA sampleB a' b') ∧
    sampleA.blockednodeidAndTime.find "node/10004" = some ⟨0x41200000⟩ ∧
    b'.blockednodeidAndTime.find "node/10004" = none := by
  obtain ⟨⟨b', out⟩, hb', hfind⟩ := Option.map_eq_some_iff.mp (sampleAnswer_stored true)
  obtain ⟨a', he⟩ := sampleExchange hb'
  exact ⟨a', b', he, by decide, hfind⟩

end Sample

end Ns3.Ferry2
