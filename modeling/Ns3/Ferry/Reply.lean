import Ns3.Ferry.CheckHello

/-!
# What `CheckHelloData` sends back

The blocked crossings of the reply. The loop over the node's own crossings
takes those the hello lacks, as far as `eraseinfoflag` lets it; the loop over
the received ones takes the older ones, with the node's own time. For an
unknown crossing the second loop compares with an uninitialised time, and when
that is the later one it is sent as if the node knew of the crossing.
-/

namespace Ns3.Ferry

open Ns3.Lib Ns3.Ferry2

variable {E : Type} {cfg : Config} {graph : UpdateGraph E} {now : ℕ}

/-! ## The loop over the node's own crossings -/

/-- Something is only put into the reply together with the flag that sends it. -/
def CheckState.Flagged (st : CheckState E) : Prop :=
  st.sendflag = true ∨ st.replyBlocked = .empty

theorem checkExit_flagged {hop : Hop} {st st' : CheckState E} {e : String × (UInt32 × UInt32)}
    (h : checkExit hop st e = some st') :
    st'.replyBlocked = st.replyBlocked ∧ (st.Flagged → st'.Flagged) := by
  simp only [checkExit, Option.bind_eq_bind, Option.bind_eq_some_iff] at h
  obtain ⟨old, -, h⟩ := h
  split at h
  · cases h
    exact ⟨rfl, fun _ => .inl rfl⟩
  split at h
  · cases h
    exact ⟨rfl, id⟩
  · cases h
    exact ⟨rfl, id⟩

theorem checkMissing_eq {recv : StdMap String Binary32} (st : CheckState E)
    (e : String × Binary32) : checkMissing cfg now recv st e =
      if recv.contains e.1 = false ∧ accepts cfg now e.2 = true then
        { st with replyBlocked := st.replyBlocked.assign e.1 e.2, sendflag := true }
      else st := by
  unfold checkMissing
  rw [StdMap.insert_erase]
  cases recv.contains e.1 <;> cases accepts cfg now e.2 <;> rfl

/-- The crossings that the hello lacks. -/
theorem foldl_checkMissing (recv mine : StdMap String Binary32) (st : CheckState E) (k : String) :
    (mine.entries.foldl (checkMissing cfg now recv) st).replyBlocked.find k =
      match mine.find k with
      | none => st.replyBlocked.find k
      | some v => if recv.contains k = false ∧ accepts cfg now v = true then some v
        else st.replyBlocked.find k := by
  have hview : ∀ (s : CheckState E) (e : String × Binary32),
      s.replyBlocked.alter e.1 (fun o =>
        if recv.contains e.1 = false ∧ accepts cfg now e.2 = true then some e.2 else o) =
      (checkMissing cfg now recv s e).replyBlocked := by
    intro s e
    rw [checkMissing_eq]
    ext k' : 1
    rw [StdMap.find_alter]
    split_ifs <;> simp_all [StdMap.find_assign]
  have hfold : (mine.entries.foldl (checkMissing cfg now recv) st).replyBlocked =
      mine.entries.foldl (fun m e => m.alter e.1 (fun o =>
        if recv.contains e.1 = false ∧ accepts cfg now e.2 = true then some e.2 else o))
        st.replyBlocked := (List.foldl_hom CheckState.replyBlocked hview).symm
  rw [hfold, StdMap.find_foldl_alter mine fun k v o =>
    if recv.contains k = false ∧ accepts cfg now v = true then some v else o]
  cases mine.find k <;> rfl

theorem checkMissing_flagged {recv : StdMap String Binary32} {st : CheckState E}
    {e : String × Binary32} (h : st.Flagged) : (checkMissing cfg now recv st e).Flagged := by
  rw [checkMissing_eq]
  split
  · exact .inl rfl
  · exact h

/-! ## The loop over the received crossings -/

theorem whenAccepted_reply
    {store : CheckState E → String × Binary32 → Option (CheckState E)} {st st' : CheckState E}
    {e : String × Binary32} (hstore : ∀ s s' : CheckState E, store s e = some s' →
      s'.replyBlocked = s.replyBlocked ∧ s'.sendflag = s.sendflag)
    (h : whenAccepted cfg now store st e = some st') :
    st'.replyBlocked = st.replyBlocked ∧ st'.sendflag = st.sendflag := by
  unfold whenAccepted at h
  split at h
  · exact hstore st st' h
  · cases h
    exact ⟨rfl, rfl⟩

theorem learnBlocked_reply {st st' : CheckState E} {e : String × Binary32}
    (h : learnBlocked graph st e = some st') :
    st'.replyBlocked = st.replyBlocked ∧ st'.sendflag = st.sendflag := by
  simp only [learnBlocked, Option.bind_eq_bind, Option.bind_eq_some_iff] at h
  obtain ⟨node, -, hout⟩ := h
  cases hout
  exact ⟨rfl, rfl⟩

theorem writeBack_reply {st st' : CheckState E} {e : String × Binary32}
    (h : writeBack graph st e = some st') :
    st'.replyBlocked = st.replyBlocked ∧ st'.sendflag = st.sendflag := by
  simp only [writeBack, Option.bind_eq_bind, Option.bind_eq_some_iff] at h
  obtain ⟨node, -, hout⟩ := h
  cases hout
  exact ⟨rfl, rfl⟩

/-- The later of the two times is sent when it is not the received one. -/
theorem compareBlocked_reply {st st' : CheckState E} {e : String × Binary32} {old : Binary32}
    (h : compareBlocked cfg graph now st e old = some st') :
    st'.replyBlocked = (if e.2 < old then st.replyBlocked.assign e.1 old else st.replyBlocked) ∧
      (st.Flagged → st'.Flagged) := by
  unfold compareBlocked at h
  split at h
  · rename_i hlt
    cases h
    rw [if_pos hlt, ← StdMap.insert_erase]
    exact ⟨rfl, fun _ => .inl rfl⟩
  rename_i hle
  rw [if_neg hle]
  split at h
  · simp only [Option.bind_eq_bind, Option.bind_eq_some_iff] at h
    obtain ⟨st₁, h₁, hout⟩ := h
    cases hout
    obtain ⟨hreply, hflag⟩ := whenAccepted_reply (fun _ _ => writeBack_reply) h₁
    refine ⟨hreply, fun hst => ?_⟩
    unfold CheckState.Flagged at hst ⊢
    dsimp only
    rw [hreply, hflag]
    exact hst
  · cases h
    exact ⟨rfl, id⟩

/-- What the received time of a crossing is compared with. -/
def heldTime (old : String → Binary32) (held : StdMap String Binary32) (k : String) : Binary32 :=
  (held.find k).getD (old k)

theorem compareBlocked_snapshot {st st' : CheckState E} {e : String × Binary32} {old : Binary32}
    (h : compareBlocked cfg graph now st e old = some st') {k : String} (hk : k ≠ e.1) :
    st'.aoiBlockedData.find k = st.aoiBlockedData.find k := by
  show st'.view.blocked.snapshot.find k = st.view.blocked.snapshot.find k
  rcases compareBlocked_cases h with hv | hv
  · rw [hv]
  · rw [hv]
    exact (StdMap.find_assign ..).trans (if_neg hk)

theorem checkBlocked_reply {old : String → Binary32} {st st' : CheckState E}
    {e : String × Binary32} (h : checkBlocked cfg graph now old st e = some st') :
    st'.replyBlocked = (if e.2 < heldTime old st.aoiBlockedData e.1 then
        st.replyBlocked.assign e.1 (heldTime old st.aoiBlockedData e.1) else st.replyBlocked) ∧
      (st.Flagged → st'.Flagged) ∧
      ∀ k, k ≠ e.1 → st'.aoiBlockedData.find k = st.aoiBlockedData.find k := by
  unfold checkBlocked at h
  unfold heldTime
  cases hfind : st.aoiBlockedData.find e.1 with
  | some held =>
    rw [hfind] at h
    obtain ⟨hreply, hflag⟩ := compareBlocked_reply h
    exact ⟨hreply, hflag, fun k hk => compareBlocked_snapshot h hk⟩
  | none =>
    simp only [hfind, Option.bind_eq_bind, Option.bind_eq_some_iff] at h
    obtain ⟨st₁, h₁, h⟩ := h
    obtain ⟨hreply₁, hflag₁⟩ := whenAccepted_reply (fun _ _ => learnBlocked_reply) h₁
    have hsnap₁ : st₁.view.blocked.snapshot = st.view.blocked.snapshot := by
      unfold whenAccepted at h₁
      split at h₁
      · rw [learnBlocked_view h₁]
        rfl
      · cases h₁
        rfl
    obtain ⟨hreply, hflag⟩ := compareBlocked_reply h
    rw [hreply₁] at hreply
    refine ⟨hreply, fun hst => hflag ?_, fun k hk => ?_⟩
    · unfold CheckState.Flagged at hst ⊢
      rw [hreply₁, hflag₁]
      exact hst
    · rw [compareBlocked_snapshot h hk]
      exact congrArg (fun m => StdMap.find m k) hsnap₁

/-- The crossings that the hello has, in the loop over them. -/
theorem foldlM_checkBlocked {old : String → Binary32} {es : List (String × Binary32)}
    (hes : es.Pairwise fun a b => a.1 < b.1) {st st' : CheckState E}
    (h : es.foldlM (checkBlocked cfg graph now old) st = some st') :
    (st.Flagged → st'.Flagged) ∧ ∀ k, st'.replyBlocked.find k =
      match StdMap.lookupL k es with
      | none => st.replyBlocked.find k
      | some r => if r < heldTime old st.aoiBlockedData k then
          some (heldTime old st.aoiBlockedData k) else st.replyBlocked.find k := by
  induction es generalizing st with
  | nil =>
    cases h
    exact ⟨id, fun k => rfl⟩
  | cons e es ih =>
    obtain ⟨he, hes⟩ := List.pairwise_cons.mp hes
    rw [List.foldlM_cons, Option.bind_eq_bind, Option.bind_eq_some_iff] at h
    obtain ⟨st₁, h₁, h⟩ := h
    obtain ⟨hreply, hflag, hsnap⟩ := checkBlocked_reply h₁
    obtain ⟨hflag', hrest⟩ := ih hes h
    refine ⟨fun hst => hflag' (hflag hst), fun k => ?_⟩
    rw [hrest k, StdMap.lookupL]
    by_cases hk : e.1 = k
    · subst hk
      rw [StdMap.lookupL_of_forall_lt he, if_pos rfl]
      dsimp only
      rw [hreply]
      split
      · rw [StdMap.find_assign, if_pos rfl]
      · rfl
    · have hheld : heldTime old st₁.aoiBlockedData k = heldTime old st.aoiBlockedData k := by
        unfold heldTime
        rw [hsnap k (Ne.symm hk)]
      have hsame : st₁.replyBlocked.find k = st.replyBlocked.find k := by
        rw [hreply]
        split
        · rw [StdMap.find_assign, if_neg (Ne.symm hk)]
        · rfl
      rw [if_neg hk, hheld, hsame]

/-! ## The reply -/

theorem checkHop_reply (mine : StdMap UInt32 HopInfo) (st : CheckState E) (e : UInt32 × HopInfo) :
    (checkHop mine st e).replyBlocked = st.replyBlocked ∧
      (st.Flagged → (checkHop mine st e).Flagged) := by
  unfold checkHop
  split
  · split
    · exact ⟨rfl, id⟩
    split
    · exact ⟨rfl, id⟩
    · exact ⟨rfl, fun _ => .inl rfl⟩
  · exact ⟨rfl, id⟩

theorem checkMissingHop_reply (recv : StdMap UInt32 HopInfo) (st : CheckState E)
    (e : UInt32 × HopInfo) :
    (checkMissingHop recv st e).replyBlocked = st.replyBlocked ∧
      (st.Flagged → (checkMissingHop recv st e).Flagged) := by
  unfold checkMissingHop
  split
  · exact ⟨rfl, id⟩
  · exact ⟨rfl, fun _ => .inl rfl⟩

theorem checkHops_reply (cfg : Config) (mine : StdMap UInt32 HopInfo) (hop : Hop)
    (st : CheckState E) :
    (checkHops cfg mine hop st).replyBlocked = st.replyBlocked ∧
      (st.Flagged → (checkHops cfg mine hop st).Flagged) := by
  unfold checkHops
  split
  · dsimp only
    constructor
    · rw [foldl_view (g := CheckState.replyBlocked) fun s e => (checkMissingHop_reply hop.hop s e).1]
      exact foldl_view (fun s e => (checkHop_reply mine s e).1) _ _
    · intro hst
      have hfirst : (hop.hop.entries.foldl (checkHop mine) st).Flagged :=
        List.foldlRecOn _ _ hst fun s hs e _ => (checkHop_reply mine s e).2 hs
      exact List.foldlRecOn _ _ hfirst fun s hs e _ => (checkMissingHop_reply hop.hop s e).2 hs
  · exact ⟨rfl, id⟩

/-- The blocked crossings in a reply. -/
def Message.replied : Message → Option (StdMap String Binary32)
  | .hello .. => none
  | .userData _ data _ => some data.aoiBlockinfo

/-- The blocked crossings sent back; there may be no reply. -/
def repliedBlocked (out : List Message) : StdMap String Binary32 :=
  (out.findSome? Message.replied).getD .empty

theorem repliedBlocked_replyOf {st : CheckState E} (hst : st.Flagged) (junk : CheckJunk)
    (userId : UInt32) (sender : Ipv4Address) :
    repliedBlocked (replyOf junk st userId sender) = st.replyBlocked := by
  unfold replyOf
  split
  · rfl
  · rename_i hflag
    exact (hst.resolve_left hflag).symm

theorem repliedBlocked_sendHello (n : Node E) (out : List Message) :
    repliedBlocked ((sendHello cfg now n).2 ++ out) = repliedBlocked out := by
  unfold repliedBlocked sendHello
  dsimp only
  split
  · rfl
  · rw [List.findSome?_append, List.findSome?_map]
    have hnone : ∀ f : Ipv4Address → Message, (∀ a, (f a).replied = none) →
        n.ifaces.findSome? (Message.replied ∘ f) = none :=
      fun f hf => List.findSome?_eq_none_iff.mpr fun a _ => hf a
    rw [hnone _ fun _ => rfl, Option.none_or]

/-- The crossing belongs into a reply, with this time: the node holds it, and the hello lacks it
or has an older time. -/
def Owed (mine recv : StdMap String Binary32) (k : String) (v : Binary32) : Prop :=
  mine.find k = some v ∧ ∀ r, recv.find k = some r → r < v

/-- Nothing that the hello lacks is withheld, and no unknown crossing has a time before the one
that the uninitialised local holds. -/
def Candid (cfg : Config) (now : ℕ) (old : String → Binary32) (mine recv : StdMap String Binary32) :
    Prop :=
  (∀ k v, mine.find k = some v → recv.find k = none → accepts cfg now v = true) ∧
    ∀ k r, recv.find k = some r → mine.find k = none → ¬ r < old k

/-- The blocked crossings of the reply, in every case. -/
theorem find_repliedBlocked {junk : CheckJunk} {n n' : Node E} {data : UserData} {hop : Hop}
    {sender : Ipv4Address} {out : List Message}
    (h : checkHelloData cfg graph now junk n data hop sender = some (n', out)) (k : String) :
    (repliedBlocked out).find k =
      match data.aoiBlockinfo.find k, n.ferry.blockednodeidAndTime.find k with
      | none, none => none
      | none, some v => if accepts cfg now v then some v else none
      | some r, some v => if r < v then some v else none
      | some r, none => if r < junk.oldDataAoi k then some (junk.oldDataAoi k) else none := by
  simp only [checkHelloData, Option.bind_eq_bind, Option.bind_eq_some_iff] at h
  obtain ⟨st₁, h₁, st₃, h₃, hout⟩ := h
  have hview : st₁.view = (checkStart n).view := foldlM_fixed (fun _ _ _ => checkExit_view) h₁
  have hheld : st₁.aoiBlockedData = n.ferry.blockednodeidAndTime :=
    congrArg (fun v : CheckView => v.blocked.snapshot) hview
  have hempty : st₁.replyBlocked = .empty :=
    foldlM_fixed (g := CheckState.replyBlocked) (fun _ _ _ h => (checkExit_flagged h).1) h₁
  have hview₂ : (st₁.aoiBlockedData.entries.foldl (checkMissing cfg now data.aoiBlockinfo) st₁).view =
      st₁.view := foldl_view checkMissing_view st₁.aoiBlockedData.entries st₁
  have hheld₂ := congrArg (fun v : CheckView => v.blocked.snapshot) (hview₂.trans hview)
  have hflag₂ : (st₁.aoiBlockedData.entries.foldl
      (checkMissing cfg now data.aoiBlockinfo) st₁).Flagged :=
    List.foldlRecOn _ _ (.inr hempty) fun s hs e _ => checkMissing_flagged hs
  obtain ⟨hflag₃, hreply⟩ := foldlM_checkBlocked data.aoiBlockinfo.sorted h₃
  obtain ⟨hhops, hflag₄⟩ := checkHops_reply cfg n.hop hop st₃
  have hreplied : repliedBlocked out = st₃.replyBlocked := by
    rw [← hhops, ← repliedBlocked_replyOf (hflag₄ (hflag₃ hflag₂)) junk n.userId sender]
    split at hout
    · cases hout
      exact repliedBlocked_sendHello _ _
    · cases hout
      rfl
  have hmissing : (st₁.aoiBlockedData.entries.foldl
      (checkMissing cfg now data.aoiBlockinfo) st₁).replyBlocked.find k = _ :=
    foldl_checkMissing data.aoiBlockinfo st₁.aoiBlockedData st₁ k
  rw [hempty, StdMap.find_empty, hheld] at hmissing
  rw [hheld] at hheld₂ hreply
  have htime : heldTime junk.oldDataAoi (n.ferry.blockednodeidAndTime.entries.foldl
      (checkMissing cfg now data.aoiBlockinfo) st₁).aoiBlockedData k =
      heldTime junk.oldDataAoi n.ferry.blockednodeidAndTime k := congrArg (heldTime _ · k) hheld₂
  rw [hreplied, hreply k, hmissing, htime]
  show (match data.aoiBlockinfo.find k with | none => _ | some r => _) = _
  unfold heldTime StdMap.contains
  cases data.aoiBlockinfo.find k with
  | none => cases n.ferry.blockednodeidAndTime.find k <;> simp
  | some r => cases n.ferry.blockednodeidAndTime.find k <;> simp

/-- **What is sent back.** -/
theorem reply_exact_iff {junk : CheckJunk} {n n' : Node E} {data : UserData} {hop : Hop}
    {sender : Ipv4Address} {out : List Message}
    (h : checkHelloData cfg graph now junk n data hop sender = some (n', out)) :
    (∀ k v, (repliedBlocked out).find k = some v ↔
      Owed n.ferry.blockednodeidAndTime data.aoiBlockinfo k v) ↔
    Candid cfg now junk.oldDataAoi n.ferry.blockednodeidAndTime data.aoiBlockinfo := by
  have hfind := find_repliedBlocked h
  unfold Owed Candid
  constructor
  · intro hall
    constructor
    · intro k v hmine hrecv
      have hk := (hall k v).mpr ⟨hmine, fun r hr => by rw [hrecv] at hr; cases hr⟩
      rw [hfind k, hmine, hrecv] at hk
      by_contra hrefused
      simp only [hrefused, if_false, reduceCtorEq] at hk
    · intro k r hrecv hmine hlt
      have hk := hfind k
      simp only [hmine, hrecv, if_pos hlt] at hk
      have := ((hall k _).mp hk).1
      rw [hmine] at this
      cases this
  · rintro ⟨haccept, hjunk⟩ k v
    rw [hfind k]
    cases hrecv : data.aoiBlockinfo.find k with
    | none =>
      cases hmine : n.ferry.blockednodeidAndTime.find k with
      | none => simp
      | some w => simp [haccept k w hmine hrecv]
    | some r =>
      cases hmine : n.ferry.blockednodeidAndTime.find k with
      | none => simp [hjunk k r hrecv hmine]
      | some w =>
        dsimp only
        constructor
        · intro hk
          split at hk
          · rename_i hlt
            cases hk
            exact ⟨rfl, fun r' hr => by cases hr; exact hlt⟩
          · cases hk
        · rintro ⟨heq, hnewer⟩
          cases heq
          rw [if_pos (hnewer r rfl)]

/-- An older time for the one crossing that the node holds. -/
theorem reply_exact_iff_sample : ∃ n' out,
    checkHelloData ⟨false, false, 0, false, 0⟩ (fun _ _ => some ()) 30000000000
      ⟨fun _ => ⟨0x7f000000⟩, 0⟩ sampleNode (sampleHello [("node/10007", ⟨0x40a00000⟩)]) ⟨.empty⟩
      0x0a000002 = some (n', out) ∧
    ∀ k v, (repliedBlocked out).find k = some v ↔
      Owed sampleNode.ferry.blockednodeidAndTime
        (sampleHello [("node/10007", ⟨0x40a00000⟩)]).aoiBlockinfo k v := by
  obtain ⟨n', out, h⟩ : ∃ n' out, checkHelloData ⟨false, false, 0, false, 0⟩ (fun _ _ => some ())
    30000000000 ⟨fun _ => ⟨0x7f000000⟩, 0⟩ sampleNode (sampleHello [("node/10007", ⟨0x40a00000⟩)])
    ⟨.empty⟩ 0x0a000002 = some (n', out) := ⟨_, _, rfl⟩
  refine ⟨n', out, h, (reply_exact_iff h).mpr ⟨fun k v _ _ => rfl, ?_⟩⟩
  intro k r hrecv hmine
  have hrecv' : StdMap.lookupL k [("node/10007", (⟨0x40a00000⟩ : Binary32))] = some r := hrecv
  have hmine' : StdMap.lookupL k [("node/10007", (⟨0x41200000⟩ : Binary32))] = none := hmine
  by_cases hk : "node/10007" = k <;> simp [StdMap.lookupL, hk] at hrecv' hmine'

/-- The node sends back that crossing 10004 has been blocked since the second `2 ^ 127`, and has
never heard of it. -/
theorem reply_fabricated : ∃ n' out,
    checkHelloData ⟨false, false, 0, false, 0⟩ (fun _ _ => some ()) 30000000000
      ⟨fun _ => ⟨0x7f000000⟩, 0⟩ sampleNode (sampleHello [("node/10004", ⟨0x41a00000⟩)]) ⟨.empty⟩
      0x0a000002 = some (n', out) ∧
    (repliedBlocked out).find "node/10004" = some ⟨0x7f000000⟩ ∧
    ¬ ∀ k v, (repliedBlocked out).find k = some v ↔
      Owed sampleNode.ferry.blockednodeidAndTime
        (sampleHello [("node/10004", ⟨0x41a00000⟩)]).aoiBlockinfo k v := by
  refine ⟨_, _, rfl, by decide, fun hall => ?_⟩
  have howed := (hall "node/10004" ⟨0x7f000000⟩).mp (by decide)
  exact absurd howed.1 (by decide)

end Ns3.Ferry
