import Ns3.Ferry.HelloSpec

/-!
# What `CheckHelloData` does to the blocked crossings

The loop over the received crossings keeps a snapshot of the stored map. It
writes unknown crossings to the user alone and newer times through the
snapshot, so that a write-back forgets the unknown crossings before it; it
compares an unknown crossing with an uninitialised time, which may write it
back as well. With `eraseinfoflag` off the stored map ends as the newest merge
exactly when no write-back comes after an unknown crossing that was not
written back itself.
-/

namespace Ns3.Ferry

open Ns3.Lib Ns3.Ferry2

variable {E C D : Type} [DecidableEq C] {cfg : Config} {graph : UpdateGraph E} {now : ℕ}

/-! ## The loop over the received crossings -/

theorem whenAccepted_off (hoff : cfg.eraseinfoflag = false)
    {store : CheckState E → String × Binary32 → Option (CheckState E)} {st : CheckState E}
    {e : String × Binary32} : whenAccepted cfg now store st e = store st e := by
  simp [whenAccepted, accepts, hoff]

/-- The comparison writes back when the received time is newer, and otherwise stores nothing. -/
theorem compareBlocked_view (hoff : cfg.eraseinfoflag = false) {st st' : CheckState E}
    {e : String × Binary32} {old : Binary32}
    (h : compareBlocked cfg graph now st e old = some st') :
    st'.view = if old < e.2 then st.view.writeBack e else st.view := by
  unfold compareBlocked at h
  split at h
  · rename_i hlt
    cases h
    rw [if_neg (Binary32.lt_asymm hlt)]
    rfl
  split at h
  · rename_i hlt
    simp only [whenAccepted_off hoff, Option.bind_eq_bind, Option.bind_eq_some_iff] at h
    obtain ⟨st₁, h₁, hout⟩ := h
    cases hout
    rw [if_pos hlt, ← writeBack_view h₁]
    rfl
  · rename_i hlt
    cases h
    rw [if_neg hlt]

/-- One received crossing. -/
theorem checkBlocked_blocked (hoff : cfg.eraseinfoflag = false) {old : String → Binary32}
    {st st' : CheckState E} {e : String × Binary32}
    (h : checkBlocked cfg graph now old st e = some st') :
    st'.view.blocked = st.view.blocked.merge old e := by
  unfold checkBlocked at h
  cases hfind : st.aoiBlockedData.find e.1 with
  | some a =>
    have hsnap : st.view.blocked.snapshot.find e.1 = some a := hfind
    have hwrites : Snapshot.WritesBack old st.view.blocked.snapshot e ↔ a < e.2 := by
      simp [Snapshot.WritesBack, hsnap]
    rw [hfind] at h
    simp only [compareBlocked_view hoff h, Snapshot.merge, hwrites, hsnap, reduceCtorEq, if_false]
    split <;> rfl
  | none =>
    have hsnap : st.view.blocked.snapshot.find e.1 = none := hfind
    simp only [hfind, whenAccepted_off hoff, Option.bind_eq_bind,
      Option.bind_eq_some_iff] at h
    obtain ⟨st₁, h₁, h⟩ := h
    have hwrites : Snapshot.WritesBack old st.view.blocked.snapshot e ↔ old e.1 < e.2 := by
      simp [Snapshot.WritesBack, hsnap]
    simp only [compareBlocked_view hoff h, learnBlocked_view h₁, Snapshot.merge, hwrites, hsnap,
      if_true]
    split <;> rfl

theorem checkHelloData_blocked (hoff : cfg.eraseinfoflag = false) {junk : CheckJunk}
    {n n' : Node E} {data : UserData} {hop : Hop} {sender : Ipv4Address} {out : List Message}
    (h : checkHelloData cfg graph now junk n data hop sender = some (n', out)) :
    n'.ferry.blockednodeidAndTime = (data.aoiBlockinfo.entries.foldl
      (Snapshot.merge junk.oldDataAoi)
      ⟨n.ferry.blockednodeidAndTime, n.ferry.blockednodeidAndTime⟩).store := by
  obtain ⟨st, st', hstart, hloop, hstore, -⟩ := checkHelloData_loop h
  rw [hstore, foldlM_sim (g := fun s : CheckState E => s.view.blocked)
    (fun _ _ _ => checkBlocked_blocked hoff) hloop, hstart]
  rfl

/-! ## The merge -/

/-- **Merging a hello.** With `eraseinfoflag` off, the stored crossings end as the newest merge
with those of the hello exactly when no crossing is written back after an unknown one that was
not. -/
theorem recvHello_newest_iff {w : World E C D} (hoff : w.cfg.eraseinfoflag = false)
    {n n' : Node E} {hello : UserData} {hop : Hop} {sender : Ipv4Address} {out : List Message}
    (hnew : (n.idCache.isDuplicate w.now sender hello.broadcastId).1 = false)
    (h : recvHello w n hello hop sender = some (n', out)) :
    (∀ k, n'.ferry.blockednodeidAndTime.find k = Option.merge larger
      (n.ferry.blockednodeidAndTime.find k) (hello.aoiBlockinfo.find k)) ↔
    Snapshot.Kept w.junk.oldDataAoi n.ferry.blockednodeidAndTime hello.aoiBlockinfo.entries := by
  simp only [recvHello, hnew, Bool.false_eq_true, if_false, Option.bind_eq_bind,
    Option.bind_eq_some_iff] at h
  obtain ⟨n₁, hroute, hcheck⟩ := h
  have hstart : n₁.ferry.blockednodeidAndTime = n.ferry.blockednodeidAndTime :=
    (reconsiderRoute_blocked hroute).trans (mergePatrol_blocked n.ferry hello)
  have hfinal := checkHelloData_blocked hoff hcheck
  rw [hstart] at hfinal
  rw [← Snapshot.store_eq_newest_iff hello.aoiBlockinfo, ← hfinal]
  constructor
  · exact StdMap.eq_newest
  · intro heq k
    rw [heq, StdMap.find_newest]

/-! ## One crossing learned and lost -/

section Sample

def sampleFerry : FerryUser where
  blockednodeidAndTime := .ofList [("node/10007", ⟨0x41200000⟩)]
  aoiExitinfo := .empty
  increaseRate := .empty
  changerouteforUAV := false
  patrolRoute := []
  oldPatrolRoute := []
  currentPatrolIndex := 0
  myPatrolEreaAndStartTime := ("", 0)
  otherUAVPatrolEreaAndId := .empty
  patrolEreaidAndTime := .empty

/-- A user that found the crossing 10007 blocked at second 10. -/
def sampleNode : Node Unit where
  nodeType := .evcUser
  userId := 0
  exited := false
  ifaces := [0x0a000001]
  broadcastId := 0
  idCache := .ofSecond
  blockednodeid := .empty
  fullexitnodeid := .empty
  hop := .empty
  whileQuickHello := false
  isDijkstra := false
  ferry := sampleFerry
  user := ()

def sampleHello (blocked : List (String × Binary32)) : UserData where
  userId := 2
  dst := 0xffffffff
  broadcastId := 1
  blockedSet := .empty
  fullexitSet := .empty
  aoiExitinfo := .empty
  aoiBlockinfo := .ofList blocked
  myPatrolEreaAndStartTime := ("", 0)
  otherUAVPatrolEreaAndId := .empty
  patrolEreaidAndTime := .empty

/-- A map nobody looks at, and an uninitialised time past every real one. -/
def sampleWorld : World Unit Unit Unit where
  cfg := ⟨false, false, 0, false, 0⟩
  graph _ _ := some ()
  map := ⟨[], fun _ => none, fun _ _ => (), (), fun _ _ => false⟩
  exitNodes := .empty
  now := 30000000000
  junk := ⟨fun _ => ⟨0x7f000000⟩, 0⟩

/-- Crossing 10004 alone, found at second 20. -/
theorem recvHello_newest_iff_sample : ∃ n' out,
    recvHello sampleWorld sampleNode (sampleHello [("node/10004", ⟨0x41a00000⟩)]) ⟨.empty⟩
      0x0a000002 = some (n', out) ∧
    ∀ k, n'.ferry.blockednodeidAndTime.find k = Option.merge larger
      (sampleNode.ferry.blockednodeidAndTime.find k)
      ((sampleHello [("node/10004", ⟨0x41a00000⟩)]).aoiBlockinfo.find k) := by
  obtain ⟨n', out, h⟩ : ∃ n' out, recvHello sampleWorld sampleNode
    (sampleHello [("node/10004", ⟨0x41a00000⟩)]) ⟨.empty⟩ 0x0a000002 = some (n', out) :=
    ⟨_, _, rfl⟩
  exact ⟨n', out, h, (recvHello_newest_iff rfl rfl h).mpr (List.pairwise_singleton _ _)⟩

def sampleBlocked : List (String × Binary32) :=
  [("node/10004", ⟨0x41a00000⟩), ("node/10007", ⟨0x41a00000⟩)]

/-- With news of crossing 10007 in the same hello, crossing 10004 is gone at the end. -/
theorem learned_crossing_lost : ∃ n' out,
    recvHello sampleWorld sampleNode (sampleHello sampleBlocked) ⟨.empty⟩ 0x0a000002 =
      some (n', out) ∧
    sampleWorld.cfg.eraseinfoflag = false ∧
    (sampleNode.idCache.isDuplicate sampleWorld.now 0x0a000002 1).1 = false ∧
    (sampleHello sampleBlocked).aoiBlockinfo.find "node/10004" = some ⟨0x41a00000⟩ ∧
    n'.ferry.blockednodeidAndTime.find "node/10004" = none ∧
    ¬ ∀ k, n'.ferry.blockednodeidAndTime.find k = Option.merge larger
      (sampleNode.ferry.blockednodeidAndTime.find k)
      ((sampleHello sampleBlocked).aoiBlockinfo.find k) := by
  refine ⟨_, _, rfl, rfl, rfl, by decide, by decide, fun hall => ?_⟩
  exact absurd (hall "node/10004") (by decide)

end Sample

end Ns3.Ferry
