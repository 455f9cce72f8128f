import Ns3.Ferry2.RoadMap
import Ns3.Lib.EventLog
import Ns3.Lib.Run

/-!
# Blocked crossings

`JSON_Data::update_mapinfo` (`json_data.cc`) with `SetBlockedNodes` and
`EraseBlockedNodes` (`evacuation-building.cc`). The two files an update reads
are looked up by the time in their names. `erase_nodes` only grows, so an update
that erases at all erases again whatever was erased before, also what has been
set since. `none` is an exception nobody catches. Rescue nodes and congested
nodes, whose loops leave the blocked flags alone, are left out, and so are the
log files and the time of the next update.
-/

namespace Ns3.Ferry2

open Ns3.Lib

variable {C : Type} [LinearOrder C] [Zero C]

/-! ## An update -/

/-- The flags of the ini file, and the files `blocked_nodes_<time>.txt` and
`erase_nodes_<time>.txt`. -/
structure BlockConfig where
  blockflag : Bool
  blockeraseflag : Bool
  randomblockeraseflag : Bool
  updateMapinfoInterval : ℚ
  setFile : UInt32 → Option (List String)
  eraseFile : UInt32 → Option (List String)

/-- The static members an update works on. -/
structure MapInfo (C : Type) [LinearOrder C] [Zero C] where
  map : RoadMap C
  updateNum : UInt32
  blockedNodes : List String
  eraseNodes : List String
  nowBlocked : List String

namespace MapInfo

/-- `uint32_t time = GetUpdateMapinfoInterval () * update_num`. -/
def time (cfg : BlockConfig) (s : MapInfo C) : UInt32 :=
  toUInt32 (Format.binary64.rnd (cfg.updateMapinfoInterval * s.updateNum.toNat))

/-- `MyBuilding::SetBlockedNodes`. Each line is looked up for the output. -/
def setBlockedNodes (cfg : BlockConfig) (s : MapInfo C) : Option (MapInfo C) :=
  match cfg.setFile (s.time cfg) with
  | none => some { s with blockedNodes := [] }
  | some lines => do
    let _ ← lines.mapM s.map.idToCoordinate.find
    return { s with blockedNodes := s.blockedNodes ++ lines }

/-- `MyBuilding::EraseBlockedNodes`. -/
def eraseBlockedNodes (cfg : BlockConfig) (s : MapInfo C) : MapInfo C :=
  match cfg.eraseFile (s.time cfg) with
  | none => s
  | some lines => { s with
      blockedNodes := s.blockedNodes.filter fun id => id ∉ lines
      eraseNodes := s.eraseNodes ++ lines }

/-- The beginning of an update. -/
def beginUpdate (cfg : BlockConfig) (s : MapInfo C) : Option (MapInfo C) :=
  let s := { s with updateNum := s.updateNum + 1 }
  if cfg.blockflag then setBlockedNodes cfg s else some s

/-- The branch under `GetRandomBlockeraseFlag`: the crossing blocked last is to be opened. -/
def pickLast (cfg : BlockConfig) (s : MapInfo C) : MapInfo C × List String :=
  match s.nowBlocked.getLast? with
  | some id =>
    if cfg.blockflag ∧ cfg.randomblockeraseflag ∧ 1 < s.updateNum then
      ({ s with nowBlocked := s.nowBlocked.dropLast }, [id])
    else (s, [])
  | none => (s, [])

/-- The condition of the branch under `GetBlockeraseFlag`. -/
def Erases (cfg : BlockConfig) (s : MapInfo C) : Prop :=
  cfg.blockflag ∧ cfg.blockeraseflag ∧ 1 < s.updateNum ∧ s.nowBlocked ≠ []

instance (cfg : BlockConfig) (s : MapInfo C) : Decidable (s.Erases cfg) :=
  inferInstanceAs (Decidable (_ ∧ _))

/-- That branch: all that was ever erased is to be opened, and nothing else. -/
def pickErased (cfg : BlockConfig) (s : MapInfo C) (picked : List String) :
    MapInfo C × List String :=
  if s.Erases cfg then
    let s := eraseBlockedNodes cfg s
    ({ s with nowBlocked := s.nowBlocked.filter fun id => id ∉ s.eraseNodes }, s.eraseNodes)
  else (s, picked)

/-- The crossings an update opens, and the state with its lists changed. -/
def pick (cfg : BlockConfig) (s : MapInfo C) : MapInfo C × List String :=
  let picked := pickLast cfg s
  pickErased cfg picked.1 picked.2

/-- The loop that sets the flag of all crossings of a list. An id with a coordinate is one of
`nodes`, so that its `break` is never taken. -/
def flagAll (flag : Bool) (m : RoadMap C) (ids : List String) : Option (RoadMap C) :=
  ids.foldlM (fun m id => do
    let pos ← m.idToCoordinate.find id
    return m.setBlocked pos flag) m

/-- `JSON_Data::update_mapinfo`. The crossings to block are those before anything is erased. -/
def updateMapinfo (cfg : BlockConfig) (s : MapInfo C) : Option (MapInfo C) := do
  let s ← beginUpdate cfg s
  let newblocked := s.blockedNodes
  let erase := pick cfg s
  let map ← flagAll true s.map newblocked
  let map ← flagAll false map erase.2
  return { erase.1 with map := map, nowBlocked := erase.1.nowBlocked ++ newblocked }

/-! ## Events -/

/-- What `SetBlockedNodes` reads in an update. -/
def newlySet (cfg : BlockConfig) (s : MapInfo C) : List String :=
  if cfg.blockflag then
    (cfg.setFile (time cfg { s with updateNum := s.updateNum + 1 })).getD []
  else []

/-- What `EraseBlockedNodes` reads in an update, if it is called. -/
def newlyErased (cfg : BlockConfig) (s : MapInfo C) : List String :=
  if (pickLast cfg s).1.Erases cfg then (cfg.eraseFile (s.time cfg)).getD [] else []

/-- The events of an update in their order: `true` for a crossing that is set, `false` for one
that is erased. -/
def events (cfg : BlockConfig) (s : MapInfo C) : List (String × Bool) :=
  (newlySet cfg s).map (fun id => (id, true)) ++
    (newlyErased cfg ((beginUpdate cfg s).getD s)).map fun id => (id, false)

end MapInfo

/-! ## Flags -/

/-- The flag of a crossing. -/
def RoadMap.blocked (m : RoadMap C) (id : String) : Option Bool := do
  let pos ← m.idToCoordinate.find id
  (m.nodes.find pos).map WayNode.isBlocked

theorem RoadMap.blocked_setBlocked (m : RoadMap C) {id : String} {pos : C} (flag : Bool)
    (hpos : m.idToCoordinate.find id = some pos) (id' : String) :
    (m.setBlocked pos flag).blocked id' = if id' = id then some flag else m.blocked id' := by
  have hmap : (m.setBlocked pos flag).idToCoordinate = m.idToCoordinate := rfl
  have hnodes : (m.setBlocked pos flag).nodes = withFlag m.nodes pos flag := rfl
  unfold RoadMap.blocked
  rw [hmap, hnodes]
  split_ifs with he
  · subst he
    obtain ⟨node, hnode, -⟩ := Option.map_eq_some_iff.mp (m.numbered id' pos hpos)
    simp [hpos, find_withFlag, hnode]
  · cases hpos' : m.idToCoordinate.find id' with
    | none => rfl
    | some pos' =>
      -- the two ids would be those of one crossing
      have hne : pos' ≠ pos := by
        rintro rfl
        have hid := (m.numbered id pos' hpos).symm.trans (m.numbered id' pos' hpos')
        exact he (Option.some.inj hid).symm
      simp [find_withFlag, hne, Function.comp_def]

theorem flagAll_spec {flag : Bool} {m m' : RoadMap C} {ids : List String}
    (h : MapInfo.flagAll flag m ids = some m') : m'.idToCoordinate = m.idToCoordinate ∧
      (∀ id ∈ ids, m.blocked id ≠ none) ∧
        ∀ id, m'.blocked id = if id ∈ ids then some flag else m.blocked id := by
  unfold MapInfo.flagAll at h
  induction ids generalizing m with
  | nil =>
    cases h
    exact ⟨rfl, by simp, by simp⟩
  | cons id ids ih =>
    simp only [List.foldlM_cons, Option.bind_eq_bind, Option.bind_eq_some_iff] at h
    obtain ⟨m₁, ⟨pos, hpos, hm₁⟩, h⟩ := h
    cases hm₁
    obtain ⟨hcoord, hknown, hflag⟩ := ih h
    have hset := m.blocked_setBlocked flag hpos
    refine ⟨hcoord, fun id' hid' => ?_, fun id' => ?_⟩
    · rcases List.mem_cons.mp hid' with rfl | hid'
      · obtain ⟨node, hnode, -⟩ := Option.map_eq_some_iff.mp (m.numbered id' pos hpos)
        simp [RoadMap.blocked, hpos, hnode]
      · have hin := hknown id' hid'
        rw [hset] at hin
        by_cases he : id' = id
        · obtain ⟨node, hnode, -⟩ := Option.map_eq_some_iff.mp (m.numbered id pos hpos)
          simp [he, RoadMap.blocked, hpos, hnode]
        · rwa [if_neg he] at hin
    · rw [hflag, hset]
      by_cases he : id' = id <;> simp [he]

/-! ## What an update does -/

namespace MapInfo

variable {cfg : BlockConfig} {s s' : MapInfo C}

theorem beginUpdate_spec (h : beginUpdate cfg s = some s') : s'.map = s.map ∧
    (∀ id ∈ newlySet cfg s, id ∈ s'.blockedNodes) ∧
      ∀ id ∈ s'.blockedNodes, id ∈ s.blockedNodes ∨ id ∈ newlySet cfg s := by
  unfold beginUpdate at h
  unfold newlySet
  dsimp only at h
  split_ifs at h ⊢ with hblock
  · unfold setBlockedNodes at h
    split at h
    · rename_i hfile
      cases h
      simp [hfile]
    · rename_i lines hfile
      simp only [Option.bind_eq_bind, Option.bind_eq_some_iff] at h
      obtain ⟨-, -, hout⟩ := h
      cases hout
      rw [hfile, Option.getD_some]
      exact ⟨rfl, fun id hid => List.mem_append_right _ hid, fun id => List.mem_append.mp⟩
  · cases h
    simp

theorem eraseBlockedNodes_spec (cfg : BlockConfig) (s : MapInfo C) :
    (eraseBlockedNodes cfg s).map = s.map ∧
      (∀ id ∈ (cfg.eraseFile (s.time cfg)).getD [], id ∈ (eraseBlockedNodes cfg s).eraseNodes) ∧
        ∀ id ∈ (eraseBlockedNodes cfg s).blockedNodes,
          id ∈ s.blockedNodes ∧ id ∉ (cfg.eraseFile (s.time cfg)).getD [] := by
  unfold eraseBlockedNodes
  split
  · rename_i hfile
    simp [hfile]
  · rename_i lines hfile
    rw [hfile, Option.getD_some]
    refine ⟨rfl, fun id hid => List.mem_append_right _ hid, fun id hid => ?_⟩
    obtain ⟨hin, hout⟩ := List.mem_filter.mp hid
    exact ⟨hin, by simpa using hout⟩

theorem pickLast_spec (cfg : BlockConfig) (s : MapInfo C) :
    (pickLast cfg s).1 = { s with nowBlocked := (pickLast cfg s).1.nowBlocked } := by
  unfold pickLast
  split
  · split_ifs <;> rfl
  · rfl

/-- What is opened includes what is newly erased, and that is not put down to be blocked. -/
theorem pick_spec (cfg : BlockConfig) (s : MapInfo C) : (pick cfg s).1.map = s.map ∧
    (∀ id ∈ newlyErased cfg s, id ∈ (pick cfg s).2) ∧
      ∀ id ∈ (pick cfg s).1.blockedNodes, id ∈ s.blockedNodes ∧ id ∉ newlyErased cfg s := by
  have hlast := pickLast_spec cfg s
  have htime : (pickLast cfg s).1.time cfg = s.time cfg := by
    rw [hlast]
    rfl
  have hmap : (pickLast cfg s).1.map = s.map := by rw [hlast]
  have hblocked : (pickLast cfg s).1.blockedNodes = s.blockedNodes := by rw [hlast]
  obtain ⟨hmap', herased, hkept⟩ := eraseBlockedNodes_spec cfg (pickLast cfg s).1
  rw [htime] at herased hkept
  unfold pick newlyErased pickErased
  dsimp only
  split_ifs with herases
  · refine ⟨hmap'.trans hmap, herased, fun id hid => ?_⟩
    rw [← hblocked]
    exact hkept id hid
  · refine ⟨hmap, by simp, fun id hid => ⟨?_, by simp⟩⟩
    rw [← hblocked]
    exact hid

end MapInfo

/-! ## Runs -/

/-- The static members and the events so far. -/
structure Blockage (C : Type) [LinearOrder C] [Zero C] where
  info : MapInfo C
  history : List (String × Bool)

namespace Blockage

structure Started (s : Blockage C) : Prop where
  updateNum : s.info.updateNum = 0
  blockedNodes : s.info.blockedNodes = []
  eraseNodes : s.info.eraseNodes = []
  nowBlocked : s.info.nowBlocked = []
  history : s.history = []
  isBlocked : ∀ pos node, s.info.map.nodes.find pos = some node → node.isBlocked = false

/-- A crossing is marked blocked exactly when the latest event naming it is a set. -/
def Exact (s : Blockage C) : Prop :=
  ∀ id flag, s.info.map.blocked id = some flag → (flag = true ↔ latest s.history id = some true)

/-- The history after an update. -/
def extended (cfg : BlockConfig) (s : Blockage C) : List (String × Bool) :=
  s.history ++ s.info.events cfg

/-- One update. -/
def update (cfg : BlockConfig) (s : Blockage C) (_ : Unit) : Option (Blockage C) :=
  (s.info.updateMapinfo cfg).map fun info => ⟨info, s.extended cfg⟩

/-- The update opens no crossing whose latest event is a set. -/
def Clear (cfg : BlockConfig) (s : Blockage C) : Prop :=
  ∀ begun ∈ s.info.beginUpdate cfg, ∀ id ∈ (begun.pick cfg).2,
    latest (s.extended cfg) id ≠ some true

instance (cfg : BlockConfig) (s : Blockage C) : Decidable (s.Clear cfg) :=
  inferInstanceAs (Decidable (∀ begun ∈ s.info.beginUpdate cfg, _))

end Blockage

/-- The updates of the map. -/
def mapUpdates (C : Type) [LinearOrder C] [Zero C] (cfg : BlockConfig) :
    System (Blockage C) Unit where
  init := Blockage.Started
  step s e s' := s.update cfg e = some s'

namespace Blockage

variable {cfg : BlockConfig} {s s' : Blockage C}

/-- The crossings put down to be blocked are those last set. -/
def Pending (s : Blockage C) : Prop :=
  ∀ id ∈ s.info.blockedNodes, latest s.history id = some true

theorem latest_extended (cfg : BlockConfig) (s : Blockage C) (id : String)
    {begun : MapInfo C} (hbegun : s.info.beginUpdate cfg = some begun) :
    latest (s.extended cfg) id =
      if id ∈ begun.newlyErased cfg then some false
      else if id ∈ s.info.newlySet cfg then some true else latest s.history id := by
  unfold extended MapInfo.events
  rw [latest_append, latest_append, latest_map, latest_map, hbegun, Option.getD_some]
  split_ifs <;> rfl

/-- An update that opens no crossing wrongly, and only such a one, keeps the flags right. -/
theorem step_exact (hexact : s.Exact) (hpending : s.Pending)
    (h : (mapUpdates C cfg).step s () s') : s'.Pending ∧ (s'.Exact ↔ s.Clear cfg) := by
  obtain ⟨info, hupdate, rfl⟩ := Option.map_eq_some_iff.mp h
  simp only [MapInfo.updateMapinfo, Option.bind_eq_bind, Option.bind_eq_some_iff] at hupdate
  obtain ⟨begun, hbegun, m₁, hm₁, m₂, hm₂, hout⟩ := hupdate
  obtain ⟨hmap, hset, hfrom⟩ := MapInfo.beginUpdate_spec hbegun
  obtain ⟨-, herased, hkept⟩ := MapInfo.pick_spec cfg begun
  obtain ⟨-, hknown₁, hflag₁⟩ := flagAll_spec hm₁
  obtain ⟨-, hknown₂, hflag₂⟩ := flagAll_spec hm₂
  have hlatest (id : String) := latest_extended cfg s id hbegun
  have hmap' : info.map = m₂ := by rw [← Option.some.inj hout]
  have hnodes : info.blockedNodes = (begun.pick cfg).1.blockedNodes := by
    rw [← Option.some.inj hout]
  -- the crossings that are blocked in the first loop were last set, but for those now erased
  have hblock {id : String} (hid : id ∈ begun.blockedNodes)
      (hout : id ∉ begun.newlyErased cfg) : latest (s.extended cfg) id = some true := by
    rw [hlatest, if_neg hout]
    split_ifs with hnew
    · rfl
    · exact hpending id ((hfrom id hid).resolve_right hnew)
  refine ⟨fun id hid => ?_, fun hexact' begun' hbegun' id hid htrue => ?_, fun hclear id flag hid => ?_⟩
  · have hid : id ∈ info.blockedNodes := hid
    rw [hnodes] at hid
    exact hblock (hkept id hid).1 (hkept id hid).2
  · have hbegun' : s.info.beginUpdate cfg = some begun' := hbegun'
    rw [hbegun] at hbegun'
    cases hbegun'
    have hopen : info.map.blocked id = some false := by
      rw [hmap', hflag₂, if_pos hid]
    have hfalse := (hexact' id false hopen).mpr htrue
    cases hfalse
  · have hclear := hclear begun hbegun
    have hid : info.map.blocked id = some flag := hid
    rw [hmap', hflag₂, hflag₁, hmap] at hid
    split_ifs at hid with hopen hblocked
    · cases hid
      simpa using hclear id hopen
    · cases hid
      simpa using hblock hblocked fun hin => hopen (herased id hin)
    · rw [hlatest, if_neg fun hin => hopen (herased id hin), if_neg fun hin => hblocked (hset id hin)]
      exact hexact id flag hid

theorem Started.exact (h : s.Started) : s.Exact := by
  intro id flag hid
  simp only [RoadMap.blocked, Option.bind_eq_bind, Option.bind_eq_some_iff] at hid
  obtain ⟨pos, -, hid⟩ := hid
  obtain ⟨node, hnode, rfl⟩ := Option.map_eq_some_iff.mp hid
  rw [h.isBlocked pos node hnode, h.history]
  simp

theorem Started.pending (h : s.Started) : s.Pending := by
  unfold Pending
  rw [h.blockedNodes]
  simp

end Blockage

def sampleTimes (files : List (UInt32 × List String)) (time : UInt32) : Option (List String) :=
  (files.find? fun file => file.1 = time).map Prod.snd

/-- `node/3` is set after 50 s, erased after 100 s and set again after 150 s. -/
def sampleBlocks : BlockConfig :=
  ⟨true, true, false, 50, sampleTimes [(50, [nodeID 3]), (150, [nodeID 3])],
    sampleTimes [(100, [nodeID 3])]⟩

def sampleBlockage : Blockage ℕ := ⟨⟨sampleTown, 0, [], [], []⟩, []⟩

theorem sampleBlockage_started : sampleBlockage.Started :=
  ⟨rfl, rfl, rfl, rfl, rfl, sampleTown_open⟩

end Ns3.Ferry2
