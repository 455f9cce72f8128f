import Ns3.Lib.SharedEdits
import Ns3.Network.PacketTagList

/-!
# Packet tag lists are independent

Each loop of the list is described by what it does to the cells that the lists
hold (`Wf`): the search stops at the first cell that is shared or has the type;
the copying loop gives one list cells of its own, and keeps all values. So the
writers change one list only.
-/

namespace Ns3.Network

open Ns3.Lib Store

namespace PacketTagList

variable {ι V : Type} [DecidableEq ι] {C : TagCodec ι V} {tags tags' : Tags ι}
variable {contents : ℕ → List (ℕ × TagBytes ι)} {i p cur : ℕ} {tid : ι} {o : Option ℕ} {l : Loc}
variable {xs ys : List (ℕ × TagBytes ι)} {x : ℕ × TagBytes ι} {v : TagBytes ι} {fuel : ℕ}

/-! ## The searches -/

/-- The cell with the tag, if the list has one. -/
def tagOf (tid : ι) (xs : List (ℕ × TagBytes ι)) : Option (ℕ × TagBytes ι) :=
  xs.find? fun x => x.2.tid = tid

theorem tagOf_cons_pos (h : x.2.tid = tid) : tagOf tid (x :: xs) = some x :=
  List.find?_cons_of_pos (decide_eq_true h)

theorem tagOf_cons_neg (h : x.2.tid ≠ tid) : tagOf tid (x :: xs) = tagOf tid xs :=
  List.find?_cons_of_neg (by simpa using h)

/-- The cell with the tag, with the cells before it. -/
theorem tagOf_eq_some (h : tagOf tid xs = some x) :
    ∃ ys zs, xs = ys ++ x :: zs ∧ (∀ y ∈ ys, y.2.tid ≠ tid) ∧ x.2.tid = tid := by
  obtain ⟨htid, ys, zs, rfl, hnot⟩ := List.find?_eq_some_iff_append.mp h
  exact ⟨ys, zs, rfl, fun y hy => by simpa using hnot y hy, of_decide_eq_true htid⟩

theorem find_spec (h : Seg tags o xs none) (hfuel : xs.length < fuel) :
    find tags tid fuel o = some ((tagOf tid xs).map Prod.fst) := by
  induction xs generalizing o fuel with
  | nil =>
    obtain rfl := h.nil_inv
    cases fuel with
    | zero => cases hfuel
    | succ fuel => rfl
  | cons x xs ih =>
    obtain ⟨rfl, c, hc, hv, hrest⟩ := h.cons_inv
    cases fuel with
    | zero => cases hfuel
    | succ fuel =>
      unfold find
      rw [hc]
      dsimp only
      rw [hv]
      by_cases htid : x.2.tid = tid
      · rw [if_pos htid, tagOf_cons_pos htid]
        rfl
      · rw [if_neg htid, tagOf_cons_neg htid]
        exact ih hrest (Nat.lt_of_succ_lt_succ hfuel)

/-- Where the search ends. -/
inductive Stops (tags : Tags ι) (contents : ℕ → List (ℕ × TagBytes ι)) (i : ℕ) (tid : ι) :
    Found → Prop
  | nothing (h : ∀ x ∈ contents i, x.2.tid ≠ tid) : Stops tags contents i tid .nothing
  | tag {xs ys : List (ℕ × TagBytes ι)} {x : ℕ × TagBytes ι}
      (h : Cursor tags contents i xs (x :: ys)) (hnot : ∀ y ∈ xs, y.2.tid ≠ tid)
      (hone : tags.count x.1 ≤ 1) (htid : x.2.tid = tid) :
      Stops tags contents i tid (.tag (locOf i xs) x.1)
  | merge {xs ys : List (ℕ × TagBytes ι)} {x : ℕ × TagBytes ι}
      (h : Cursor tags contents i xs (x :: ys)) (hnot : ∀ y ∈ xs, y.2.tid ≠ tid)
      (hmany : 1 < tags.count x.1) : Stops tags contents i tid (.merge (locOf i xs) x.1)

theorem search_spec (h : tags.Wf none contents) (hi : i < tags.lists)
    (hcur : Cursor tags contents i xs ys) (hnot : ∀ x ∈ xs, x.2.tid ≠ tid)
    (hfuel : ys.length < fuel) :
    ∃ r, search tags tid fuel (locOf i xs) = some r ∧ Stops tags contents i tid r := by
  induction ys generalizing xs fuel with
  | nil =>
    obtain ⟨o, hwalk, hnil⟩ := hcur.split h hi
    obtain rfl := hnil.nil_inv
    cases fuel with
    | zero => cases hfuel
    | succ fuel =>
      refine ⟨.nothing, ?_, .nothing ?_⟩
      · unfold search
        rw [hwalk.read_locOf]
      · rw [hcur.contents, List.append_nil]
        exact hnot
  | cons y ys ih =>
    obtain ⟨o, hwalk, hrest⟩ := hcur.split h hi
    obtain ⟨rfl, c, hc, hv, -⟩ := hrest.cons_inv
    have hcount : tags.count y.1 = c.count := count_of_cell hc
    cases fuel with
    | zero => cases hfuel
    | succ fuel =>
      unfold search
      rw [hwalk.read_locOf]
      dsimp only
      rw [hc]
      dsimp only
      rw [hv, ← hcount]
      by_cases hmany : 1 < tags.count y.1
      · exact ⟨_, if_pos hmany, .merge hcur hnot hmany⟩
      · rw [if_neg hmany]
        by_cases htid : y.2.tid = tid
        · exact ⟨_, if_pos htid, .tag hcur hnot (Nat.le_of_not_lt hmany) htid⟩
        · rw [if_neg htid]
          have hnext := hcur.next (Nat.le_of_not_lt hmany)
          have hnot' : ∀ x ∈ xs ++ [y], x.2.tid ≠ tid := by
            intro x hx
            rcases List.mem_append.mp hx with hx | hx
            · exact hnot x hx
            · rw [List.mem_singleton] at hx
              rwa [hx]
          have := ih hnext hnot' (Nat.lt_of_succ_lt_succ hfuel)
          rwa [locOf_concat] at this

/-! ## The copying loop -/

/-- The list `i` gets cells of its own up to the tag, with the same values; the other lists stay. -/
theorem copyUntil_spec {mid : List (ℕ × TagBytes ι)} (h : tags.Wf none contents)
    (hi : i < tags.lists) (hcur : Cursor tags contents i xs (mid ++ x :: ys))
    (hnot : ∀ y ∈ mid, y.2.tid ≠ tid) (htid : x.2.tid = tid) {y : ℕ × TagBytes ι}
    (hy : (mid ++ x :: ys).head? = some y) (hmany : 1 < tags.count y.1) (hfuel : mid.length < fuel) :
    ∃ tags' contents' xs', copyUntil tid fuel tags (locOf i xs) y.1 = some (tags', locOf i xs', x.1) ∧
      tags'.Wf none contents' ∧ tags'.lists = tags.lists ∧
      Cursor tags' contents' i xs' (x :: ys) ∧ 1 < tags'.count x.1 ∧
      xs'.map Prod.snd = (xs ++ mid).map Prod.snd ∧ ∀ j, j ≠ i → contents' j = contents j := by
  induction mid generalizing tags contents xs y fuel with
  | nil =>
    cases hy
    obtain ⟨c, hc, hv, -, -⟩ := hcur.cell h hi
    cases fuel with
    | zero => cases hfuel
    | succ fuel =>
      refine ⟨tags, contents, xs, ?_, h, rfl, hcur, hmany, by rw [List.append_nil], fun _ _ => rfl⟩
      unfold copyUntil
      rw [hc]
      dsimp only
      rw [hv, if_pos htid]
  | cons z mid ih =>
    cases hy
    obtain ⟨c, hc, hv, -, hrest⟩ := hcur.cell h hi
    obtain ⟨next, hnext⟩ : ∃ next, (mid ++ x :: ys).head? = some next := by
      cases mid with
      | nil => exact ⟨x, rfl⟩
      | cons w mid => exact ⟨w, rfl⟩
    have hlink := hrest.head_eq hnext
    cases fuel with
    | zero => cases hfuel
    | succ fuel =>
      obtain ⟨hwf, hcur', hmany', hlists⟩ := h.replaceShared hi hcur hmany hc c.value rfl
      obtain ⟨tags', contents', xs', hloop, hwf', hlists', hcursor, hcount, hvalues, hframe⟩ :=
        ih hwf (by rw [hlists]; exact hi) hcur'
          (fun w hw => hnot w (List.mem_cons_of_mem _ hw)) hnext (hmany' next hnext)
          (Nat.lt_of_succ_lt_succ hfuel)
      refine ⟨tags', contents', xs', ?_, hwf', hlists'.trans hlists, hcursor, hcount, ?_, ?_⟩
      · rw [locOf_concat, hlink] at hloop
        unfold copyUntil
        rw [hc]
        dsimp only
        rw [if_neg (by rw [hv]; exact hnot z List.mem_cons_self), hlink]
        exact hloop
      · rw [hvalues, List.map_append, List.map_append, List.map_append, List.append_assoc, hv]
        rfl
      · intro j hj
        rw [hframe j hj, Function.update_of_ne hj]

/-! ## The writers -/

/-- What a list holds after an operation on the list `i`: the values `vs` there, and the other lists
as they were. -/
structure Changes (tags : Tags ι) (contents : ℕ → List (ℕ × TagBytes ι)) (i : ℕ)
    (vs : List (TagBytes ι)) (tags' : Tags ι) (contents' : ℕ → List (ℕ × TagBytes ι)) : Prop where
  wf : tags'.Wf none contents'
  lists : tags'.lists = tags.lists
  values : (contents' i).map Prod.snd = vs
  frame : ∀ j, j ≠ i → contents' j = contents j

omit [DecidableEq ι] in
theorem Changes.of_wf {zs : List (ℕ × TagBytes ι)}
    (h : tags'.Wf none (Function.update contents i zs) ∧ tags'.lists = tags.lists) :
    Changes tags contents i (zs.map Prod.snd) tags' (Function.update contents i zs) where
  wf := h.1
  lists := h.2
  values := by rw [Function.update_self]
  frame j hj := Function.update_of_ne hj _ _

/-- A writer that is given a cell with the tag puts `zs` in its place, where the value of the cell
and `zs` are related by `R`; before the first merge this needs `Ok`. -/
def Writes {ρ : Type} (writer : COWWriter ι ρ) (tid : ι) (Ok : TagBytes ι → Prop) (r : TagBytes ι → ρ)
    (R : TagBytes ι → List (TagBytes ι) → Prop) : Prop :=
  ∀ (tags : Tags ι) (contents : ℕ → List (ℕ × TagBytes ι)) (i : ℕ) (xs ys : List (ℕ × TagBytes ι))
    (x : ℕ × TagBytes ι) (preMerge : Bool), tags.Wf none contents → i < tags.lists →
    Cursor tags contents i xs (x :: ys) → x.2.tid = tid →
    (preMerge = true → tags.count x.1 ≤ 1 ∧ Ok x.2) → (preMerge = false → 1 < tags.count x.1) →
    ∃ tags' contents' zs, writer tags preMerge x.1 (locOf i xs) = some (r x.2, tags') ∧ R x.2 zs ∧
      Changes tags contents i (xs.map Prod.snd ++ zs ++ ys.map Prod.snd) tags' contents'

omit [DecidableEq ι] in
theorem removeWriter_writes (C : TagCodec ι V) (tid : ι) :
    Writes (removeWriter C tid) tid (fun _ => True) (fun v => C.deserialize tid v.data)
      fun _ zs => zs = [] := by
  intro tags contents i xs ys x preMerge h hi hcur _ hpre hpost
  obtain ⟨c, hc, hv, -, -⟩ := hcur.cell h hi
  have hvalues : (xs ++ ys).map Prod.snd = xs.map Prod.snd ++ [] ++ ys.map Prod.snd := by
    rw [List.map_append, List.append_nil]
  unfold removeWriter
  rw [hc]
  dsimp only
  rw [hv]
  cases preMerge with
  | true =>
    have hchanges := Changes.of_wf (h.unlinkOwned hi hcur (hpre rfl).1 hc rfl)
    rw [hvalues] at hchanges
    exact ⟨_, _, [], rfl, rfl, hchanges⟩
  | false =>
    have hchanges := Changes.of_wf (h.unlinkShared hi hcur (hpost rfl) hc rfl)
    rw [hvalues] at hchanges
    exact ⟨_, _, [], rfl, rfl, hchanges⟩

omit [DecidableEq ι] in
/-- The bytes of the new value come first. -/
theorem replaceWriter_writes (C : TagCodec ι V) (tid : ι) (v : V) :
    Writes (replaceWriter C tid v) tid (fun old => (C.serialize tid v).length ≤ old.data.length)
      (fun _ => ()) fun _ zs => ∃ rest, zs = [⟨tid, C.serialize tid v ++ rest⟩] := by
  intro tags contents i xs ys x preMerge h hi hcur htid hpre hpost
  obtain ⟨c, hc, hv, -, -⟩ := hcur.cell h hi
  have hvalues : ∀ (p : ℕ) (w : TagBytes ι), (xs ++ (p, w) :: ys).map Prod.snd =
      xs.map Prod.snd ++ [w] ++ ys.map Prod.snd := by
    intro p w
    rw [List.map_append, List.append_assoc]
    rfl
  unfold replaceWriter
  rw [hc]
  dsimp only
  rw [hv]
  cases preMerge with
  | true =>
    obtain ⟨hone, hsize⟩ := hpre rfl
    let data := C.serialize tid v ++ x.2.data.drop (C.serialize tid v).length
    have hinto : serializeInto x.2.data (C.serialize tid v) = some data := if_pos hsize
    rw [hinto]
    have hset := Changes.of_wf (h.setValue hi hcur hone (fun w => { w with data := data }) rfl)
    rw [hvalues] at hset
    refine ⟨_, _, _, rfl, ⟨x.2.data.drop (C.serialize tid v).length, ?_⟩, hset⟩
    rw [htid]
  | false =>
    obtain ⟨hwf, -, -, hlists⟩ := h.replaceShared hi hcur (hpost rfl) hc
      ⟨tid, C.serialize tid v⟩ rfl
    have hnew := Changes.of_wf ⟨hwf, hlists⟩
    rw [hvalues] at hnew
    refine ⟨_, _, _, rfl, ⟨[], ?_⟩, hnew⟩
    rw [List.append_nil]

/-! ## The traversal -/

theorem cowTraverse_spec {ρ : Type} {writer : COWWriter ι ρ} {Ok : TagBytes ι → Prop}
    {r : TagBytes ι → ρ} {R : TagBytes ι → List (TagBytes ι) → Prop} (hwriter : Writes writer tid Ok r R)
    (h : tags.Wf none contents) (hi : i < tags.lists)
    (hok : ∀ prevNext cur c, search tags tid (tags.brk + 1) (.head i) = some (.tag prevNext cur) →
      tags.cells cur = some c → Ok c.value) :
    (cowTraverse tags i tid writer = some (none, tags) ∧ ∀ x ∈ contents i, x.2.tid ≠ tid) ∨
      ∃ us v ws zs tags' contents', (contents i).map Prod.snd = us ++ v :: ws ∧ v.tid = tid ∧
        (∀ u ∈ us, u.tid ≠ tid) ∧ cowTraverse tags i tid writer = some (some (r v), tags') ∧ R v zs ∧
        Changes tags contents i (us ++ zs ++ ws) tags' contents' := by
  have hlength : (contents i).length < tags.brk + 1 :=
    Nat.lt_succ_of_le ((h.chains i hi).length_le h.bounded)
  have hsplit : ∀ {xs ys : List (ℕ × TagBytes ι)} {x : ℕ × TagBytes ι},
      contents i = xs ++ x :: ys →
        (contents i).map Prod.snd = xs.map Prod.snd ++ x.2 :: ys.map Prod.snd := by
    intro xs ys x heq
    rw [heq, List.map_append]
    rfl
  have hbefore : ∀ {xs : List (ℕ × TagBytes ι)}, (∀ y ∈ xs, y.2.tid ≠ tid) →
      ∀ u ∈ xs.map Prod.snd, u.tid ≠ tid := by
    intro xs hnot u hu
    obtain ⟨y, hy, rfl⟩ := List.mem_map.mp hu
    exact hnot y hy
  obtain ⟨found, hsearch, hstops⟩ := search_spec h hi (.start tags contents i)
    (fun x hx => by cases hx) hlength
  change search tags tid _ (.head i) = _ at hsearch
  unfold cowTraverse
  dsimp only
  rw [hsearch]
  cases hstops with
  | nothing hnone => exact .inl ⟨rfl, hnone⟩
  | tag hcur hnot hone htid =>
    rename_i xs ys x
    obtain ⟨c, hc, hv, -, -⟩ := hcur.cell h hi
    have hvalue := hok _ _ c hsearch hc
    rw [hv] at hvalue
    obtain ⟨tags', contents', zs, hwrite, hR, hchanges⟩ :=
      hwriter _ _ _ _ _ _ true h hi hcur htid (fun _ => ⟨hone, hvalue⟩) fun hfalse => by cases hfalse
    refine .inr ⟨_, x.2, _, zs, tags', contents', hsplit hcur.contents, htid, hbefore hnot, ?_, hR,
      hchanges⟩
    dsimp only
    rw [hwrite]
    rfl
  | merge hcur hnot hmany =>
    rename_i xs ys x
    obtain ⟨o, hwalk, hrest⟩ := hcur.split h hi
    have hfuel : (x :: ys).length < tags.brk + 1 := by
      rw [hcur.contents, List.length_append] at hlength
      omega
    have hfind : find tags tid _ o = _ := find_spec hrest hfuel
    obtain ⟨rfl, -⟩ := hrest.cons_inv
    dsimp only
    rw [hfind]
    cases htag : tagOf tid (x :: ys) with
    | none =>
      refine .inl ⟨rfl, fun y hy => ?_⟩
      rw [hcur.contents] at hy
      rcases List.mem_append.mp hy with hy | hy
      · exact hnot y hy
      · simpa using List.find?_eq_none.mp htag y hy
    | some z =>
      obtain ⟨mid, zs, heq, hmid, hz⟩ := tagOf_eq_some htag
      have hcur' : Cursor tags contents i xs (mid ++ z :: zs) := by
        rw [← heq]
        exact hcur
      have hmidfuel : mid.length < tags.brk + 1 := by
        rw [heq, List.length_append, List.length_cons] at hfuel
        omega
      obtain ⟨tags₁, contents₁, xs', hloop, hwf₁, hlists₁, hcur₁, hmany₁, hvalues₁, hframe₁⟩ :=
        copyUntil_spec h hi hcur' hmid hz (by rw [← heq]; rfl) hmany hmidfuel
      obtain ⟨tags', contents', ws, hwrite, hR, hchanges⟩ := hwriter _ _ _ _ _ _ false hwf₁
        (by rw [hlists₁]; exact hi) hcur₁ hz (fun htrue => by cases htrue) fun _ => hmany₁
      have hcontents : contents i = (xs ++ mid) ++ z :: zs := by
        rw [hcur.contents, heq, List.append_assoc]
      refine .inr ⟨_, z.2, _, ws, tags', contents', hsplit hcontents, hz, hbefore fun y hy => ?_, ?_,
        hR, hchanges.wf, hchanges.lists.trans hlists₁, ?_, fun j hj => ?_⟩
      · rcases List.mem_append.mp hy with hy | hy
        · exact hnot y hy
        · exact hmid y hy
      · rw [Option.map_some]
        dsimp only
        rw [hloop]
        dsimp only
        rw [hwrite]
        rfl
      · rw [hchanges.values, hvalues₁]
      · rw [hchanges.frame j hj, hframe₁ j hj]

/-! ## Releasing a list -/

omit [DecidableEq ι] in
theorem release_spec (h : tags.Wf o contents) (hseg : Seg tags o xs none) (hfuel : xs.length < fuel) :
    ∃ tags', release fuel tags o = some tags' ∧ tags'.Wf none contents ∧
      tags'.lists = tags.lists ∧ tags'.heads = tags.heads := by
  induction xs generalizing tags o fuel with
  | nil =>
    obtain rfl := hseg.nil_inv
    cases fuel with
    | zero => cases hfuel
    | succ fuel => exact ⟨tags, rfl, h, rfl, rfl⟩
  | cons x xs ih =>
    have hnodup := hseg.nodup
    obtain ⟨rfl, c, hc, -, hrest⟩ := hseg.cons_inv
    have hcount : tags.count x.1 = c.count := count_of_cell hc
    cases fuel with
    | zero => cases hfuel
    | succ fuel =>
      unfold release
      rw [hc]
      dsimp only
      by_cases hmany : 0 < c.count - 1
      · exact ⟨_, if_pos hmany, h.dropShared (by omega), rfl, rfl⟩
      · rw [if_neg hmany]
        exact ih (h.dropOwned (by omega) hc) (hrest.free (List.nodup_cons.mp hnodup).1)
          (Nat.lt_of_succ_lt_succ hfuel)

omit [DecidableEq ι] in
/-- The loop does not look at the heads. -/
theorem release_write_head (tags : Tags ι) (v : Option ℕ) (i : ℕ) :
    release fuel (tags.write v (.head i)) o = (release fuel tags o).map fun t => t.write v (.head i) := by
  induction fuel generalizing tags o with
  | zero => rfl
  | succ fuel ih =>
    cases o with
    | none => rfl
    | some cur =>
      unfold release
      have hcells : (tags.write v (.head i)).cells cur = tags.cells cur := rfl
      rw [hcells]
      cases tags.cells cur with
      | none => rfl
      | some c =>
        dsimp only
        split
        · rfl
        · exact ih (tags.free cur)

omit [DecidableEq ι] in
theorem removeAll_spec (h : tags.Wf none contents) (hi : i < tags.lists) :
    ∃ tags' contents', removeAll tags i = some tags' ∧ Changes tags contents i [] tags' contents' ∧
      tags'.heads = Function.update tags.heads i none := by
  have hchain := h.chains i hi
  have hfuel : (contents i).length < tags.brk + 1 := Nat.lt_succ_of_le (hchain.length_le h.bounded)
  have hkept : Seg (tags.write none (.head i)) (tags.heads i) (contents i) none :=
    hchain.write none fun p hp => by cases hp
  obtain ⟨tags', hrelease, hwf, hlists, hheads⟩ := release_spec (h.takeHead hi) hkept hfuel
  have hchanges : Changes tags contents i [] tags' (Function.update contents i []) :=
    ⟨hwf, hlists, by rw [Function.update_self]; rfl, fun j hj => Function.update_of_ne hj _ _⟩
  refine ⟨tags', _, ?_, hchanges, hheads⟩
  rw [release_write_head] at hrelease
  exact hrelease

omit [DecidableEq ι] in
/-- The cell at the head of a list is there. -/
theorem head_pos (h : tags.Wf none contents) {p : ℕ} (hp : tags.heads i = some p) :
    0 < tags.count p := by
  rw [← h.refs_eq_count]
  exact Store.refs_pos (l := .head i) h.bounded hp

omit [DecidableEq ι] in
theorem assign_spec {j : ℕ} (h : tags.Wf none contents) (hi : i < tags.lists) (hj : j < tags.lists) :
    ∃ tags' contents', assign tags i j = some tags' ∧
      Changes tags contents i ((contents j).map Prod.snd) tags' contents' := by
  unfold assign
  by_cases hsame : tags.heads i = tags.heads j
  · have hchain := h.chains i hi
    rw [hsame] at hchain
    have heq := hchain.unique (h.chains j hj)
    exact ⟨tags, contents, if_pos hsame, h, rfl, by rw [heq], fun _ _ => rfl⟩
  · have hij : j ≠ i := by
      rintro rfl
      exact hsame rfl
    obtain ⟨tags₁, contents₁, hremove, hchanges, hheads⟩ := removeAll_spec h hi
    have hlists := hchanges.lists
    have hhead : tags₁.heads j = tags.heads j := by
      rw [hheads]
      exact Function.update_of_ne hij _ _
    have hempty : tags₁.heads i = none := by
      rw [hheads]
      exact Function.update_self _ _ _
    have hseg := hchanges.wf.chains j (by rw [hlists]; exact hj)
    rw [hhead, hchanges.frame j hij] at hseg
    have hshare := hchanges.wf.share (by rw [hlists]; exact hi) hempty hseg fun p hp =>
      head_pos hchanges.wf (by rw [hhead]; exact hp)
    rw [if_neg hsame, hremove]
    refine ⟨_, _, by rw [Option.map_some, hhead], hshare, ?_, ?_, fun k hk => ?_⟩
    · rw [lists_acquire, lists_write]
      exact hlists
    · rw [Function.update_self]
    · rw [Function.update_of_ne hk]
      exact hchanges.frame k hk

omit [DecidableEq ι] in
theorem add_spec (C : TagCodec ι V) (tid : ι) (h : tags.Wf none contents) (hi : i < tags.lists) (v : V) :
    ∃ contents', Changes tags contents i (⟨tid, C.serialize tid v⟩ :: (contents i).map Prod.snd)
      (add C tags i tid v) contents' :=
  ⟨_, .of_wf (h.push hi ⟨tid, C.serialize tid v⟩ rfl)⟩

/-! ## The map that a list stands for -/

def mapOf (C : TagCodec ι V) (vs : List (TagBytes ι)) (tid : ι) : Option V :=
  (vs.find? fun v => v.tid = tid).map fun v => C.deserialize tid v.data

variable {us ws : List (TagBytes ι)} {u : TagBytes ι}

theorem mapOf_of_not_mem (h : ∀ u ∈ us, u.tid ≠ tid) : mapOf C us tid = none := by
  unfold mapOf
  rw [List.find?_eq_none.mpr fun u hu => by simpa using h u hu]
  rfl

theorem mapOf_append (us ws : List (TagBytes ι)) (tid : ι) :
    mapOf C (us ++ ws) tid = (mapOf C us tid).or (mapOf C ws tid) := by
  unfold mapOf
  rw [List.find?_append]
  cases us.find? fun v => v.tid = tid <;> rfl

theorem mapOf_cons (u : TagBytes ι) (ws : List (TagBytes ι)) :
    mapOf C (u :: ws) = Function.update (mapOf C ws) u.tid (some (C.deserialize u.tid u.data)) := by
  funext tid
  unfold mapOf
  by_cases htid : u.tid = tid
  · subst htid
    have hfind : (u :: ws).find? (fun v => decide (v.tid = u.tid)) = some u :=
      List.find?_cons_of_pos (decide_eq_true rfl)
    rw [hfind, Function.update_self]
    rfl
  · rw [List.find?_cons_of_neg (by simpa using htid), Function.update_of_ne (Ne.symm htid)]

/-- No type is in the list twice. -/
def Distinct (us : List (TagBytes ι)) : Prop := (us.map TagBytes.tid).Nodup

omit [DecidableEq ι] in
theorem Distinct.split (h : Distinct (us ++ u :: ws)) :
    (∀ w ∈ us, w.tid ≠ u.tid) ∧ (∀ w ∈ ws, w.tid ≠ u.tid) ∧ Distinct (us ++ ws) := by
  unfold Distinct at *
  have hperm : ((us ++ u :: ws).map TagBytes.tid).Perm (u.tid :: (us ++ ws).map TagBytes.tid) :=
    (List.perm_middle).map TagBytes.tid
  obtain ⟨hnot, hrest⟩ := List.nodup_cons.mp (hperm.nodup_iff.mp h)
  refine ⟨fun w hw heq => hnot ?_, fun w hw heq => hnot ?_, hrest⟩
  · rw [← heq]
    exact List.mem_map_of_mem (List.mem_append_left _ hw)
  · rw [← heq]
    exact List.mem_map_of_mem (List.mem_append_right _ hw)

theorem mapOf_remove (h : Distinct (us ++ u :: ws)) :
    mapOf C (us ++ ws) = Function.update (mapOf C (us ++ u :: ws)) u.tid none := by
  obtain ⟨hus, hws, -⟩ := h.split
  funext tid
  rw [mapOf_append]
  by_cases htid : tid = u.tid
  · subst htid
    rw [Function.update_self, mapOf_of_not_mem hus, mapOf_of_not_mem hws]
    rfl
  · rw [Function.update_of_ne htid, mapOf_append, mapOf_cons, Function.update_of_ne htid]

theorem mapOf_replace (h : Distinct (us ++ u :: ws)) {w : TagBytes ι} (hw : w.tid = u.tid) :
    mapOf C (us ++ w :: ws) =
      Function.update (mapOf C (us ++ u :: ws)) u.tid (some (C.deserialize u.tid w.data)) := by
  obtain ⟨hus, -, -⟩ := h.split
  funext tid
  rw [mapOf_append, mapOf_cons, hw]
  by_cases htid : tid = u.tid
  · subst htid
    rw [Function.update_self, Function.update_self, mapOf_of_not_mem hus]
    rfl
  · rw [Function.update_of_ne htid, Function.update_of_ne htid, mapOf_append, mapOf_cons,
      Function.update_of_ne htid]

theorem mapOf_found (h : ∀ w ∈ us, w.tid ≠ tid) (hu : u.tid = tid) :
    mapOf C (us ++ u :: ws) tid = some (C.deserialize tid u.data) := by
  subst hu
  rw [mapOf_append, mapOf_cons, Function.update_self, mapOf_of_not_mem h]
  rfl

theorem peek_spec (h : tags.Wf none contents) (hi : i < tags.lists) :
    peek C tags i tid = some (mapOf C ((contents i).map Prod.snd) tid) := by
  have hchain := h.chains i hi
  have hfuel : (contents i).length < tags.brk + 1 := Nat.lt_succ_of_le (hchain.length_le h.bounded)
  have hfind : find tags tid (tags.brk + 1) (tags.heads i) = _ := find_spec hchain hfuel
  unfold peek
  rw [hfind]
  cases htag : tagOf tid (contents i) with
  | none =>
    rw [mapOf_of_not_mem fun u hu => ?_]
    · rfl
    · obtain ⟨x, hx, rfl⟩ := List.mem_map.mp hu
      simpa using List.find?_eq_none.mp htag x hx
  | some x =>
    obtain ⟨xs, ys, heq, hxs, hx⟩ := tagOf_eq_some htag
    rw [heq] at hchain ⊢
    obtain ⟨o, -, hrest⟩ := hchain.split
    obtain ⟨-, c, hc, hv, -⟩ := hrest.cons_inv
    rw [Option.map_some]
    dsimp only
    rw [hc]
    dsimp only
    rw [List.map_append, List.map_cons, mapOf_found ?_ hx, hv]
    intro w hw
    obtain ⟨y, hy, rfl⟩ := List.mem_map.mp hw
    exact hxs y hy

end PacketTagList

/-! ## Runs -/

namespace TagFamily

open PacketTagList

variable {ι V : Type} [DecidableEq ι] {C : TagCodec ι V} {w w' : TagFamily ι V}

/-- The lists hold the maps. -/
structure Inv (C : TagCodec ι V) (w : TagFamily ι V) (contents : ℕ → List (ℕ × TagBytes ι)) : Prop where
  wf : w.tags.Wf none contents
  distinct : ∀ i < w.tags.lists, Distinct ((contents i).map Prod.snd)
  maps : ∀ i < w.tags.lists, w.maps i = mapOf C ((contents i).map Prod.snd)

variable {contents : ℕ → List (ℕ × TagBytes ι)} {i : ℕ} {tid : ι}

/-- An operation on one list. -/
theorem Inv.changes (h : Inv C w contents) {vs : List (TagBytes ι)} {tags' : Tags ι}
    {contents' : ℕ → List (ℕ × TagBytes ι)} (hchanges : Changes w.tags contents i vs tags' contents')
    (hdistinct : Distinct vs) {m : ι → Option V} (hm : m = mapOf C vs) :
    Inv C ⟨tags', Function.update w.maps i m⟩ contents' where
  wf := hchanges.wf
  distinct j hj := by
    change j < tags'.lists at hj
    rw [hchanges.lists] at hj
    by_cases hij : j = i
    · rw [hij, hchanges.values]
      exact hdistinct
    · rw [hchanges.frame j hij]
      exact h.distinct j hj
  maps j hj := by
    change j < tags'.lists at hj
    rw [hchanges.lists] at hj
    by_cases hij : j = i
    · rw [hij, hchanges.values]
      exact (Function.update_self _ _ _).trans hm
    · rw [hchanges.frame j hij]
      exact (Function.update_of_ne hij _ _).trans (h.maps j hj)

/-- A new list. -/
theorem Inv.newList (h : Inv C w contents) {o : Option ℕ} {xs : List (ℕ × TagBytes ι)}
    (hseg : Store.Seg w.tags o xs none) (ho : ∀ p, o = some p → 0 < w.tags.count p)
    (hdistinct : Distinct (xs.map Prod.snd)) {m : ι → Option V} (hm : m = mapOf C (xs.map Prod.snd)) :
    Inv C ⟨(w.tags.acquire o).newList o, Function.update w.maps w.tags.lists m⟩
      (Function.update contents w.tags.lists xs) where
  wf := h.wf.newList hseg ho
  distinct j hj := by
    change j < (w.tags.acquire o).lists + 1 at hj
    rw [Store.lists_acquire] at hj
    by_cases hj' : j = w.tags.lists
    · rw [hj', Function.update_self]
      exact hdistinct
    · rw [Function.update_of_ne hj']
      exact h.distinct j (by omega)
  maps j hj := by
    change j < (w.tags.acquire o).lists + 1 at hj
    rw [Store.lists_acquire] at hj
    by_cases hj' : j = w.tags.lists
    · rw [hj', Function.update_self]
      exact (Function.update_self _ _ _).trans hm
    · rw [Function.update_of_ne hj']
      exact (Function.update_of_ne hj' _ _).trans (h.maps j (by omega))

theorem Inv.remove (h : Inv C w contents) (hi : i < w.tags.lists) (tid : ι) :
    ∃ tags' contents', remove C w.tags i tid = some (w.maps i tid, tags') ∧
      Inv C ⟨tags', Function.update w.maps i (Function.update (w.maps i) tid none)⟩ contents' := by
  unfold PacketTagList.remove
  rcases cowTraverse_spec (removeWriter_writes C tid) h.wf hi fun _ _ _ _ _ => trivial with
    ⟨hnone, hnot⟩ | ⟨us, v, ws, zs, tags', contents', hvalues, htid, hus, hfound, hzs, hchanges⟩
  · have hmap : w.maps i tid = none := by
      rw [h.maps i hi]
      refine mapOf_of_not_mem fun u hu => ?_
      obtain ⟨x, hx, rfl⟩ := List.mem_map.mp hu
      exact hnot x hx
    refine ⟨w.tags, contents, by rw [hnone, hmap], ?_⟩
    rw [← hmap, Function.update_eq_self, Function.update_eq_self]
    exact h
  · have hdistinct := h.distinct i hi
    rw [hvalues] at hdistinct
    have hmap := h.maps i hi
    rw [hvalues] at hmap
    subst hzs
    rw [List.append_nil] at hchanges
    refine ⟨tags', contents', ?_, h.changes hchanges hdistinct.split.2.2 ?_⟩
    · rw [hfound, hmap, mapOf_found hus htid]
    · rw [mapOf_remove hdistinct, hmap, htid]

theorem Inv.replace (h : Inv C w contents) (hlawful : C.Lawful) (hi : i < w.tags.lists) {v : V}
    (hfits : w.Fits C (.replace i tid v)) :
    ∃ tags' contents', replace C w.tags i tid v = some ((w.maps i tid).isSome, tags') ∧
      Inv C ⟨tags', Function.update w.maps i (Function.update (w.maps i) tid (some v))⟩ contents' := by
  have hread : C.deserialize tid (C.serialize tid v) = v := by
    have hlaw := hlawful tid v []
    rwa [List.append_nil] at hlaw
  unfold PacketTagList.replace
  rcases cowTraverse_spec (replaceWriter_writes C tid v) h.wf hi hfits with
    ⟨hnone, hnot⟩ | ⟨us, u, ws, zs, tags', contents', hvalues, htid, hus, hfound, ⟨rest, rfl⟩, hchanges⟩
  · have hnot' : ∀ u ∈ (contents i).map Prod.snd, u.tid ≠ tid := by
      intro u hu
      obtain ⟨x, hx, rfl⟩ := List.mem_map.mp hu
      exact hnot x hx
    have hmap : w.maps i tid = none := by
      rw [h.maps i hi]
      exact mapOf_of_not_mem hnot'
    obtain ⟨contents', hchanges⟩ := add_spec C tid h.wf hi v
    refine ⟨_, contents', by rw [hnone, hmap]; rfl, h.changes hchanges ?_ ?_⟩
    · refine List.nodup_cons.mpr ⟨fun hmem => ?_, h.distinct i hi⟩
      obtain ⟨u, hu, heq⟩ := List.mem_map.mp hmem
      exact hnot' u hu heq
    · rw [mapOf_cons, ← h.maps i hi, hread]
  · have hdistinct := h.distinct i hi
    rw [hvalues] at hdistinct
    have hmap := h.maps i hi
    rw [hvalues] at hmap
    rw [List.append_assoc] at hchanges
    refine ⟨tags', contents', ?_, h.changes hchanges ?_ ?_⟩
    · rw [hfound, hmap, mapOf_found hus htid]
      rfl
    · unfold Distinct at hdistinct ⊢
      rw [List.map_append, List.map_cons, htid] at hdistinct
      rw [List.map_append]
      exact hdistinct
    · have hnew := mapOf_replace (C := C) hdistinct (w := ⟨tid, C.serialize tid v ++ rest⟩) htid.symm
      rw [htid, hlawful tid v rest, ← hmap] at hnew
      exact hnew.symm

/-- The list that a tag is added to does not have one of its type. -/
theorem Inv.not_mem_of_fits (h : Inv C w contents) (hi : i < w.tags.lists) {v : V}
    (hfits : w.Fits C (.add i tid v)) : ∀ u ∈ (contents i).map Prod.snd, u.tid ≠ tid := by
  have hchain := h.wf.chains i hi
  have hfind : find w.tags tid (w.tags.brk + 1) (w.tags.heads i) = _ :=
    find_spec hchain (Nat.lt_succ_of_le (hchain.length_le h.wf.bounded))
  rw [show find w.tags tid (w.tags.brk + 1) (w.tags.heads i) = some none from hfits] at hfind
  have htag : tagOf tid (contents i) = none := by
    cases htag : tagOf tid (contents i) with
    | none => rfl
    | some x =>
      rw [htag] at hfind
      cases hfind
  intro u hu
  obtain ⟨x, hx, rfl⟩ := List.mem_map.mp hu
  simpa using List.find?_eq_none.mp htag x hx

theorem Inv.step (h : Inv C w contents) (hlawful : C.Lawful) {o : TagOperation ι V}
    (hnamed : Named w.tags.lists o) (hfits : w.Fits C o) :
    ∃ tags' contents', onTags C w.tags o = some tags' ∧
      Inv C ⟨tags', onMaps w.maps w.tags.lists o⟩ contents' := by
  cases o with
  | create =>
    exact ⟨_, _, rfl, h.newList (.nil none) (fun p hp => by cases hp) List.nodup_nil rfl⟩
  | copy j =>
    exact ⟨_, _, rfl, h.newList (h.wf.chains j hnamed) (fun p hp => head_pos h.wf hp)
      (h.distinct j hnamed) (h.maps j hnamed)⟩
  | assign i j =>
    obtain ⟨tags', contents', hassign, hchanges⟩ := assign_spec h.wf hnamed.1 hnamed.2
    exact ⟨tags', contents', hassign,
      h.changes hchanges (h.distinct j hnamed.2) (h.maps j hnamed.2)⟩
  | add i tid v =>
    obtain ⟨contents', hchanges⟩ := add_spec C tid h.wf hnamed v
    have hnot := h.not_mem_of_fits hnamed hfits
    refine ⟨_, contents', rfl, h.changes hchanges ?_ ?_⟩
    · refine List.nodup_cons.mpr ⟨fun hmem => ?_, h.distinct i hnamed⟩
      obtain ⟨u, hu, heq⟩ := List.mem_map.mp hmem
      exact hnot u hu heq
    · have hread := hlawful tid v []
      rw [List.append_nil] at hread
      rw [mapOf_cons, ← h.maps i hnamed, hread]
  | remove i tid =>
    obtain ⟨tags', contents', hremove, hinv⟩ := h.remove hnamed tid
    refine ⟨tags', contents', ?_, hinv⟩
    show (PacketTagList.remove C w.tags i tid).map Prod.snd = _
    rw [hremove]
    rfl
  | replace i tid v =>
    obtain ⟨tags', contents', hreplace, hinv⟩ := h.replace hlawful hnamed hfits
    refine ⟨tags', contents', ?_, hinv⟩
    show (PacketTagList.replace C w.tags i tid v).map Prod.snd = _
    rw [hreplace]
    rfl
  | removeAll i =>
    obtain ⟨tags', contents', hremove, hchanges, -⟩ := removeAll_spec h.wf hnamed
    exact ⟨tags', contents', hremove, h.changes hchanges List.nodup_nil rfl⟩

theorem inv_of_reachable (hlawful : C.Lawful) (h : ((system C).restrict (Fits C)).Reachable w) :
    ∃ contents, Inv C w contents := by
  refine h.invariant (P := fun w => ∃ contents, Inv C w contents) ?_ ?_
  · rintro w rfl
    refine ⟨fun _ => [], ⟨⟨⟨fun _ _ => rfl, fun _ _ => rfl⟩, fun p => ?_, ?_⟩, ?_, ?_⟩⟩
    · have hrefs : (Store.empty : Tags ι).refs p = 0 := by
        unfold Store.refs
        rw [countBelow_eq_zero (fun u hu => by cases hu), countBelow_eq_zero (fun u hu => by cases hu)]
      rw [hrefs]
      rfl
    · intro i hi
      cases hi
    · intro i hi
      cases hi
    · intro i hi
      cases hi
  · rintro w o w' ⟨contents, hinv⟩ ⟨hfits, hnamed, htags, hmaps⟩
    obtain ⟨tags', contents', hstep, hinv'⟩ := hinv.step hlawful hnamed hfits
    obtain ⟨tags, maps⟩ := w'
    obtain rfl : tags' = tags := Option.some.inj (hstep.symm.trans htags)
    obtain rfl : maps = _ := hmaps
    exact ⟨contents', hinv'⟩

/-- Each list is a map of its own, each cell counts the locations that point to it, and no operation
fails. -/
structure Independent (C : TagCodec ι V) (w : TagFamily ι V) : Prop where
  peek : ∀ i < w.tags.lists, ∀ tid, peek C w.tags i tid = some (w.maps i tid)
  remove : ∀ i < w.tags.lists, ∀ tid, (remove C w.tags i tid).map Prod.fst = some (w.maps i tid)
  replace : ∀ i < w.tags.lists, ∀ tid v, w.Fits C (.replace i tid v) →
    (replace C w.tags i tid v).map Prod.fst = some (w.maps i tid).isSome
  counts : ∀ p c, w.tags.cells p = some c → c.count = w.tags.refs p
  succeeds : ∀ o, Named w.tags.lists o → w.Fits C o → (onTags C w.tags o).isSome

/-- **Packet tag lists are independent**, as long as no tag is replaced in place by a larger one. -/
theorem independent_of_reachable (hlawful : C.Lawful)
    (h : ((system C).restrict (Fits C)).Reachable w) : Independent C w := by
  obtain ⟨contents, hinv⟩ := inv_of_reachable hlawful h
  refine ⟨fun i hi tid => ?_, fun i hi tid => ?_, fun i hi tid v hfits => ?_, fun p c hc => ?_,
    fun o hnamed hfits => ?_⟩
  · rw [peek_spec hinv.wf hi, hinv.maps i hi]
  · obtain ⟨tags', contents', hremove, -⟩ := hinv.remove hi tid
    rw [hremove]
    rfl
  · obtain ⟨tags', contents', hreplace, -⟩ := hinv.replace hlawful hi hfits
    rw [hreplace]
    rfl
  · rw [← Store.count_of_cell hc, hinv.wf.refs_eq_count]
  · obtain ⟨tags', contents', hstep, -⟩ := hinv.step hlawful hnamed hfits
    rw [hstep]
    rfl

/-! ## A larger tag -/

section Sample

/-- The value `true` takes one byte, and `false` takes two. -/
def sampleCodec : TagCodec Unit Bool where
  serialize _ v := if v then [1] else [0, 0]
  deserialize _ data := data.head? = some 1

theorem sampleCodec_lawful : sampleCodec.Lawful := by
  intro tid v rest
  cases v <;> rfl

/-- One list, without and with the tag. -/
def sampleEmpty : TagFamily Unit Bool where
  tags := Store.empty.newList none
  maps := onMaps (fun _ _ => none) 0 .create

def sampleTagged : TagFamily Unit Bool where
  tags := add sampleCodec sampleEmpty.tags 0 () true
  maps := onMaps sampleEmpty.maps 1 (.add 0 () true)

theorem sampleTagged_reachable : ((system sampleCodec).restrict (Fits sampleCodec)).Reachable
    sampleTagged := by
  have hcreate : (system sampleCodec).step ⟨.empty, fun _ _ => none⟩ .create sampleEmpty :=
    ⟨trivial, rfl, rfl⟩
  have hadd : (system sampleCodec).step sampleEmpty (.add 0 () true) sampleTagged :=
    ⟨Nat.one_pos, rfl, rfl⟩
  have hfree : Fits sampleCodec ⟨.empty, fun _ _ => none⟩ .create := trivial
  have hfits : sampleEmpty.Fits sampleCodec (.add 0 () true) := rfl
  exact ⟨_, _, rfl, .snoc (.snoc (.nil _) ⟨hfree, hcreate⟩) ⟨hfits, hadd⟩⟩

theorem independent_of_reachable_sample : Independent sampleCodec sampleTagged :=
  independent_of_reachable sampleCodec_lawful sampleTagged_reachable

/-- The second byte is written past the end of the cell. -/
theorem replace_overflows : ¬ ∀ w : TagFamily Unit Bool, (system sampleCodec).Reachable w →
    ∀ i < w.tags.lists, ∀ tid v, ∃ r, replace sampleCodec w.tags i tid v = some r ∧
      peek sampleCodec r.2 i tid = some (some v) := by
  intro hall
  obtain ⟨r, hr, -⟩ := hall sampleTagged sampleTagged_reachable.of_restrict 0 Nat.one_pos () false
  have hnone : replace sampleCodec sampleTagged.tags 0 () false = none := rfl
  rw [hnone] at hr
  cases hr

end Sample

end TagFamily

end Ns3.Network
