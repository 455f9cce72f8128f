import Mathlib.Data.List.Nodup
import Ns3.Internet.FragmentsTimeout

/-!
# Datagrams that never complete

Fragments arrive, the clock goes on to the next call of `HandleTimeout` at the
most, and the calls are made. Every datagram that is held has one entry in the
list of timeouts, and the entry is dropped when its time comes: a call outlives
the datagram it was made for, and then makes the next one.
-/

namespace Ns3.Internet

open Ns3.Lib Ns3.Network

/-! ## One call of the handler -/

namespace Ipv4L3Protocol

/-- The loop drops the entries of the moment, which are in front, and their fragments. -/
theorem timeoutLoop_eq {now : ℤ} {l : List FragmentsTimeout} {s : Ipv4L3Protocol}
    (hsorted : l.Pairwise fun t t' => t.time ≤ t'.time ∧ t.key ≠ t'.key)
    (hnow : ∀ t ∈ l, now ≤ t.time)
    (hfind : ∀ t ∈ l, ∃ f out, s.fragments.find t.key = some f ∧ f.getPartialPacket = some out) :
    ∃ drops s', timeoutLoop now l s = some (drops, s') ∧
      drops.map FragmentsDrop.entry = l.filter (fun t => t.time = now) ∧
      (∀ x ∈ drops, ∃ f, s.fragments.find x.entry.key = some f ∧
        f.getPartialPacket = some (x.packet, x.requests)) ∧
      (∀ k, s'.fragments.find k =
        if k ∈ drops.map (fun x => x.entry.key) then none else s.fragments.find k) ∧
      s'.timeoutEventList = l.filter (fun t => t.time ≠ now) ∧ s'.nextIter = s.nextIter ∧
      s'.scheduled = s.scheduled ∧ s'.fragmentExpirationTimeout = s.fragmentExpirationTimeout := by
  induction l generalizing s with
  | nil => exact ⟨[], _, rfl, rfl, fun x hx => absurd hx List.not_mem_nil, fun k => rfl, rfl, rfl,
      rfl, rfl⟩
  | cons t rest ih =>
    rw [List.pairwise_cons] at hsorted
    rw [List.forall_mem_cons] at hnow hfind
    unfold timeoutLoop
    by_cases ht : t.time = now
    · obtain ⟨f, out, hf, hout⟩ := hfind.1
      have hstep : s.handleFragmentsTimeout t =
          some (⟨t, out.1, out.2⟩, { s with fragments := s.fragments.erase t.key }) := by
        unfold handleFragmentsTimeout
        rw [hf]
        simp [hout]
      obtain ⟨drops, s', hloop, hentries, hdrops, hfrags, hlist, hiter, hsched, htimeout⟩ :=
        ih (s := { s with fragments := s.fragments.erase t.key }) hsorted.2 hnow.2 fun t' ht' => by
          obtain ⟨f', out', hf', hout'⟩ := hfind.2 t' ht'
          refine ⟨f', out', ?_, hout'⟩
          dsimp only
          rw [StdMap.find_erase, if_neg (hsorted.1 t' ht').2.symm, hf']
      rw [if_pos ht, hstep]
      refine ⟨⟨t, out.1, out.2⟩ :: drops, s', by simp [hloop], ?_, ?_, ?_, ?_, hiter, hsched,
        htimeout⟩
      · rw [List.map_cons, hentries, List.filter_cons_of_pos (by simpa using ht)]
      · rw [List.forall_mem_cons]
        refine ⟨⟨f, hf, hout⟩, fun x hx => ?_⟩
        obtain ⟨f', hf', hout'⟩ := hdrops x hx
        dsimp only at hf'
        rw [StdMap.find_erase] at hf'
        split_ifs at hf'
        exact ⟨f', hf', hout'⟩
      · intro k
        rw [hfrags, List.map_cons]
        dsimp only
        rw [StdMap.find_erase]
        by_cases hk : k = t.key
        · simp [hk]
        · simp [hk]
      · rw [hlist, List.filter_cons_of_neg (by simpa using ht)]
    · have hlater : ∀ t' ∈ t :: rest, t'.time ≠ now := by
        rw [List.forall_mem_cons]
        refine ⟨ht, fun t' ht' => ?_⟩
        have h := (hsorted.1 t' ht').1
        have h' := hnow.1
        omega
      rw [if_neg ht]
      refine ⟨[], _, rfl, ?_, fun x hx => absurd hx List.not_mem_nil, fun k => rfl, ?_, rfl, rfl,
        rfl⟩
      · rw [List.filter_eq_nil_iff.mpr fun t' ht' => by simpa using hlater t' ht']
        rfl
      · rw [List.filter_eq_self.mpr fun t' ht' => by simpa using hlater t' ht']

/-- The next call is made for the first of the entries that are left. -/
theorem handleTimeout_eq {now : ℤ} {s : Ipv4L3Protocol}
    (hsorted : s.timeoutEventList.Pairwise fun t t' => t.time ≤ t'.time ∧ t.key ≠ t'.key)
    (hnow : ∀ t ∈ s.timeoutEventList, now ≤ t.time)
    (hfind : ∀ t ∈ s.timeoutEventList,
      ∃ f out, s.fragments.find t.key = some f ∧ f.getPartialPacket = some out) :
    ∃ drops s', s.handleTimeout now = some (drops, s') ∧
      drops.map FragmentsDrop.entry = s.timeoutEventList.filter (fun t => t.time = now) ∧
      (∀ x ∈ drops, ∃ f, s.fragments.find x.entry.key = some f ∧
        f.getPartialPacket = some (x.packet, x.requests)) ∧
      (∀ k, s'.fragments.find k =
        if k ∈ drops.map (fun x => x.entry.key) then none else s.fragments.find k) ∧
      s'.timeoutEventList = s.timeoutEventList.filter (fun t => t.time ≠ now) ∧
      s'.nextIter = s.nextIter ∧
      s'.fragmentExpirationTimeout = s.fragmentExpirationTimeout ∧
      (∀ e ∈ s'.scheduled, e ∈ s.scheduled ∨ ∃ t ∈ s.timeoutEventList, e = t.time) ∧
      ∀ t ∈ s'.timeoutEventList, ∃ e ∈ s'.scheduled, e ≤ t.time := by
  obtain ⟨drops, s', hloop, hentries, hdrops, hfrags, hlist, hiter, hsched, htimeout⟩ :=
    timeoutLoop_eq hsorted hnow hfind
  unfold handleTimeout
  rw [hloop]
  have hleft : s'.timeoutEventList.Pairwise fun t t' => t.time ≤ t'.time ∧ t.key ≠ t'.key := by
    rw [hlist]
    exact hsorted.sublist List.filter_sublist
  have hsub : ∀ t ∈ s'.timeoutEventList, t ∈ s.timeoutEventList := by
    intro t ht
    rw [hlist] at ht
    exact (List.mem_filter.mp ht).1
  cases hcase : s'.timeoutEventList with
  | nil =>
    refine ⟨drops, s', by simp [hcase], hentries, hdrops, hfrags, hlist, hiter, htimeout, ?_, ?_⟩
    · rw [hsched]
      exact fun e he => .inl he
    · rw [hcase]
      exact fun t ht => absurd ht List.not_mem_nil
  | cons t₀ rest =>
    rw [hcase] at hleft
    refine ⟨drops, { s' with scheduled := s'.scheduled ++ [now + (t₀.time - now)] },
      by simp [hcase], hentries, hdrops, hfrags, hlist, hiter, htimeout, fun e he => ?_,
      fun t ht => ?_⟩
    · rcases List.mem_append.mp he with he | he
      · rw [hsched] at he
        exact .inl he
      · rw [List.mem_singleton.mp he]
        exact .inr ⟨t₀, hsub t₀ (by rw [hcase]; exact List.mem_cons_self), by omega⟩
    · refine ⟨_, List.mem_append_right _ (List.mem_singleton_self _), ?_⟩
      change t ∈ s'.timeoutEventList at ht
      rw [hcase] at ht
      rcases List.mem_cons.mp ht with rfl | ht
      · omega
      · have hle := ((List.pairwise_cons.mp hleft).1 t ht).1
        omega

end Ipv4L3Protocol

/-- The datagram is complete and goes with its entry, or its fragments are kept. -/
theorem processFragment_cases {s s' : Ipv4L3Protocol} {now : ℤ} {packet : Packet}
    {h : Ipv4Header} {iif : ℕ} {out : Bool × Packet}
    (hproc : s.processFragment now packet h iif = some (out, s')) :
    (out.1 = true ∧ s' = { (s.findFragments now h iif).2 with
      timeoutEventList := (s.findFragments now h iif).2.timeoutEventList.eraseP
        (·.iter == (s.findFragments now h iif).1.timeoutIter)
      fragments := (s.findFragments now h iif).2.fragments.erase (fragmentKey h) }) ∨
    (out.1 = false ∧ s' = { (s.findFragments now h iif).2 with
      fragments := (s.findFragments now h iif).2.fragments.assign (fragmentKey h)
        ((s.findFragments now h iif).1.addFragment packet h.fragmentOffset
          (!h.isLastFragment)) }) := by
  unfold Ipv4L3Protocol.processFragment at hproc
  dsimp only at hproc
  split_ifs at hproc
  · split at hproc
    · cases hproc
    · cases hproc
      exact .inl ⟨rfl, rfl⟩
  · cases hproc
    exact .inr ⟨rfl, rfl⟩

/-! ## The list of timeouts -/

/-- The entries of the list, where `iterOf` is the number of the entry that the fragments of a
key were given, and `firstAt` when the first of them came. -/
structure EntriesFor (s : Ipv4L3Protocol) (now : ℤ) (firstAt : Flow → ℤ)
    (iterOf : FragmentKey → Option ℕ) : Prop where
  entry : ∀ t ∈ s.timeoutEventList, t.key = fragmentKey t.ipHeader ∧
    t.time = firstAt t.ipHeader.flow + s.fragmentExpirationTimeout ∧ now ≤ t.time ∧
    t.time ≤ now + s.fragmentExpirationTimeout ∧ t.iter < s.nextIter ∧ iterOf t.key = some t.iter
  held : ∀ h : Ipv4Header, ∀ i, iterOf (fragmentKey h) = some i →
    ∃ t ∈ s.timeoutEventList, t.iter = i ∧ t.key = fragmentKey h
  apart : s.timeoutEventList.Pairwise fun t t' =>
    t.time ≤ t'.time ∧ t.key ≠ t'.key ∧ t.iter ≠ t'.iter
  pending : ∀ e ∈ s.scheduled, now ≤ e
  front : ∀ t ∈ s.timeoutEventList, ∃ e ∈ s.scheduled, e ≤ t.time
  timeout : 0 ≤ s.fragmentExpirationTimeout

namespace EntriesFor

variable {s : Ipv4L3Protocol} {now : ℤ} {firstAt : Flow → ℤ} {iterOf : FragmentKey → Option ℕ}

theorem setTimeout (hs : EntriesFor s now firstAt iterOf) {h : Ipv4Header}
    (hnone : iterOf (fragmentKey h) = none) (iif : ℕ) :
    EntriesFor (s.setTimeout now (fragmentKey h) h iif).2 now
      (Function.update firstAt h.flow now)
      (Function.update iterOf (fragmentKey h) (some s.nextIter)) where
  entry t ht := by
    change t ∈ s.timeoutEventList ++ [_] at ht
    rcases List.mem_append.mp ht with ht | ht
    · obtain ⟨hkey, htime, hnow, hlate, hiter, hi⟩ := hs.entry t ht
      have hne : t.key ≠ fragmentKey h := fun heq => by
        rw [heq, hnone] at hi
        cases hi
      have hflow : t.ipHeader.flow ≠ h.flow := fun heq => hne (hkey.trans (fragmentKey_inj.mpr heq))
      rw [Function.update_of_ne hflow, Function.update_of_ne hne]
      exact ⟨hkey, htime, hnow, hlate, Nat.lt_succ_of_lt hiter, hi⟩
    · cases List.mem_singleton.mp ht
      rw [Function.update_self, Function.update_self]
      exact ⟨rfl, rfl, le_add_of_nonneg_right hs.timeout, le_refl _, Nat.lt_succ_self _, rfl⟩
  held h' i hi := by
    show ∃ t ∈ s.timeoutEventList ++ [_], _
    by_cases heq : fragmentKey h' = fragmentKey h
    · rw [heq, Function.update_self] at hi
      cases hi
      exact ⟨_, List.mem_append_right _ (List.mem_singleton_self _), rfl, heq.symm⟩
    · rw [Function.update_of_ne heq] at hi
      obtain ⟨t, ht, hti⟩ := hs.held h' i hi
      exact ⟨t, List.mem_append_left _ ht, hti⟩
  apart := by
    show (s.timeoutEventList ++ [_]).Pairwise _
    rw [List.pairwise_append]
    refine ⟨hs.apart, List.pairwise_singleton _ _, fun t ht t' ht' => ?_⟩
    cases List.mem_singleton.mp ht'
    obtain ⟨-, -, -, hlate, hiter, hi⟩ := hs.entry t ht
    refine ⟨hlate, fun heq => ?_, hiter.ne⟩
    dsimp only at heq
    rw [heq, hnone] at hi
    cases hi
  pending e he := by
    have htimeout := hs.timeout
    unfold Ipv4L3Protocol.setTimeout at he
    dsimp only at he
    split_ifs at he
    · rcases List.mem_append.mp he with he | he
      · exact hs.pending e he
      · rw [List.mem_singleton.mp he]
        omega
    · exact hs.pending e he
  front t ht := by
    change t ∈ s.timeoutEventList ++ [_] at ht
    unfold Ipv4L3Protocol.setTimeout
    dsimp only
    split_ifs with hempty
    · rw [List.isEmpty_iff.mp hempty, List.nil_append] at ht
      cases List.mem_singleton.mp ht
      exact ⟨_, List.mem_append_right _ (List.mem_singleton_self _), le_refl _⟩
    · rcases List.mem_append.mp ht with ht | ht
      · exact hs.front t ht
      · cases List.mem_singleton.mp ht
        obtain ⟨t₀, ht₀⟩ := List.exists_mem_of_ne_nil s.timeoutEventList (by simpa using hempty)
        obtain ⟨e, he, hle⟩ := hs.front t₀ ht₀
        exact ⟨e, he, hle.trans (hs.entry t₀ ht₀).2.2.2.1⟩
  timeout := hs.timeout

/-- The iterator finds the entry of its key and no other. -/
theorem iter_eq_iff (hs : EntriesFor s now firstAt iterOf) {h : Ipv4Header} {i : ℕ}
    (hi : iterOf (fragmentKey h) = some i) {t : FragmentsTimeout}
    (ht : t ∈ s.timeoutEventList) : t.iter = i ↔ t.key = fragmentKey h := by
  obtain ⟨t₀, ht₀, hi₀, hk₀⟩ := hs.held h i hi
  have hnodup : (s.timeoutEventList.map (·.iter)).Nodup :=
    List.pairwise_map.mpr (hs.apart.imp fun h => h.2.2)
  constructor
  · intro hti
    rw [List.inj_on_of_nodup_map hnodup ht ht₀ (hti.trans hi₀.symm), hk₀]
  · intro hk
    have hiter := (hs.entry t ht).2.2.2.2.2
    rw [hk, hi] at hiter
    cases hiter
    rfl

theorem mem_eraseP_iter {l : List FragmentsTimeout} (hl : l.Pairwise fun t t' => t.iter ≠ t'.iter)
    {i : ℕ} {t : FragmentsTimeout} :
    t ∈ l.eraseP (·.iter == i) ↔ t ∈ l ∧ t.iter ≠ i := by
  induction l with
  | nil => simp
  | cons t₀ l ih =>
    rw [List.pairwise_cons] at hl
    by_cases ht₀ : t₀.iter = i
    · rw [List.eraseP_cons_of_pos (by simpa using ht₀), List.mem_cons]
      constructor
      · intro ht
        exact ⟨.inr ht, fun hti => hl.1 t ht (ht₀.trans hti.symm)⟩
      · rintro ⟨rfl | ht, hne⟩
        · exact absurd ht₀ hne
        · exact ht
    · rw [List.eraseP_cons_of_neg (by simpa using ht₀), List.mem_cons, List.mem_cons, ih hl.2]
      constructor
      · rintro (rfl | ⟨ht, hne⟩)
        · exact ⟨.inl rfl, ht₀⟩
        · exact ⟨.inr ht, hne⟩
      · rintro ⟨rfl | ht, hne⟩
        · exact .inl rfl
        · exact .inr ⟨ht, hne⟩

/-- The entry of a datagram that is complete is taken out. -/
theorem erase (hs : EntriesFor s now firstAt iterOf) {h : Ipv4Header} {i : ℕ}
    (hi : iterOf (fragmentKey h) = some i) (fragments : StdMap FragmentKey Fragments) :
    EntriesFor { s with
      timeoutEventList := s.timeoutEventList.eraseP (·.iter == i)
      fragments := fragments } now firstAt (Function.update iterOf (fragmentKey h) none) := by
  have hmem : ∀ t, t ∈ s.timeoutEventList.eraseP (·.iter == i) ↔
      t ∈ s.timeoutEventList ∧ t.key ≠ fragmentKey h := by
    intro t
    rw [mem_eraseP_iter (hs.apart.imp fun h => h.2.2)]
    exact and_congr_right fun ht => (hs.iter_eq_iff hi ht).not
  exact
  { entry := fun t ht => by
      obtain ⟨hold, hne⟩ := (hmem t).mp ht
      rw [Function.update_of_ne hne]
      exact hs.entry t hold
    held := fun h' j hj => by
      by_cases heq : fragmentKey h' = fragmentKey h
      · rw [heq, Function.update_self] at hj
        cases hj
      · rw [Function.update_of_ne heq] at hj
        obtain ⟨t, ht, hti, htk⟩ := hs.held h' j hj
        exact ⟨t, (hmem t).mpr ⟨ht, fun hk => heq (htk.symm.trans hk)⟩, hti, htk⟩
    apart := hs.apart.sublist List.eraseP_sublist
    pending := hs.pending
    front := fun t ht => hs.front t ((hmem t).mp ht).1
    timeout := hs.timeout }

theorem advance (hs : EntriesFor s now firstAt iterOf) {now' : ℤ} (hnow : now ≤ now')
    (hle : ∀ e ∈ s.scheduled, now' ≤ e) : EntriesFor s now' firstAt iterOf where
  entry t ht := by
    obtain ⟨hkey, htime, -, hlate, hiter⟩ := hs.entry t ht
    obtain ⟨e, he, hfront⟩ := hs.front t ht
    exact ⟨hkey, htime, (hle e he).trans hfront, by omega, hiter⟩
  held := hs.held
  apart := hs.apart
  pending := hle
  front := hs.front
  timeout := hs.timeout

/-- The entries of the moment are dropped, and the next call is made for the first one left. -/
theorem drop (hs : EntriesFor s now firstAt iterOf) {s' : Ipv4L3Protocol}
    {iterOf' : FragmentKey → Option ℕ}
    (hlist : s'.timeoutEventList = s.timeoutEventList.filter (fun t => t.time ≠ now))
    (hiter : s'.nextIter = s.nextIter)
    (htimeout : s'.fragmentExpirationTimeout = s.fragmentExpirationTimeout)
    (hpending : ∀ e ∈ s'.scheduled, now ≤ e)
    (hfront : ∀ t ∈ s'.timeoutEventList, ∃ e ∈ s'.scheduled, e ≤ t.time)
    (hkept : ∀ k i, iterOf' k = some i → iterOf k = some i ∧
      ∀ t ∈ s.timeoutEventList, t.key = k → t.time ≠ now)
    (hheld : ∀ t ∈ s.timeoutEventList, t.time ≠ now → iterOf' t.key = iterOf t.key) :
    EntriesFor s' now firstAt iterOf' where
  entry t ht := by
    rw [hlist, List.mem_filter] at ht
    obtain ⟨hold, hne⟩ := ht
    rw [hiter, htimeout, hheld t hold (by simpa using hne)]
    exact hs.entry t hold
  held h i hi := by
    obtain ⟨hold, hne⟩ := hkept _ _ hi
    obtain ⟨t, ht, hti, htk⟩ := hs.held h i hold
    refine ⟨t, ?_, hti, htk⟩
    rw [hlist, List.mem_filter]
    exact ⟨ht, by simpa using hne t ht htk⟩
  apart := by
    rw [hlist]
    exact hs.apart.sublist List.filter_sublist
  pending := hpending
  front := hfront
  timeout := by
    rw [htimeout]
    exact hs.timeout

end EntriesFor

/-! ## The runs -/

/-- The reassembler, the clock, and when the first fragment of what is held of a datagram came. -/
structure TimedReassembler where
  reassembler : Reassembler
  now : ℤ
  firstAt : Flow → ℤ

/-- What can happen next. -/
inductive TimedEvent
  | receive (packet : Packet) (ipHeader : Ipv4Header) (iif : ℕ)
  | advance (time : ℤ)
  | expire

namespace TimedReassembler

variable (s : TimedReassembler)

abbrev node : Ipv4L3Protocol := s.reassembler.node

abbrev arrived (d : Flow) : List Delivery := s.reassembler.arrived d

def receive (packet : Packet) (ipHeader : Ipv4Header) (iif : ℕ) :
    Option ((Bool × Packet) × TimedReassembler) :=
  (s.reassembler.process ⟨s.now, packet, ipHeader, iif⟩).map fun out =>
    (out.1, { s with
      reassembler := out.2
      firstAt := if s.arrived ipHeader.flow = [] then Function.update s.firstAt ipHeader.flow s.now
        else s.firstAt })

/-- A scheduled call of `HandleTimeout` is made. -/
def expire : Option (List FragmentsDrop × TimedReassembler) :=
  let node : Ipv4L3Protocol := { s.node with scheduled := s.node.scheduled.erase s.now }
  (node.handleTimeout s.now).map fun out =>
    (out.1, { s with reassembler := ⟨out.2, fun d =>
      if d ∈ out.1.map (fun x => x.entry.ipHeader.flow) then [] else s.arrived d⟩ })

/-- Parts of many datagrams arrive, in any order and any number of times. The clock does not go
past a call that is scheduled. -/
def system (payloads : Flow → Payload) : System TimedReassembler TimedEvent where
  init s := 0 ≤ s.node.fragmentExpirationTimeout ∧
    s.reassembler = ⟨Ipv4L3Protocol.new s.node.fragmentExpirationTimeout, fun _ => []⟩
  step s e s' :=
    match e with
    | .receive packet ipHeader iif => Slice (payloads ipHeader.flow).1 ipHeader packet ∧
        ∃ out, s.receive packet ipHeader iif = some (out, s')
    | .advance time => s.now ≤ time ∧ (∀ t ∈ s.node.scheduled, time ≤ t) ∧
        s' = { s with now := time }
    | .expire => s.now ∈ s.node.scheduled ∧ ∃ drops, s.expire = some (drops, s')

/-- The datagram is held, and its first fragment came one timeout ago. -/
def Expires (d : Flow) : Prop :=
  s.arrived d ≠ [] ∧ s.firstAt d + s.node.fragmentExpirationTimeout = s.now

instance decidableExpires (d : Flow) : Decidable (s.Expires d) :=
  inferInstanceAs (Decidable (_ ∧ _))

/-- What is held is what has arrived, and has its entry in the list of timeouts. -/
structure Timers (payloads : Flow → Payload) : Prop where
  inv : s.reassembler.Inv payloads
  content : ∀ h f, s.node.fragments.find (fragmentKey h) = some f →
    s.arrived h.flow ≠ [] ∧ f.fragments = listed (s.arrived h.flow)
  entries : EntriesFor s.node s.now s.firstAt fun k =>
    (s.node.fragments.find k).map Fragments.timeoutIter

variable {s} {s' : TimedReassembler} {payloads : Flow → Payload}

theorem timers_init (h : (system payloads).init s) : s.Timers payloads := by
  obtain ⟨htimeout, hs⟩ := h
  have hnode : s.node = Ipv4L3Protocol.new s.node.fragmentExpirationTimeout := by
    rw [node, hs]
    rfl
  have harrived : ∀ d, s.reassembler.arrived d = [] := by
    intro d
    rw [hs]
  generalize s.node.fragmentExpirationTimeout = timeout at htimeout hnode
  have hfind : ∀ k, s.node.fragments.find k = none := by
    intro k
    rw [hnode]
    rfl
  exact
  { inv :=
      { slices := fun d x hx => by
          rw [harrived d] at hx
          exact absurd hx List.not_mem_nil
        absent := fun h _ => harrived h.flow
        holds := fun h f hf => by
          rw [hfind] at hf
          cases hf }
    content := fun h f hf => by
      rw [hfind] at hf
      cases hf
    entries := by
      simp only [hfind]
      rw [hnode]
      exact
      { entry := fun t ht => absurd ht List.not_mem_nil
        held := fun h i hi => by cases hi
        apart := .nil
        pending := fun e he => absurd he List.not_mem_nil
        front := fun t ht => absurd ht List.not_mem_nil
        timeout := htimeout } }

/-- Where there are no fragments yet, the entry is made first. -/
theorem Timers.found (hs : s.Timers payloads) (h : Ipv4Header) (iif : ℕ) :
    (s.node.findFragments s.now h iif).2.fragments = s.node.fragments ∧
      (s.node.findFragments s.now h iif).1.fragments = listed (s.arrived h.flow) ∧
      EntriesFor (s.node.findFragments s.now h iif).2 s.now
        (if s.arrived h.flow = [] then Function.update s.firstAt h.flow s.now else s.firstAt)
        (Function.update (fun k => (s.node.fragments.find k).map Fragments.timeoutIter)
          (fragmentKey h) (some (s.node.findFragments s.now h iif).1.timeoutIter)) := by
  unfold Ipv4L3Protocol.findFragments
  split
  · next f hf =>
    obtain ⟨hne, hlisted⟩ := hs.content h f hf
    have hsame : Function.update (fun k => (s.node.fragments.find k).map Fragments.timeoutIter)
        (fragmentKey h) (some f.timeoutIter) =
          fun k => (s.node.fragments.find k).map Fragments.timeoutIter := by
      refine Function.update_eq_iff.mpr ⟨?_, fun _ _ => rfl⟩
      rw [hf]
      rfl
    rw [if_neg hne, hsame]
    exact ⟨rfl, hlisted, hs.entries⟩
  · next hf =>
    have hnil : s.arrived h.flow = [] := hs.inv.absent h hf
    rw [if_pos hnil, hnil]
    refine ⟨rfl, rfl, hs.entries.setTimeout ?_ iif⟩
    rw [hf]
    rfl

/-- The two maps change at the same key. -/
theorem Timers.received (hs : s.Timers payloads) {h : Ipv4Header}
    {node' : Ipv4L3Protocol} {arrived' : List Delivery} {firstAt' : Flow → ℤ}
    {o : Option Fragments}
    (hinv : Reassembler.Inv payloads ⟨node', Function.update s.reassembler.arrived h.flow arrived'⟩)
    (hfind : ∀ k, node'.fragments.find k =
      if k = fragmentKey h then o else s.node.fragments.find k)
    (ho : ∀ f, o = some f → arrived' ≠ [] ∧ f.fragments = listed arrived')
    (hentries : EntriesFor node' s.now firstAt'
      (Function.update (fun k => (s.node.fragments.find k).map Fragments.timeoutIter)
        (fragmentKey h) (o.map Fragments.timeoutIter))) :
    Timers ⟨⟨node', Function.update s.reassembler.arrived h.flow arrived'⟩, s.now, firstAt'⟩
      payloads where
  inv := hinv
  content h' f hf := by
    change node'.fragments.find _ = _ at hf
    change Function.update s.reassembler.arrived h.flow arrived' h'.flow ≠ [] ∧
      f.fragments = listed (Function.update s.reassembler.arrived h.flow arrived' h'.flow)
    simp only [hfind, fragmentKey_inj] at hf
    by_cases hflow : h'.flow = h.flow
    · rw [if_pos hflow] at hf
      rw [hflow, Function.update_self]
      exact ho f hf
    · rw [if_neg hflow] at hf
      rw [Function.update_of_ne hflow]
      exact hs.content h' f hf
  entries := by
    have hiter : (fun k => (node'.fragments.find k).map Fragments.timeoutIter) =
        Function.update (fun k => (s.node.fragments.find k).map Fragments.timeoutIter)
          (fragmentKey h) (o.map Fragments.timeoutIter) := by
      funext k
      rw [hfind, Function.update_apply]
      split_ifs <;> rfl
    show EntriesFor node' s.now firstAt' fun k => (node'.fragments.find k).map Fragments.timeoutIter
    rw [hiter]
    exact hentries

theorem Timers.receive (hs : s.Timers payloads) {packet : Packet} {h : Ipv4Header} {iif : ℕ}
    (hslice : Slice (payloads h.flow).1 h packet) {out : Bool × Packet}
    (hout : s.receive packet h iif = some (out, s')) : s'.Timers payloads := by
  obtain ⟨hfrags, hlisted, hentries⟩ := hs.found h iif
  obtain ⟨t, ht⟩ := Reassembler.latestTop_arrivedWith s.reassembler ⟨s.now, packet, h, iif⟩
  obtain ⟨out', r', hproc, hinv, -⟩ :=
    hs.inv.process (a := ⟨s.now, packet, h, iif⟩) hslice ht
  unfold TimedReassembler.receive at hout
  rw [hproc] at hout
  cases hout
  unfold Reassembler.process at hproc
  obtain ⟨⟨out'', node'⟩, hnode, heq⟩ := Option.map_eq_some_iff.mp hproc
  obtain ⟨node'', arrived''⟩ := r'
  cases heq
  dsimp only at hnode hinv
  have hi : Function.update (fun k => (s.node.fragments.find k).map Fragments.timeoutIter)
      (fragmentKey h) (some (s.node.findFragments s.now h iif).1.timeoutIter) (fragmentKey h) =
        some (s.node.findFragments s.now h iif).1.timeoutIter := Function.update_self _ _ _
  rcases processFragment_cases hnode with ⟨hdone, rfl⟩ | ⟨hdone, rfl⟩
  · simp only [hdone, if_true] at hinv ⊢
    refine hs.received (o := none) hinv ?_ (fun f hf => by cases hf) ?_
    · intro k
      rw [StdMap.find_erase, hfrags]
    · have herase := hentries.erase hi
        ((s.node.findFragments s.now h iif).2.fragments.erase (fragmentKey h))
      rw [Function.update_idem] at herase
      exact herase
  · simp only [hdone, Bool.false_eq_true, if_false] at hinv ⊢
    refine hs.received (o := some ((s.node.findFragments s.now h iif).1.addFragment packet
      h.fragmentOffset (!h.isLastFragment))) hinv ?_ ?_ ?_
    · intro k
      rw [StdMap.find_assign, hfrags]
    · intro f hf
      cases hf
      refine ⟨by simp [Reassembler.arrivedWith], ?_⟩
      show insertFragment (s.node.findFragments s.now h iif).1.fragments (h, packet) = _
      rw [hlisted, Reassembler.arrivedWith, listed_append]
    · exact
      { entry := hentries.entry
        held := hentries.held
        apart := hentries.apart
        pending := hentries.pending
        front := hentries.front
        timeout := hentries.timeout }

theorem Timers.advance (hs : s.Timers payloads) {time : ℤ} (hnow : s.now ≤ time)
    (hle : ∀ t ∈ s.node.scheduled, time ≤ t) : Timers { s with now := time } payloads where
  inv := hs.inv
  content := hs.content
  entries := hs.entries.advance hnow hle

/-! ## What the handler does -/

theorem Timers.flows_nodup (hs : s.Timers payloads) :
    (s.node.timeoutEventList.map fun t => t.ipHeader.flow).Nodup := by
  refine List.pairwise_map.mpr (hs.entries.apart.imp_of_mem fun {t t'} ht ht' h heq => h.2.1 ?_)
  rw [(hs.entries.entry t ht).1, (hs.entries.entry t' ht').1, fragmentKey_inj, heq]

/-- An entry is that of a datagram that is held. -/
theorem Timers.of_entry (hs : s.Timers payloads) {t : FragmentsTimeout}
    (ht : t ∈ s.node.timeoutEventList) : ∃ f, s.node.fragments.find t.key = some f ∧
      s.arrived t.ipHeader.flow ≠ [] ∧ f.fragments = listed (s.arrived t.ipHeader.flow) := by
  obtain ⟨hkey, -, -, -, -, hiter⟩ := hs.entries.entry t ht
  obtain ⟨f, hf, -⟩ := Option.map_eq_some_iff.mp hiter
  refine ⟨f, hf, hs.content t.ipHeader f ?_⟩
  rw [← hkey, hf]

/-- A datagram that is held has an entry. -/
theorem Timers.entry_of_arrived (hs : s.Timers payloads) {d : Flow} (hd : s.arrived d ≠ []) :
    ∃ t ∈ s.node.timeoutEventList, t.ipHeader.flow = d := by
  obtain ⟨x, hx⟩ := List.exists_mem_of_ne_nil _ hd
  obtain ⟨rfl, -⟩ := hs.inv.slices d x hx
  cases hf : s.node.fragments.find (fragmentKey x.1) with
  | none => exact absurd (hs.inv.absent x.1 hf) hd
  | some f =>
    obtain ⟨t, ht, -, hkey⟩ := hs.entries.held x.1 f.timeoutIter (by rw [hf]; rfl)
    refine ⟨t, ht, fragmentKey_inj.mp ?_⟩
    rw [← (hs.entries.entry t ht).1, hkey]

theorem Timers.find_isSome_iff (hs : s.Timers payloads) (h : Ipv4Header) :
    (s.node.fragments.find (fragmentKey h)).isSome ↔ s.arrived h.flow ≠ [] := by
  cases hf : s.node.fragments.find (fragmentKey h) with
  | none => simpa using hs.inv.absent h hf
  | some f => simpa using (hs.content h f hf).1

/-- The entries of the moment are those of the datagrams that expire. -/
theorem Timers.expires_iff (hs : s.Timers payloads) (d : Flow) : s.Expires d ↔
    ∃ t ∈ s.node.timeoutEventList, t.time = s.now ∧ t.ipHeader.flow = d := by
  constructor
  · rintro ⟨hd, htime⟩
    obtain ⟨t, ht, rfl⟩ := hs.entry_of_arrived hd
    exact ⟨t, ht, (hs.entries.entry t ht).2.1.trans htime, rfl⟩
  · rintro ⟨t, ht, htime, rfl⟩
    obtain ⟨f, -, hne, -⟩ := hs.of_entry ht
    exact ⟨hne, (hs.entries.entry t ht).2.1.symm.trans htime⟩

/-- A call of the handler drops the datagrams that expire, once each and no others, and hands on
the longest start of each. -/
structure HandledRight (payloads : Flow → Payload) (s : TimedReassembler)
    (drops : List FragmentsDrop) (s' : TimedReassembler) : Prop where
  once : (drops.map fun x => x.entry.ipHeader.flow).Nodup
  due : ∀ d, d ∈ drops.map (fun x => x.entry.ipHeader.flow) ↔ s.Expires d
  start : ∀ x ∈ drops, LongestStart (payloads x.entry.ipHeader.flow).1
    (s.arrived x.entry.ipHeader.flow) x.packet
  removed : ∀ h, s'.node.fragments.find (fragmentKey h) =
    if s.Expires h.flow then none else s.node.fragments.find (fragmentKey h)
  entries : s'.node.timeoutEventList = s.node.timeoutEventList.filter (fun t => t.time ≠ s.now)

/-- What expires goes from both maps, with its entries. -/
theorem Timers.dropped (hs : s.Timers payloads) {node' : Ipv4L3Protocol}
    (hfind : ∀ h, node'.fragments.find (fragmentKey h) =
      if s.Expires h.flow then none else s.node.fragments.find (fragmentKey h))
    (hentries : EntriesFor node' s.now s.firstAt fun k =>
      (node'.fragments.find k).map Fragments.timeoutIter) :
    Timers ⟨⟨node', fun d => if s.Expires d then [] else s.arrived d⟩, s.now, s.firstAt⟩
      payloads where
  inv :=
    { slices := fun d x hx => by
        dsimp only at hx
        split_ifs at hx
        · exact absurd hx List.not_mem_nil
        · exact hs.inv.slices d x hx
      absent := fun h hnone => by
        dsimp only at hnone ⊢
        rw [hfind] at hnone
        split_ifs at hnone ⊢
        · rfl
        · exact hs.inv.absent h hnone
      holds := fun h f hf => by
        dsimp only at hf ⊢
        rw [hfind] at hf
        split_ifs at hf ⊢
        exact hs.inv.holds h f hf }
  content h f hf := by
    change node'.fragments.find _ = _ at hf
    show (if s.Expires h.flow then [] else s.arrived h.flow) ≠ [] ∧
      f.fragments = listed (if s.Expires h.flow then [] else s.arrived h.flow)
    rw [hfind] at hf
    split_ifs at hf ⊢
    exact hs.content h f hf
  entries := hentries

/-- The fragments of an entry are there, and can be handed on. -/
theorem Timers.partialPacket (hs : s.Timers payloads) {t : FragmentsTimeout}
    (ht : t ∈ s.node.timeoutEventList) :
    ∃ f out, s.node.fragments.find t.key = some f ∧ f.getPartialPacket = some out ∧
      LongestStart (payloads t.ipHeader.flow).1 (s.arrived t.ipHeader.flow) out.1 ∧
      ((∀ r ∈ out.2, r.InRange) ↔ NoneInside (s.arrived t.ipHeader.flow)) := by
  have hpay : (payloads t.ipHeader.flow).1.length < 2 ^ 16 := by
    have := (payloads t.ipHeader.flow).2
    omega
  obtain ⟨f, hf, hne, hlisted⟩ := hs.of_entry ht
  obtain ⟨out, hout⟩ := getPartialPacket_eq hpay hlisted hne fun d hd => (hs.inv.slices _ d hd).2
  exact ⟨f, out, hf, hout⟩

section Drops

variable {drops : List FragmentsDrop} {node' : Ipv4L3Protocol}
  (hentries : drops.map FragmentsDrop.entry =
    s.node.timeoutEventList.filter (fun t => t.time = s.now))
  (hfrags : ∀ k, node'.fragments.find k =
    if k ∈ drops.map (fun x => x.entry.key) then none else s.node.fragments.find k)

include hentries

theorem map_drops {β : Type} (g : FragmentsTimeout → β) : drops.map (fun x => g x.entry) =
    (s.node.timeoutEventList.filter (fun t => t.time = s.now)).map g := by
  rw [← hentries, List.map_map]
  rfl

theorem mem_drops {β : Type} (g : FragmentsTimeout → β) (b : β) :
    b ∈ drops.map (fun x => g x.entry) ↔
      ∃ t ∈ s.node.timeoutEventList, t.time = s.now ∧ g t = b := by
  rw [map_drops hentries g, List.mem_map]
  simp [and_assoc]

theorem Timers.flow_mem_drops (hs : s.Timers payloads) (d : Flow) :
    d ∈ drops.map (fun x => x.entry.ipHeader.flow) ↔ s.Expires d :=
  (mem_drops hentries (fun t => t.ipHeader.flow) d).trans (hs.expires_iff d).symm

theorem Timers.key_mem_drops (hs : s.Timers payloads) (h : Ipv4Header) :
    fragmentKey h ∈ drops.map (fun x => x.entry.key) ↔ s.Expires h.flow := by
  rw [mem_drops hentries FragmentsTimeout.key, hs.expires_iff]
  refine exists_congr fun t => and_congr_right fun ht => and_congr_right fun _ => ?_
  rw [(hs.entries.entry t ht).1, fragmentKey_inj]

/-- What is dropped is handed on. -/
theorem Timers.drops_start (hs : s.Timers payloads) {x : FragmentsDrop} (hx : x ∈ drops)
    (hdrop : ∃ f, s.node.fragments.find x.entry.key = some f ∧
      f.getPartialPacket = some (x.packet, x.requests)) :
    LongestStart (payloads x.entry.ipHeader.flow).1 (s.arrived x.entry.ipHeader.flow) x.packet ∧
      ((∀ r ∈ x.requests, r.InRange) ↔ NoneInside (s.arrived x.entry.ipHeader.flow)) := by
  obtain ⟨t, ht, -, rfl⟩ := (mem_drops hentries id x.entry).mp (List.mem_map_of_mem hx)
  obtain ⟨f, out, hf, hpacket, hout⟩ := hs.partialPacket ht
  obtain ⟨f', hf', hpacket'⟩ := hdrop
  cases hf.symm.trans hf'
  cases hpacket.symm.trans hpacket'
  exact hout

include hfrags

/-- The datagrams that are left keep their entries. -/
theorem Timers.entries_drops (hs : s.Timers payloads)
    (hlist : node'.timeoutEventList = s.node.timeoutEventList.filter (fun t => t.time ≠ s.now))
    (hiter : node'.nextIter = s.node.nextIter)
    (htimeout : node'.fragmentExpirationTimeout = s.node.fragmentExpirationTimeout)
    (hpending : ∀ e ∈ node'.scheduled, s.now ≤ e)
    (hfront : ∀ t ∈ node'.timeoutEventList, ∃ e ∈ node'.scheduled, e ≤ t.time) :
    EntriesFor node' s.now s.firstAt fun k =>
      (node'.fragments.find k).map Fragments.timeoutIter := by
  have hkeys : (s.node.timeoutEventList.map (·.key)).Nodup :=
    List.pairwise_map.mpr (hs.entries.apart.imp fun h => h.2.1)
  refine hs.entries.drop hlist hiter htimeout hpending hfront (fun k i hi => ?_)
    fun t ht hne => ?_
  · rw [hfrags] at hi
    split_ifs at hi with hin
    · cases hi
    · refine ⟨hi, fun t ht hk htime => hin ?_⟩
      exact (mem_drops hentries FragmentsTimeout.key k).mpr ⟨t, ht, htime, hk⟩
  · rw [hfrags, if_neg]
    intro hin
    obtain ⟨t', ht', htime, hk⟩ := (mem_drops hentries FragmentsTimeout.key _).mp hin
    exact hne (List.inj_on_of_nodup_map hkeys ht' ht hk ▸ htime)

end Drops

theorem Timers.expire (hs : s.Timers payloads) : ∃ drops s', s.expire = some (drops, s') ∧
    s'.Timers payloads ∧ HandledRight payloads s drops s' ∧
    ((∀ x ∈ drops, ∀ r ∈ x.requests, r.InRange) ↔
      ∀ d, s.Expires d → NoneInside (s.arrived d)) := by
  obtain ⟨drops, node', hhandle, hentries, hdrops, hfrags, hlist, hiter, htimeout, hsched,
      hfront⟩ := Ipv4L3Protocol.handleTimeout_eq
      (s := { s.node with scheduled := s.node.scheduled.erase s.now })
      (hs.entries.apart.imp fun h => ⟨h.1, h.2.1⟩) (fun t ht => (hs.entries.entry t ht).2.2.1)
      fun t ht => by
        obtain ⟨f, out, hf, hout, -⟩ := hs.partialPacket ht
        exact ⟨f, out, hf, hout⟩
  have hflow := hs.flow_mem_drops hentries
  have hfind (h : Ipv4Header) : node'.fragments.find (fragmentKey h) =
      if s.Expires h.flow then none else s.node.fragments.find (fragmentKey h) :=
    (hfrags _).trans (if_congr (hs.key_mem_drops hentries h) rfl rfl)
  have hpending : ∀ e ∈ node'.scheduled, s.now ≤ e := by
    intro e he
    rcases hsched e he with he | ⟨t, ht, rfl⟩
    · exact hs.entries.pending e (List.mem_of_mem_erase he)
    · exact (hs.entries.entry t ht).2.2.1
  have hleft := hs.entries_drops hentries hfrags hlist hiter htimeout hpending hfront
  have hexpire : s.expire = some (drops,
      ⟨⟨node', fun d => if s.Expires d then [] else s.arrived d⟩, s.now, s.firstAt⟩) := by
    unfold TimedReassembler.expire
    dsimp only
    rw [hhandle]
    simp only [hflow, Option.map_some]
  have hstart : ∀ x ∈ drops, _ := fun x hx => hs.drops_start hentries hx (hdrops x hx)
  refine ⟨drops, _, hexpire, hs.dropped hfind hleft, ⟨?_, hflow, fun x hx => (hstart x hx).1, hfind,
    hlist⟩, fun h d hd => ?_, fun h x hx => ?_⟩
  · rw [map_drops hentries fun t => t.ipHeader.flow]
    exact hs.flows_nodup.sublist (List.filter_sublist.map _)
  · obtain ⟨x, hx, rfl⟩ := List.mem_map.mp ((hflow d).mpr hd)
    exact (hstart x hx).2.mp (h x hx)
  · exact (hstart x hx).2.mpr (h _ ((hflow _).mp (List.mem_map_of_mem hx)))

/-! ## The runs -/

theorem timers_of_reachable (h : (system payloads).Reachable s) : s.Timers payloads := by
  refine h.invariant (P := fun s => s.Timers payloads) (fun s hs => timers_init hs) ?_
  rintro s (⟨packet, ipHeader, iif⟩ | ⟨time⟩ | _) s' hs hstep
  · obtain ⟨hslice, out, hout⟩ := hstep
    exact hs.receive hslice hout
  · obtain ⟨hnow, hle, rfl⟩ := hstep
    exact hs.advance hnow hle
  · obtain ⟨-, drops, hexpire⟩ := hstep
    obtain ⟨drops', s'', hexpire', hs', -⟩ := hs.expire
    rw [hexpire] at hexpire'
    cases hexpire'
    exact hs'

/-- Every datagram that is held has one entry in the list of timeouts, for one timeout after its
first fragment, and the clock does not go past that without a call of the handler. -/
structure OneTimeoutEach (s : TimedReassembler) : Prop where
  ordered : s.node.timeoutEventList.Pairwise fun t t' => t.time ≤ t'.time
  keyed : ∀ t ∈ s.node.timeoutEventList, t.key = fragmentKey t.ipHeader
  one : ∀ d, (s.node.timeoutEventList.filter fun t => t.ipHeader.flow = d).map (·.time) =
    if s.arrived d = [] then [] else [s.firstAt d + s.node.fragmentExpirationTimeout]
  held : ∀ h, (s.node.fragments.find (fragmentKey h)).isSome ↔ s.arrived h.flow ≠ []
  inTime : ∀ d, s.arrived d ≠ [] → s.now ≤ s.firstAt d + s.node.fragmentExpirationTimeout
  called : ∀ d, s.Expires d → s.now ∈ s.node.scheduled

theorem filter_flow {l : List FragmentsTimeout} (hl : (l.map fun t => t.ipHeader.flow).Nodup)
    {t : FragmentsTimeout} (ht : t ∈ l) :
    (l.filter fun t' => t'.ipHeader.flow = t.ipHeader.flow) = [t] := by
  induction l with
  | nil => exact absurd ht List.not_mem_nil
  | cons t₀ l ih =>
    rw [List.map_cons, List.nodup_cons, List.mem_map] at hl
    rcases List.mem_cons.mp ht with rfl | ht
    · rw [List.filter_cons_of_pos (by simp), List.filter_eq_nil_iff.mpr fun t' ht' heq =>
        hl.1 ⟨t', ht', by simpa using heq⟩]
    · rw [List.filter_cons_of_neg, ih hl.2 ht]
      simpa using fun heq => hl.1 ⟨t, ht, heq.symm⟩

theorem Timers.oneTimeoutEach (hs : s.Timers payloads) : s.OneTimeoutEach where
  ordered := hs.entries.apart.imp And.left
  keyed t ht := (hs.entries.entry t ht).1
  one d := by
    split_ifs with hd
    · rw [List.filter_eq_nil_iff.mpr fun t ht heq => ?_]
      · rfl
      · obtain ⟨f, -, hne, -⟩ := hs.of_entry ht
        rw [decide_eq_true_eq] at heq
        rw [heq] at hne
        exact hne hd
    · obtain ⟨t, ht, rfl⟩ := hs.entry_of_arrived hd
      rw [filter_flow hs.flows_nodup ht, List.map_cons, (hs.entries.entry t ht).2.1]
      rfl
  held := hs.find_isSome_iff
  inTime d hd := by
    obtain ⟨t, ht, rfl⟩ := hs.entry_of_arrived hd
    obtain ⟨-, htime, hnow, -⟩ := hs.entries.entry t ht
    rwa [← htime]
  called d hd := by
    obtain ⟨t, ht, htime, -⟩ := (hs.expires_iff d).mp hd
    obtain ⟨e, he, hle⟩ := hs.entries.front t ht
    have hnow := hs.entries.pending e he
    have heq : e = s.now := by omega
    rwa [← heq]

/-- In every run, each datagram that is held has its one timeout, and the handler drops exactly
those that expire; it asks for no part out of range exactly where of none of them a fragment of
the gap-free start lies inside the others. -/
theorem expires_of_reachable (h : (system payloads).Reachable s) :
    s.OneTimeoutEach ∧ ∃ drops s', s.expire = some (drops, s') ∧
      HandledRight payloads s drops s' ∧
      ((∀ x ∈ drops, ∀ r ∈ x.requests, r.InRange) ↔
        ∀ d, s.Expires d → NoneInside (s.arrived d)) := by
  have hs := timers_of_reachable h
  obtain ⟨drops, s', hexpire, -, hright, hrange⟩ := hs.expire
  exact ⟨hs.oneTimeoutEach, drops, s', hexpire, hright, hrange⟩

/-! ### A fragment inside of another -/

open Reassembler (samplePayload sampleHeader sampleArrival)

/-- The first fragments of two copies of the sample datagram. -/
def sampleParts : List Arrival := [sampleArrival true 0 88, sampleArrival true 0 48]

theorem sampleParts_slice : ∀ a ∈ sampleParts, Slice samplePayload.1 a.ipHeader a.packet := by
  intro a ha
  simp only [sampleParts, List.mem_cons, List.not_mem_nil, or_false] at ha
  rcases ha with rfl | rfl
  · exact ⟨by decide, by decide +kernel, by decide +kernel, by decide +kernel,
      by decide +kernel⟩
  · exact ⟨by decide, by decide +kernel, by decide +kernel, by decide +kernel,
      by decide +kernel⟩

/-- One of the parts arrives, the clock goes on, or the handler is called. -/
def sampleStep (s : TimedReassembler) : TimedEvent → Option TimedReassembler
  | .receive packet ipHeader iif =>
    if ⟨0, packet, ipHeader, iif⟩ ∈ sampleParts then (s.receive packet ipHeader iif).map Prod.snd
    else none
  | .advance time =>
    if s.now ≤ time ∧ ∀ t ∈ s.node.scheduled, time ≤ t then some { s with now := time } else none
  | .expire => if s.now ∈ s.node.scheduled then s.expire.map Prod.snd else none

theorem step_of_sampleStep (s : TimedReassembler) (e : TimedEvent) (s' : TimedReassembler)
    (h : sampleStep s e = some s') : (system fun _ => samplePayload).step s e s' := by
  cases e with
  | receive packet ipHeader iif =>
    simp only [sampleStep] at h
    split_ifs at h with ha
    obtain ⟨out, hout, rfl⟩ := Option.map_eq_some_iff.mp h
    exact ⟨sampleParts_slice _ ha, out.1, hout⟩
  | advance time =>
    simp only [sampleStep] at h
    split_ifs at h with hin
    cases h
    exact ⟨hin.1, hin.2, rfl⟩
  | expire =>
    simp only [sampleStep] at h
    split_ifs at h with hin
    obtain ⟨out, hout, rfl⟩ := Option.map_eq_some_iff.mp h
    exact ⟨hin, out.1, hout⟩

def sampleStart : TimedReassembler :=
  ⟨⟨Ipv4L3Protocol.new 30, fun _ => []⟩, 0, fun _ => 0⟩

/-- The part of 88 bytes arrives, and then the part of 48 bytes, which lies inside: the handler
asks the second for what starts 40 bytes behind its end. -/
theorem inside_out_of_range : ∃ s, (system fun _ => samplePayload).Reachable s ∧
    s.now ∈ s.node.scheduled ∧ ∃ drops s', s.expire = some (drops, s') ∧
      ∃ x ∈ drops, ∃ r ∈ x.requests, ¬ r.InRange := by
  have hinit : (system fun _ => samplePayload).init sampleStart := ⟨by decide, rfl⟩
  have hrun : (System.exec sampleStep (fun _ _ => True) sampleStart
      [.receive (List.replicate 88 7) (sampleHeader true 0 88) 1,
        .receive (List.replicate 48 7) (sampleHeader true 0 48) 1, .advance 30]).map (fun s =>
      (decide (s.now ∈ s.node.scheduled), s.expire.map fun out => out.1.map (·.requests))) =
        some (true, some [[⟨48, 88, 2 ^ 32 - 40⟩]]) := by
    decide +kernel
  obtain ⟨s, hs, hview⟩ := System.reachable_of_exec step_of_sampleStep hinit hrun
  rw [Prod.mk.injEq, decide_eq_true_eq] at hview
  obtain ⟨⟨drops, s'⟩, hexpire, hdrops⟩ := Option.map_eq_some_iff.mp hview.2
  refine ⟨s, hs.of_restrict, hview.1, drops, s', hexpire, ?_⟩
  cases drops with
  | nil => cases hdrops
  | cons x rest =>
    have hx : x.requests = [⟨48, 88, 2 ^ 32 - 40⟩] := (List.cons.inj hdrops).1
    exact ⟨x, List.mem_cons_self, _, by rw [hx]; exact List.mem_singleton_self _, by decide⟩

/-- With the first part alone, its 88 bytes are handed on and nothing is asked for. -/
theorem expires_of_reachable_sample : ∃ s, (system fun _ => samplePayload).Reachable s ∧
    (∀ d, s.Expires d → NoneInside (s.arrived d)) ∧ ∃ drops s', s.expire = some (drops, s') ∧
      HandledRight (fun _ => samplePayload) s drops s' ∧
      drops.map (fun x => x.packet.length) = [88] := by
  have hinit : (system fun _ => samplePayload).init sampleStart := ⟨by decide, rfl⟩
  have hrun : (System.exec sampleStep (fun _ _ => True) sampleStart
      [.receive (List.replicate 88 7) (sampleHeader true 0 88) 1, .advance 30]).map (fun s =>
      s.expire.map fun out => out.1.map fun x => (x.packet.length, x.requests)) =
        some (some [(88, [])]) := by
    decide +kernel
  obtain ⟨s, hs, hview⟩ := System.reachable_of_exec step_of_sampleStep hinit hrun
  obtain ⟨-, drops, s', hexpire, hright, hrange⟩ := expires_of_reachable hs.of_restrict
  rw [hexpire] at hview
  have hdrops : drops.map (fun x => (x.packet.length, x.requests)) = [(88, [])] :=
    Option.some.inj hview
  obtain ⟨x, rfl⟩ : ∃ x, drops = [x] := by
    rw [← List.length_eq_one_iff, ← List.length_map (f := fun x : FragmentsDrop =>
      (x.packet.length, x.requests)), hdrops]
    rfl
  obtain ⟨hlen, hreq⟩ := Prod.mk.inj (List.cons.inj hdrops).1
  refine ⟨s, hs.of_restrict, hrange.mp fun y hy r hr => ?_, [x], s', hexpire, hright, ?_⟩
  · rw [List.mem_singleton.mp hy, hreq] at hr
    exact absurd hr List.not_mem_nil
  · rw [List.map_cons, hlen]
    rfl

end TimedReassembler

end Ns3.Internet
