import Kiko.Lib.Transition
import Kiko.Core.Protocol

/-!
# The relay race (`relay/relay_race`)

A client registers with several relays at once and takes the best one that pairs it.
`wait_for_peer_candidates` polls the registered candidates round by round; `best` is an
**index** into the vector of candidates, and once it is set a settle window runs in which
a better candidate may still arrive. At the end of every round the candidates that died
without a peer are erased from the vector. `race_until_peer` calls the function again and
again with the candidates that are left and the ones that connected meanwhile.

The machine below takes one step for each poll of a candidate, each end of a round and
each call. The labels carry what the environment decides: what a poll delivered, whether
the clock has passed the settle deadline, whether the call's own deadline (or a
cancellation) ended the loop, and which candidates connected between two calls.

That `best` is an index is what makes the bookkeeping a subject of its own. The promise
of the race is about candidates, and a vector that shrinks under an index changes whom it
means. The condition of the result is on the vector before an erase and names the entries
that may not be dead then; everything else the loop does keeps the selection as it should
be.
-/

set_option autoImplicit false

namespace Kiko.RelayRace

/-- `ActiveRelayCandidate`. The socket is modelled by whether it is still valid. -/
structure ActiveRelayCandidate where
  endpoint : Endpoint
  priority : Nat
  order : Nat
  socketValid : Bool := true
  peer : Option Message := none
deriving DecidableEq, Repr

/-- `relay_candidate_better`. -/
def relayCandidateBetter (candidate best : ActiveRelayCandidate) : Bool :=
  if candidate.priority ≠ best.priority then decide (candidate.priority < best.priority)
  else decide (candidate.order < best.order)

/-- What the erase at the end of a round keeps: `peer || socket.valid()`. -/
def ActiveRelayCandidate.alive (relay : ActiveRelayCandidate) : Bool :=
  relay.peer.isSome || relay.socketValid

/-- What one poll of a candidate finds: nothing to read, a control message, the end of the
    stream, or a frame that raises a `KikoError`. -/
inductive PollEvent
  | quiet
  | message (m : Message)
  | closed
  | malformed
deriving DecidableEq, Repr

/-- Where the call stands: at the loop condition, at candidate `i` of the round, after the
    round's polls, or returned. `returned` also keeps the vector as it was when the
    function decided, and `outOfRange` is the undefined `relays[*best]`. -/
inductive Pc
  | loopHead
  | scan (i : Nat)
  | afterScan
  | returned (result : Option ActiveRelayCandidate) (pool : List ActiveRelayCandidate)
  | outOfRange
deriving DecidableEq, Repr

/-- The candidates of `race_until_peer` and the locals of the running call. `delivered`
    is a history: the `order` of every candidate whose `peer` message was accepted. -/
structure Race where
  relays : List ActiveRelayCandidate
  best : Option Nat := none
  settleDeadline : Bool := false
  pc : Pc := .loopHead
  delivered : List Nat := []
deriving DecidableEq, Repr

/-- A relay connection as `race_until_peer` registers it. -/
structure Registered where
  endpoint : Endpoint
  priority : Nat
  order : Nat
deriving DecidableEq, Repr

def Registered.candidate (r : Registered) : ActiveRelayCandidate :=
  { endpoint := r.endpoint, priority := r.priority, order := r.order }

namespace Race

/-- `relay.peer = std::move(*msg)` and the update of `best` that follows it. -/
def acceptPeer (s : Race) (i : Nat) (relay : ActiveRelayCandidate) (m : Message) : Race :=
  let relay := { relay with peer := some m }
  let s := { s with relays := s.relays.set i relay, delivered := relay.order :: s.delivered }
  match s.best with
  | none => { s with best := some i, settleDeadline := true }
  | some b =>
    match s.relays[b]? with
    | none => { s with pc := .outOfRange }
    | some best =>
      if relayCandidateBetter relay best then
        { s with best := some i, settleDeadline := true }
      else { s with settleDeadline := true }

/-- The body of the polling loop for candidate `i`. -/
def pollRelay (s : Race) (i : Nat) (relay : ActiveRelayCandidate) (ev : PollEvent) : Race :=
  if relay.peer.isSome || !relay.socketValid then s
  else match ev with
    | .quiet => s
    | .closed | .malformed =>
      { s with relays := s.relays.set i { relay with socketValid := false } }
    | .message m =>
      if m.type = "error" then
        { s with relays := s.relays.set i { relay with socketValid := false } }
      else if m.type ≠ "peer" then s
      else s.acceptPeer i relay m

/-- The call returns `result`; its locals are gone. -/
def leave (s : Race) (result : Option ActiveRelayCandidate) (relays : List ActiveRelayCandidate) :
    Race :=
  { s with relays := relays, best := none, settleDeadline := false,
           pc := .returned result s.relays }

/-- `choose_best`: every candidate but the selected one is closed and the vector cleared. -/
def chooseBest (s : Race) : Race :=
  match s.best with
  | none => s.leave none s.relays
  | some b =>
    match s.relays[b]? with
    | none => { s with pc := .outOfRange }
    | some selected =>
      if selected.peer.isSome then s.leave (some selected) [] else s.leave none s.relays

/-- The erase at the end of a round. `best` is not adjusted. -/
def eraseDead (s : Race) : Race :=
  let s := { s with relays := s.relays.filter ActiveRelayCandidate.alive }
  if s.relays.isEmpty then s.leave none [] else { s with pc := .loopHead }

end Race

inductive Label
  /-- the loop condition holds: a new round starts -/
  | tick
  /-- the deadline has passed, or the call was cancelled -/
  | expire
  | poll (ev : PollEvent)
  /-- the round is over: past the last candidate, or out of time -/
  | endScan
  /-- the check of the settle deadline, by whether the clock has reached it -/
  | settled (reached : Bool)
  /-- `race_until_peer` adds what connected meanwhile and calls again -/
  | nextCall (arrivals : List Registered)
deriving DecidableEq, Repr

/-- `wait_for_peer_candidates`, called in a loop by `race_until_peer`. -/
def step (s : Race) : Label → Option Race
  | .tick => if s.pc = .loopHead then some { s with pc := .scan 0 } else none
  | .expire => if s.pc = .loopHead then some s.chooseBest else none
  | .poll ev =>
    match s.pc with
    | .scan i =>
      match s.relays[i]? with
      | some relay => some ({ s with pc := .scan (i + 1) }.pollRelay i relay ev)
      | none => none
    | _ => none
  | .endScan =>
    match s.pc with
    | .scan _ => some { s with pc := .afterScan }
    | _ => none
  | .settled reached =>
    if s.pc = .afterScan then
      some (if s.best.isSome && s.settleDeadline && reached then s.chooseBest else s.eraseDead)
    else none
  | .nextCall arrivals =>
    match s.pc with
    | .returned none _ =>
      some { s with relays := s.relays ++ arrivals.map Registered.candidate, pc := .loopHead }
    | _ => none

/-- The first call, on candidates that have just registered. -/
def start (entries : List Registered) : Race := { relays := entries.map Registered.candidate }

/-! ## What the race promises

The selection is the best of those that have their peer, and none of those is lost. The
second is there because a candidate that is closed cannot be taken later. -/

/-- `c` is in the list, has its peer, and no candidate with a peer is better. -/
def Selects (relays : List ActiveRelayCandidate) (c : ActiveRelayCandidate) : Prop :=
  c ∈ relays ∧ c.peer.isSome ∧
    ∀ d ∈ relays, d.peer.isSome → relayCandidateBetter d c = false

/-- Every candidate whose `peer` message was accepted is still there, with its peer. -/
def KeepsDelivered (delivered : List Nat) (relays : List ActiveRelayCandidate) : Prop :=
  ∀ o ∈ delivered, ∃ c ∈ relays, c.order = o ∧ c.peer.isSome

/-- The selection is sound in a state: `best` denotes the best candidate with a peer, no
    index is out of range, no candidate with a peer is lost, and what the call returns is
    the best one, or nothing when nothing has a peer. -/
structure Sound (s : Race) : Prop where
  best : ∀ b, s.best = some b → ∃ c, s.relays[b]? = some c ∧ Selects s.relays c
  inRange : s.pc ≠ .outOfRange
  kept : (∀ c pool, s.pc ≠ .returned (some c) pool) → KeepsDelivered s.delivered s.relays
  chosen : ∀ c pool, s.pc = .returned (some c) pool →
    Selects pool c ∧ KeepsDelivered s.delivered pool
  nothing : ∀ pool, s.pc = .returned none pool → ∀ d ∈ pool, d.peer = none

/-- The condition under which a step keeps the selection sound: when a round ends in an
    erase, no candidate listed before `best` has died. Every other step meets it. -/
def keepsBest (s : Race) : Label → Bool
  | .settled reached =>
    (s.best.isSome && s.settleDeadline && reached) ||
      (s.relays.take (s.best.getD 0)).all ActiveRelayCandidate.alive
  | _ => true

/-! ## The order on candidates -/

theorem relayCandidateBetter_iff {c d : ActiveRelayCandidate} :
    relayCandidateBetter c d = true ↔
      c.priority < d.priority ∨ (c.priority = d.priority ∧ c.order < d.order) := by
  unfold relayCandidateBetter
  split <;> simp only [decide_eq_true_eq] <;> omega

theorem relayCandidateBetter_trans {c d e : ActiveRelayCandidate}
    (h₁ : relayCandidateBetter c d = true) (h₂ : relayCandidateBetter d e = true) :
    relayCandidateBetter c e = true := by
  rw [relayCandidateBetter_iff] at *
  omega

theorem relayCandidateBetter_irrefl (c : ActiveRelayCandidate) :
    relayCandidateBetter c c = false := by
  rw [Bool.eq_false_iff, Ne, relayCandidateBetter_iff]
  omega

/-! ## Changing one entry of the vector

A poll changes the candidate it polls. What it does to `best` depends on how the changed
entry compares with the one at the index. -/

section Set

variable {relays : List ActiveRelayCandidate} {i b : Nat} {relay relay' c d : ActiveRelayCandidate}

/-- A candidate with a peer is not the entry being changed, so it stays. -/
theorem mem_set_of_peer (hi : relays[i]? = some relay) (hp : relay.peer = none)
    (hd : d ∈ relays) (hdp : d.peer.isSome) : d ∈ relays.set i relay' := by
  obtain ⟨j, hj⟩ := List.mem_iff_getElem?.mp hd
  have hne : i ≠ j := by
    rintro rfl
    rw [hi] at hj
    obtain rfl := Option.some.inj hj
    simp [hp] at hdp
  exact List.mem_iff_getElem?.mpr ⟨j, by rw [List.getElem?_set_ne hne]; exact hj⟩

theorem getElem?_set_of_peer (hi : relays[i]? = some relay) (hp : relay.peer = none)
    (hb : relays[b]? = some c) (hcp : c.peer.isSome) : (relays.set i relay')[b]? = some c := by
  have hne : i ≠ b := by
    rintro rfl
    rw [hi] at hb
    obtain rfl := Option.some.inj hb
    simp [hp] at hcp
  rw [List.getElem?_set_ne hne]
  exact hb

/-- Marking a candidate without a peer does not disturb what is selected. -/
theorem Selects.set (h : Selects relays c) (hi : relays[i]? = some relay)
    (hp : relay.peer = none) (hp' : relay'.peer = none) : Selects (relays.set i relay') c := by
  obtain ⟨hmem, hpeer, hmin⟩ := h
  refine ⟨mem_set_of_peer hi hp hmem hpeer, hpeer, fun d hd hdp => ?_⟩
  rcases List.mem_or_eq_of_mem_set hd with hd | rfl
  · exact hmin d hd hdp
  · simp [hp'] at hdp

theorem KeepsDelivered.set {delivered : List Nat} (h : KeepsDelivered delivered relays)
    (hi : relays[i]? = some relay) (hp : relay.peer = none) :
    KeepsDelivered delivered (relays.set i relay') := by
  intro o ho
  obtain ⟨c, hc, hco, hcp⟩ := h o ho
  exact ⟨c, mem_set_of_peer hi hp hc hcp, hco, hcp⟩

theorem KeepsDelivered.filter {delivered : List Nat} (h : KeepsDelivered delivered relays) :
    KeepsDelivered delivered (relays.filter ActiveRelayCandidate.alive) := by
  intro o ho
  obtain ⟨c, hc, hco, hcp⟩ := h o ho
  exact ⟨c, List.mem_filter.mpr ⟨hc, by simp [ActiveRelayCandidate.alive, hcp]⟩, hco, hcp⟩

/-- When nothing before index `b` is dead, the erase leaves index `b` where it was. -/
theorem getElem?_filter_alive (hb : relays[b]? = some c) (hc : c.alive = true)
    (htake : ∀ d ∈ relays.take b, d.alive = true) :
    (relays.filter ActiveRelayCandidate.alive)[b]? = some c := by
  obtain ⟨hlt, hget⟩ := List.getElem?_eq_some_iff.mp hb
  have hsplit : relays = relays.take b ++ c :: relays.drop (b + 1) := by
    conv_lhs => rw [← List.take_append_drop b relays, List.drop_eq_getElem_cons hlt, hget]
  have hlen : (relays.take b).length = b := List.length_take_of_le (Nat.le_of_lt hlt)
  rw [hsplit, List.filter_append, List.filter_eq_self.mpr htake, List.filter_cons_of_pos hc,
    List.getElem?_append_right (Nat.le_of_eq hlen), hlen]
  simp

end Set

/-! ## The invariant

Said of the state between two steps, with the position of the loop in it: the candidates
polled in this round, and those still to be polled. -/

/-- `Sound`, an unset `best` means that nothing has a peer, and a call that has returned has
    no `best` any more. -/
structure Inv (s : Race) : Prop extends Sound s where
  unset : s.best = none → ∀ d ∈ s.relays, d.peer = none
  left : ∀ r pool, s.pc = .returned r pool → s.best = none

theorem inv_start (entries : List Registered) : Inv (start entries) where
  best := by simp [start]
  inRange := by simp [start]
  kept := by simp [start, KeepsDelivered]
  chosen := by simp [start]
  nothing := by simp [start]
  unset := by
    intro _ d hd
    obtain ⟨r, _, rfl⟩ := List.mem_map.mp hd
    rfl
  left := by simp [start]

/-- Only the position inside the call changes: the invariant follows the other fields. -/
theorem Inv.move {s : Race} (h : Inv s) {pc : Pc} (hpc : ∀ r pool, pc ≠ .returned r pool)
    (hr : pc ≠ .outOfRange) (hs : ∀ c pool, s.pc ≠ .returned (some c) pool) :
    Inv { s with pc := pc } where
  best := h.best
  inRange := hr
  kept := fun _ => h.kept hs
  chosen := fun _ _ hc => absurd hc (hpc _ _)
  nothing := fun _ hc => absurd hc (hpc _ _)
  unset := h.unset
  left := fun _ _ hc => absurd hc (hpc _ _)

/-- A poll that only marks a candidate without a peer. -/
theorem Inv.mark {s : Race} (h : Inv s) {i : Nat} {relay relay' : ActiveRelayCandidate}
    (hi : s.relays[i]? = some relay) (hp : relay.peer = none) (hp' : relay'.peer = none)
    (hpc : ∀ r pool, s.pc ≠ .returned r pool) :
    Inv { s with relays := s.relays.set i relay' } where
  best := by
    intro b hb
    obtain ⟨c, hc, hsel⟩ := h.best b hb
    exact ⟨c, getElem?_set_of_peer hi hp hc hsel.2.1, hsel.set hi hp hp'⟩
  inRange := h.inRange
  kept := fun _ => (h.kept fun _ _ => hpc _ _).set hi hp
  chosen := fun _ _ hc => absurd hc (hpc _ _)
  nothing := fun _ hc => absurd hc (hpc _ _)
  unset := by
    intro hb d hd
    rcases List.mem_or_eq_of_mem_set hd with hd | rfl
    · exact h.unset hb d hd
    · exact hp'
  left := fun _ _ hc => absurd hc (hpc _ _)

/-- The entry that just received its peer, and what it takes for it, or for the old best,
    to be selected in the new vector. -/
theorem Inv.acceptPeer {s : Race} (h : Inv s) {i : Nat} {relay : ActiveRelayCandidate}
    {m : Message} (hi : s.relays[i]? = some relay) (hp : relay.peer = none)
    (hpc : ∀ r pool, s.pc ≠ .returned r pool) : Inv (s.acceptPeer i relay m) := by
  obtain ⟨hlt, -⟩ := List.getElem?_eq_some_iff.mp hi
  have hnew : (s.relays.set i { relay with peer := some m })[i]? =
      some { relay with peer := some m } := List.getElem?_set_self hlt
  have hmem := List.mem_of_getElem? hnew
  have hkept : KeepsDelivered (relay.order :: s.delivered)
      (s.relays.set i { relay with peer := some m }) := by
    intro o ho
    rcases List.mem_cons.mp ho with rfl | ho
    · exact ⟨_, hmem, rfl, rfl⟩
    · exact (h.kept fun _ _ => hpc _ _).set hi hp o ho
  -- the old candidates with a peer, seen from the new entry
  have selectsNew : (∀ d ∈ s.relays, d.peer.isSome → relayCandidateBetter d relay = false) →
      Selects (s.relays.set i { relay with peer := some m }) { relay with peer := some m } := by
    intro hmin
    refine ⟨hmem, rfl, fun d hd hdp => ?_⟩
    rcases List.mem_or_eq_of_mem_set hd with hd | rfl
    · exact hmin d hd hdp
    · exact relayCandidateBetter_irrefl _
  have finish : ∀ {b : Nat} {c : ActiveRelayCandidate},
      (s.relays.set i { relay with peer := some m })[b]? = some c →
      Selects (s.relays.set i { relay with peer := some m }) c →
      Inv { s with relays := s.relays.set i { relay with peer := some m },
                   delivered := relay.order :: s.delivered,
                   best := some b, settleDeadline := true } := fun hb hsel =>
    { best := by
        intro b' hb'
        obtain rfl := Option.some.inj hb'
        exact ⟨_, hb, hsel⟩
      inRange := h.inRange
      kept := fun _ => hkept
      chosen := fun _ _ hc => absurd hc (hpc _ _)
      nothing := fun _ hc => absurd hc (hpc _ _)
      unset := by simp
      left := fun _ _ hc => absurd hc (hpc _ _) }
  unfold Race.acceptPeer
  cases hb : s.best with
  | none =>
    -- the first peer of the call
    exact finish hnew (selectsNew fun d hd hdp => by simp [h.unset hb d hd] at hdp)
  | some b =>
    obtain ⟨c, hc, hsel⟩ := h.best b hb
    have hc' : (s.relays.set i { relay with peer := some m })[b]? = some c :=
      getElem?_set_of_peer hi hp hc hsel.2.1
    simp only [hc']
    split
    case isTrue hbetter =>
      refine finish hnew (selectsNew fun d hd hdp => ?_)
      -- nothing beats the old best, which the new entry beats
      rw [Bool.eq_false_iff]
      intro hdr
      have := relayCandidateBetter_trans hdr hbetter
      rw [hsel.2.2 d hd hdp] at this
      cases this
    case isFalse hworse =>
      have := finish hc' ⟨mem_set_of_peer hi hp hsel.1 hsel.2.1, hsel.2.1, fun d hd hdp => by
        rcases List.mem_or_eq_of_mem_set hd with hd | rfl
        · exact hsel.2.2 d hd hdp
        · simpa using hworse⟩
      simpa [hb] using this

theorem Inv.pollRelay {s : Race} (h : Inv s) {i : Nat} {relay : ActiveRelayCandidate}
    {ev : PollEvent} (hi : s.relays[i]? = some relay)
    (hpc : ∀ r pool, s.pc ≠ .returned r pool) : Inv (s.pollRelay i relay ev) := by
  unfold Race.pollRelay
  split
  · exact h
  · rename_i hskip
    have hp : relay.peer = none := by
      cases hpeer : relay.peer <;> simp_all
    cases ev with
    | quiet => exact h
    | closed => exact h.mark hi hp hp hpc
    | malformed => exact h.mark hi hp hp hpc
    | message m =>
      simp only
      split
      · exact h.mark hi hp hp hpc
      · split
        · exact h
        · exact h.acceptPeer hi hp hpc

/-- `choose_best` in a sound state returns the selected candidate, or nothing when no
    candidate has a peer. -/
theorem Inv.chooseBest {s : Race} (h : Inv s) (hpc : ∀ r pool, s.pc ≠ .returned r pool) :
    Inv s.chooseBest := by
  have hkept := h.kept fun _ _ => hpc _ _
  unfold Race.chooseBest
  cases hb : s.best with
  | none =>
    have hnone := h.unset hb
    exact
      { best := by simp [Race.leave]
        inRange := by simp [Race.leave]
        kept := fun _ => hkept
        chosen := by simp [Race.leave]
        nothing := by
          intro pool hpool
          simp only [Race.leave, Pc.returned.injEq, true_and] at hpool
          exact hpool ▸ hnone
        unset := fun _ => hnone
        left := by simp [Race.leave] }
  | some b =>
    obtain ⟨c, hc, hsel⟩ := h.best b hb
    simp only [hc, hsel.2.1, if_true]
    exact
      { best := by simp [Race.leave]
        inRange := by simp [Race.leave]
        kept := fun hne => absurd rfl (hne c s.relays)
        chosen := by
          intro c' pool hpool
          simp only [Race.leave, Pc.returned.injEq, Option.some.injEq] at hpool
          obtain ⟨rfl, rfl⟩ := hpool
          exact ⟨hsel, hkept⟩
        nothing := by simp [Race.leave]
        unset := by simp [Race.leave]
        left := by simp [Race.leave] }

/-- The erase keeps the invariant when nothing before `best` is dead. -/
theorem Inv.eraseDead {s : Race} (h : Inv s) (hpc : ∀ r pool, s.pc ≠ .returned r pool)
    (htake : ∀ d ∈ s.relays.take (s.best.getD 0), d.alive = true) : Inv s.eraseDead := by
  have hkept := (h.kept fun _ _ => hpc _ _).filter
  unfold Race.eraseDead
  simp only
  split
  · rename_i hempty
    have hnil : s.relays.filter ActiveRelayCandidate.alive = [] := List.isEmpty_iff.mp hempty
    rw [hnil] at hkept ⊢
    exact
      { best := by simp [Race.leave]
        inRange := by simp [Race.leave]
        kept := fun _ => hkept
        chosen := by simp [Race.leave]
        nothing := by
          intro pool hpool
          simp only [Race.leave, Pc.returned.injEq, true_and] at hpool
          exact hpool ▸ by simp
        unset := by simp [Race.leave]
        left := by simp [Race.leave] }
  · exact
      { best := by
          intro b hb
          obtain ⟨c, hc, hmem, hpeer, hmin⟩ := h.best b hb
          have halive : c.alive = true := by simp [ActiveRelayCandidate.alive, hpeer]
          rw [show s.best = some b from hb] at htake
          exact ⟨c, getElem?_filter_alive hc halive htake, List.mem_filter.mpr ⟨hmem, halive⟩,
            hpeer, fun d hd => hmin d (List.mem_filter.mp hd).1⟩
        inRange := by simp
        kept := fun _ => hkept
        chosen := by simp
        nothing := by simp
        unset := fun hb d hd => h.unset hb d (List.mem_filter.mp hd).1
        left := by simp }

/-- The next call of `race_until_peer` starts with nothing selected and nothing lost. -/
theorem Inv.nextCall {s : Race} (h : Inv s) {pool : List ActiveRelayCandidate}
    (hpc : s.pc = .returned none pool) (arrivals : List Registered) :
    Inv { s with relays := s.relays ++ arrivals.map Registered.candidate, pc := .loopHead } where
  best := by simp [h.left _ _ hpc]
  inRange := by simp
  kept := by
    intro _ o ho
    obtain ⟨c, hc, hrest⟩ := h.kept (by simp [hpc]) o ho
    exact ⟨c, List.mem_append_left _ hc, hrest⟩
  chosen := by simp
  nothing := by simp
  unset := by
    intro _ d hd
    rcases List.mem_append.mp hd with hd | hd
    · exact h.unset (h.left _ _ hpc) d hd
    · obtain ⟨r, _, rfl⟩ := List.mem_map.mp hd
      rfl
  left := by simp

theorem inv_step {s s' : Race} {l : Label} (h : Inv s) (hg : keepsBest s l = true)
    (hs : step s l = some s') : Inv s' := by
  cases l with
  | tick =>
    simp only [step, Option.ite_none_right_eq_some, Option.some.injEq] at hs
    obtain ⟨hpc, rfl⟩ := hs
    exact h.move (by simp) (by simp) (by simp [hpc])
  | expire =>
    simp only [step, Option.ite_none_right_eq_some, Option.some.injEq] at hs
    obtain ⟨hpc, rfl⟩ := hs
    exact h.chooseBest (by simp [hpc])
  | poll ev =>
    simp only [step] at hs
    split at hs
    · rename_i i hpc
      split at hs
      · rename_i relay hi
        obtain rfl := Option.some.inj hs
        have hnext : Inv { s with pc := .scan (i + 1) } :=
          h.move (by simp) (by simp) (by simp [hpc])
        exact hnext.pollRelay hi (by simp)
      · cases hs
    · cases hs
  -- the round ends: the dead are erased, or the settle window is looked at
  | endScan =>
    simp only [step] at hs
    split at hs
    · rename_i i hpc
      obtain rfl := Option.some.inj hs
      exact h.move (by simp) (by simp) (by simp [hpc])
    · cases hs
  | settled reached =>
    simp only [step, Option.ite_none_right_eq_some, Option.some.injEq] at hs
    obtain ⟨hpc, rfl⟩ := hs
    split
    · exact h.chooseBest (by simp [hpc])
    · rename_i hwait
      refine h.eraseDead (by simp [hpc]) fun d hd => ?_
      rcases Bool.or_eq_true _ _ ▸ hg with hdone | hall
      · exact absurd hdone hwait
      · exact List.all_eq_true.mp hall d hd
  | nextCall arrivals =>
    simp only [step] at hs
    split at hs
    · rename_i pool hpc
      obtain rfl := Option.some.inj hs
      exact h.nextCall hpc arrivals
    · cases hs

/-! ## Where the candidates come from

No candidate is made up: each was registered or connected between two calls, and it keeps
its identity while it is moved about. -/

/-- Every candidate a state speaks of: the vector, and the one a call has decided on. -/
def Race.candidates (s : Race) : List ActiveRelayCandidate :=
  s.relays ++ match s.pc with
    | .returned _ pool => pool
    | _ => []

/-- The candidate the next poll is for. -/
def Race.polled (s : Race) : Option ActiveRelayCandidate :=
  match s.pc with
  | .scan i => s.relays[i]?
  | _ => none

/-- `c` is `c₀` as a step may have left it: with another socket state, and with a peer that
    was not there before only when `c₀` has just been polled and delivered it. -/
def Descends (s : Race) (l : Label) (c₀ c : ActiveRelayCandidate) : Prop :=
  c.order = c₀.order ∧ c.priority = c₀.priority ∧ (c.peer = c₀.peer ∨
    ∃ m, l = .poll (.message m) ∧ m.type = "peer" ∧ s.polled = some c₀)

theorem Descends.refl (s : Race) (l : Label) (c : ActiveRelayCandidate) : Descends s l c c :=
  ⟨rfl, rfl, .inl rfl⟩

theorem leave_candidates {s : Race} {r : Option ActiveRelayCandidate}
    {relays : List ActiveRelayCandidate} (hsub : ∀ c ∈ relays, c ∈ s.relays) :
    ∀ c ∈ (s.leave r relays).candidates, c ∈ s.candidates := by
  intro c hc
  simp only [Race.candidates, Race.leave, List.mem_append] at hc
  rcases hc with hc | hc
  · exact List.mem_append_left _ (hsub c hc)
  · exact List.mem_append_left _ hc

theorem chooseBest_candidates {s : Race} : ∀ c ∈ s.chooseBest.candidates, c ∈ s.candidates := by
  unfold Race.chooseBest
  split
  · exact leave_candidates fun c hc => hc
  split
  · intro c hc
    exact List.mem_append_left _ (by simpa [Race.candidates] using hc)
  split
  · exact leave_candidates (by simp)
  · exact leave_candidates fun c hc => hc

theorem acceptPeer_relays (s : Race) (i : Nat) (relay : ActiveRelayCandidate) (m : Message) :
    (s.acceptPeer i relay m).relays = s.relays.set i { relay with peer := some m } ∧
      ((s.acceptPeer i relay m).pc = s.pc ∨ (s.acceptPeer i relay m).pc = .outOfRange) := by
  simp only [Race.acceptPeer]
  split
  · exact ⟨rfl, .inl rfl⟩
  split
  · exact ⟨rfl, .inr rfl⟩
  split
  · exact ⟨rfl, .inl rfl⟩
  · exact ⟨rfl, .inl rfl⟩

theorem pollRelay_candidates {s : Race} {i : Nat} {relay : ActiveRelayCandidate} {ev : PollEvent}
    (hi : s.relays[i]? = some relay) (hpc : s.pc = .scan i) :
    ∀ c ∈ ({ s with pc := .scan (i + 1) }.pollRelay i relay ev).candidates,
      ∃ c₀ ∈ s.candidates, Descends s (.poll ev) c₀ c := by
  have hmem : relay ∈ s.candidates := List.mem_append_left _ (List.mem_of_getElem? hi)
  have hold {c : ActiveRelayCandidate} (hc : c ∈ s.relays) :
      ∃ c₀ ∈ s.candidates, Descends s (.poll ev) c₀ c :=
    ⟨c, List.mem_append_left _ hc, .refl ..⟩
  -- in every branch the vector is as it was, or has the polled candidate changed
  have hset {relay' : ActiveRelayCandidate} (hd : Descends s (.poll ev) relay relay') :
      ∀ c ∈ s.relays.set i relay', ∃ c₀ ∈ s.candidates, Descends s (.poll ev) c₀ c := by
    intro c hc
    rcases List.mem_or_eq_of_mem_set hc with hc | rfl
    · exact hold hc
    · exact ⟨relay, hmem, hd⟩
  have hmark : ∀ c ∈ s.relays.set i { relay with socketValid := false },
      ∃ c₀ ∈ s.candidates, Descends s (.poll ev) c₀ c := hset ⟨rfl, rfl, .inl rfl⟩
  unfold Race.pollRelay
  split
  · exact fun c hc => hold (by simpa [Race.candidates] using hc)
  cases ev with
  | quiet => exact fun c hc => hold (by simpa [Race.candidates] using hc)
  | closed => exact fun c hc => hmark c (by simpa [Race.candidates] using hc)
  | malformed => exact fun c hc => hmark c (by simpa [Race.candidates] using hc)
  | message m =>
    simp only
    split
    · exact fun c hc => hmark c (by simpa [Race.candidates] using hc)
    split
    · exact fun c hc => hold (by simpa [Race.candidates] using hc)
    next htype =>
      have hnew := @hset { relay with peer := some m }
        ⟨rfl, rfl, .inr ⟨m, rfl, by simpa using htype, by simp [Race.polled, hpc, hi]⟩⟩
      obtain ⟨hrelays, hpc' | hpc'⟩ := acceptPeer_relays { s with pc := .scan (i + 1) } i relay m
      · exact fun c hc => hnew c (by simpa [Race.candidates, hrelays, hpc'] using hc)
      · exact fun c hc => hnew c (by simpa [Race.candidates, hrelays, hpc'] using hc)

/-- Candidates are only ever registered, polled and dropped. -/
theorem step_candidates {s s' : Race} {l : Label} (hs : step s l = some s') :
    ∀ c ∈ s'.candidates, (∃ c₀ ∈ s.candidates, Descends s l c₀ c) ∨
      ∃ arrivals, l = .nextCall arrivals ∧ ∃ a ∈ arrivals, c = a.candidate := by
  -- a candidate that was there is the one it was
  have hold {c : ActiveRelayCandidate} (hc : c ∈ s.candidates) :
      (∃ c₀ ∈ s.candidates, Descends s l c₀ c) ∨
        ∃ arrivals, l = .nextCall arrivals ∧ ∃ a ∈ arrivals, c = a.candidate :=
    .inl ⟨c, hc, .refl ..⟩
  intro c hc
  cases l with
  | tick =>
    simp only [step, Option.ite_none_right_eq_some, Option.some.injEq] at hs
    obtain ⟨hpc, rfl⟩ := hs
    exact hold (List.mem_append_left _ (by simpa [Race.candidates] using hc))
  | expire =>
    simp only [step, Option.ite_none_right_eq_some, Option.some.injEq] at hs
    obtain ⟨hpc, rfl⟩ := hs
    exact hold (chooseBest_candidates c hc)
  | poll ev =>
    simp only [step] at hs
    split at hs
    · rename_i i hpc
      split at hs
      · rename_i relay hi
        obtain rfl := Option.some.inj hs
        exact .inl (pollRelay_candidates hi hpc c hc)
      · cases hs
    · cases hs
  | endScan =>
    simp only [step] at hs
    split at hs
    · obtain rfl := Option.some.inj hs
      exact hold (List.mem_append_left _ (by simpa [Race.candidates] using hc))
    · cases hs
  | settled reached =>
    simp only [step, Option.ite_none_right_eq_some, Option.some.injEq] at hs
    obtain ⟨hpc, rfl⟩ := hs
    split at hc
    · exact hold (chooseBest_candidates c hc)
    · unfold Race.eraseDead at hc
      simp only at hc
      split at hc
      · simp only [Race.candidates, Race.leave, List.nil_append, List.mem_filter] at hc
        exact hold (List.mem_append_left _ hc.1)
      · simp only [Race.candidates, List.append_nil, List.mem_filter] at hc
        exact hold (List.mem_append_left _ hc.1)
  -- between two calls the pool gives back its candidates and the new ones join them
  | nextCall arrivals =>
    simp only [step] at hs
    split at hs
    · obtain rfl := Option.some.inj hs
      simp only [Race.candidates, List.append_nil, List.mem_append, List.mem_map] at hc
      rcases hc with hc | ⟨a, ha, rfl⟩
      · exact hold (List.mem_append_left _ hc)
      · exact .inr ⟨arrivals, rfl, a, ha, rfl⟩
    · cases hs

/-! ## The selection, over whole runs -/

/-- **The race is sound while `best` is kept.** In every run, over any number of rounds and
    calls, in which no erase removes a dead candidate listed before `best`, the selection is
    sound in every state reached. -/
theorem raceUntilPeer_sound {entries : List Registered} {s : Race}
    (h : Lts.ReachUnder step (fun s l => keepsBest s l = true) (start entries) s) : Sound s :=
  (h.invariant (inv_start entries) fun hI hg hs => inv_step hI hg hs).toSound

def peerMessage : Message := { type := "peer" }

/-- Three relays, registered in the order of their priority. -/
def threeRelays : List Registered :=
  [⟨⟨"127.0.0.1", 9001⟩, 0, 0⟩, ⟨⟨"192.168.1.2", 9000⟩, 1, 1⟩, ⟨⟨"relay", 9000⟩, 2, 2⟩]

/-- The `order` of the candidate a call has returned. -/
def Race.returnedOrder (s : Race) : Option Nat :=
  match s.pc with
  | .returned (some c) _ => some c.order
  | _ => none

/-- The second and third relay pair the client in one round while the first stays silent;
    the second is returned once the settle window is over. -/
theorem raceUntilPeer_sound_threeRelays : ∃ s : Race, s.returnedOrder = some 1 ∧ Sound s := by
  obtain ⟨s, hr, hs⟩ := Lts.ReachUnder.exists_of_run step (fun s l => keepsBest s l = true)
    (start threeRelays)
    [.tick, .poll .quiet, .poll (.message peerMessage), .poll (.message peerMessage),
      .endScan, .settled false, .tick, .poll .quiet, .poll .quiet, .poll .quiet, .endScan,
      .settled true]
    (fun s => s.returnedOrder == some 1) (by decide) (by decide)
  exact ⟨s, by simpa using hs, raceUntilPeer_sound hr⟩

/-- The first relay closes after the second one has delivered its peer: the erase leaves
    `best` at an index that is past the end of the vector. -/
theorem raceUntilPeer_outOfRange :
    ∃ s, Lts.Reach step (start (threeRelays.take 2)) s ∧ ¬ Sound s := by
  refine ⟨_, Lts.Reach.of_run [.tick, .poll .quiet, .poll (.message peerMessage), .endScan,
    .settled false, .tick, .poll .closed, .poll .quiet, .endScan, .settled false, .expire] rfl,
    fun h => ?_⟩
  exact h.inRange rfl

end Kiko.RelayRace
