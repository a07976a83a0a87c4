import Kiko.Core.Protocol
import Kiko.Lib.Transition

/-!
# The relay's rooms (`relay/relay_room_state`, `relay/relay_server`, `relay/relay_protocol`)

A relay keeps the peers that wait, one per key, and the rooms in which a pair is at work.
`RoomOp` lists what its threads do to this state, each under the lock of the state: a client
is paired or waits, a handler that has claimed a room releases it, waiting peers are purged,
and all are closed. `RoomRun` follows every submitted peer through such operations, and
`rooms_conserved` says that none of them is lost or held twice, and no room is.

A peer is known by its role and its connection; what else a hello says is passed on to the
other client and decides nothing here.

The state is shared by one thread for each client and one for the purge. Each operation
holds the lock from beginning to end, so the operations can be taken as steps; the handler
of a client is several of them, and between two of its steps anything may have happened to
what it has left in the state. The claims are what connects them: a claim is a promise to
release, and a room that is active is one that somebody has promised to release.
-/

set_option autoImplicit false

namespace Kiko.RelayRace

/-! ## A relay's rooms

`pair_or_wait` in all its answers: the waiting peer is handed over, or the new one waits, or
it is refused, with its reason. -/

/-- `RelayWaitingPeer`, by its role and its connection. -/
structure RelayWaitingPeer where
  role : Role
  conn : Nat
deriving DecidableEq, Repr

structure RelayRoomState where
  waiting : List (String × RelayWaitingPeer) := []
  activeRooms : List String := []
deriving DecidableEq, Repr

/-- `RelayRoomPairing`, by its kind. -/
inductive RelayRoomPairing
  | waiting
  | matched (peer : RelayWaitingPeer)
  | roomFull
  | capacityFull
deriving DecidableEq, Repr

/-- `RelayRoomState::pair_or_wait`. -/
def RelayRoomState.pairOrWait (st : RelayRoomState) (maxWaitingPeers : Nat)
    (matchKey activeRoom : String) (self : RelayWaitingPeer) (auxiliary : Bool) :
    RelayRoomState × RelayRoomPairing :=
  if !auxiliary && st.activeRooms.contains activeRoom then (st, .roomFull)
  else
    match st.waiting.lookup matchKey with
    | none =>
      if maxWaitingPeers ≤ st.waiting.length then (st, .capacityFull)
      else ({ st with waiting := st.waiting ++ [(matchKey, self)] }, .waiting)
    | some peer =>
      if peer.role = self.role then (st, .roomFull)
      else
        ({ waiting := st.waiting.filter fun entry => entry.1 ≠ matchKey
           activeRooms := if auxiliary then st.activeRooms else activeRoom :: st.activeRooms },
          .matched peer)

namespace RelayRoomState

/-- `RelayRoomState::release_active_room`. -/
def releaseActiveRoom (st : RelayRoomState) (room : String) : RelayRoomState :=
  { st with activeRooms := st.activeRooms.filter (· ≠ room) }

/-- `RelayRoomState::purge_stale_waiting`; `stale` says which connections have expired or are
    dead. -/
def purgeStaleWaiting (st : RelayRoomState) (stale : List Nat) : RelayRoomState :=
  { st with waiting := st.waiting.filter fun entry => entry.2.conn ∉ stale }

/-- `RelayRoomState::close_waiting`. -/
def closeWaiting (st : RelayRoomState) : RelayRoomState := { st with waiting := [] }

end RelayRoomState

/-! ## What the threads do to them -/

inductive RoomOp
  | pair (matchKey activeRoom : String) (self : RelayWaitingPeer) (auxiliary : Bool)
  /-- the handler of a connection ends, and what it has claimed is released -/
  | release (conn : Nat)
  | purge (stale : List Nat)
  | close
deriving DecidableEq, Repr

/-- The rooms, and where every peer has gone. -/
structure RoomRun where
  rooms : RelayRoomState := {}
  /-- what the handlers have claimed (`claimed_active_room`) and not released, by connection -/
  claims : List (Nat × String) := []
  /-- history -/
  submitted : List Nat := []
  /-- history: handed back to their callers -/
  rejected : List Nat := []
  /-- history: the peer that waited, and the one it was matched with -/
  matched : List (Nat × Nat) := []
  /-- history: purged, or closed -/
  removed : List Nat := []
deriving DecidableEq, Repr

namespace RoomRun

/-- What a connection's handler holds is released. -/
def release (s : RoomRun) (conn : Nat) : RoomRun :=
  { s with
    rooms := (s.claims.filter (·.1 = conn)).foldl (fun st claim => st.releaseActiveRoom claim.2) s.rooms
    claims := s.claims.filter (·.1 ≠ conn) }

/-- The history of a peer that was submitted to `pair_or_wait`, by the answer. -/
def settle (s : RoomRun) (activeRoom : String) (conn : Nat) (auxiliary : Bool) : RelayRoomPairing → RoomRun
  | .waiting => s
  | .matched peer =>
    { s with
      matched := s.matched ++ [(peer.conn, conn)]
      claims := if auxiliary then s.claims else (conn, activeRoom) :: s.claims }
  | .roomFull | .capacityFull => { s with rejected := s.rejected ++ [conn] }

/-- An operation, and what it answers: `pair_or_wait` alone answers anything. -/
def apply (maxWaitingPeers : Nat) (s : RoomRun) : RoomOp → RoomRun × Option RelayRoomPairing
  | .pair matchKey activeRoom self auxiliary =>
    let (rooms, result) := s.rooms.pairOrWait maxWaitingPeers matchKey activeRoom self auxiliary
    ({ s with rooms := rooms, submitted := s.submitted ++ [self.conn] }.settle activeRoom self.conn
      auxiliary result, some result)
  | .release conn => (s.release conn, none)
  | .purge stale =>
    ({ s with
        rooms := s.rooms.purgeStaleWaiting stale
        removed := s.removed ++
          (s.rooms.waiting.filter fun entry => entry.2.conn ∈ stale).map (·.2.conn) }, none)
  | .close =>
    ({ s with
        rooms := s.rooms.closeWaiting
        removed := s.removed ++ s.rooms.waiting.map (·.2.conn) }, none)

/-- The same, as a step: a connection is submitted once. -/
def step (maxWaitingPeers : Nat) (s : RoomRun) (op : RoomOp) : Option RoomRun :=
  match op with
  | .pair _ _ self _ =>
    if self.conn ∈ s.submitted then none else some (s.apply maxWaitingPeers op).1
  | _ => some (s.apply maxWaitingPeers op).1

/-- Where the submitted peers are: waiting, handed back, matched, or removed. -/
def places (s : RoomRun) : List Nat :=
  s.rooms.waiting.map (·.2.conn) ++ s.rejected ++ (s.matched.flatMap fun p => [p.1, p.2]) ++ s.removed

end RoomRun

/-! ## Conservation

A peer that was submitted waits, or was handed to another's handler, or was closed, and it
is in one of these places only. A room is active as long as its claim is out. -/

section Conservation

variable {st st' : RelayRoomState} {maxWaitingPeers : Nat} {matchKey activeRoom : String}
  {self : RelayWaitingPeer} {auxiliary : Bool} {result : RelayRoomPairing}

/-- What `pair_or_wait` can do. -/
theorem pairOrWait_cases
    (h : st.pairOrWait maxWaitingPeers matchKey activeRoom self auxiliary = (st', result)) :
    (st' = st ∧ (result = .roomFull ∨ result = .capacityFull)) ∨
    (st.waiting.lookup matchKey = none ∧ st.waiting.length < maxWaitingPeers ∧
      (auxiliary = true ∨ activeRoom ∉ st.activeRooms) ∧ result = .waiting ∧
      st' = { st with waiting := st.waiting ++ [(matchKey, self)] }) ∨
    ∃ peer, st.waiting.lookup matchKey = some peer ∧ peer.role ≠ self.role ∧
      (auxiliary = true ∨ activeRoom ∉ st.activeRooms) ∧ result = .matched peer ∧
      st' = { waiting := st.waiting.filter fun entry => entry.1 ≠ matchKey
              activeRooms := if auxiliary then st.activeRooms else activeRoom :: st.activeRooms } := by
  unfold RelayRoomState.pairOrWait at h
  by_cases hactive : (!auxiliary && st.activeRooms.contains activeRoom) = true
  · rw [if_pos hactive] at h
    obtain ⟨rfl, rfl⟩ := Prod.mk.inj h
    exact .inl ⟨rfl, .inl rfl⟩
  have hfree : auxiliary = true ∨ activeRoom ∉ st.activeRooms := by
    cases auxiliary
    · exact .inr (by simpa using hactive)
    · exact .inl rfl
  rw [if_neg hactive] at h
  cases hlook : st.waiting.lookup matchKey with
  | none =>
    simp only [hlook] at h
    by_cases hfull : maxWaitingPeers ≤ st.waiting.length
    · rw [if_pos hfull] at h
      obtain ⟨rfl, rfl⟩ := Prod.mk.inj h
      exact .inl ⟨rfl, .inr rfl⟩
    · rw [if_neg hfull] at h
      obtain ⟨rfl, rfl⟩ := Prod.mk.inj h
      exact .inr (.inl ⟨rfl, by omega, hfree, rfl, rfl⟩)
  | some peer =>
    simp only [hlook] at h
    by_cases hrole : peer.role = self.role
    · rw [if_pos hrole] at h
      obtain ⟨rfl, rfl⟩ := Prod.mk.inj h
      exact .inl ⟨rfl, .inl rfl⟩
    · rw [if_neg hrole] at h
      obtain ⟨rfl, rfl⟩ := Prod.mk.inj h
      exact .inr (.inr ⟨peer, rfl, hrole, hfree, rfl, rfl⟩)

/-- One entry of a map is the entry and the map without its key. -/
theorem perm_filter_of_lookup {β : Type} {entries : List (String × β)} {key : String} {b : β}
    (hkeys : (entries.map (·.1)).Nodup) (h : entries.lookup key = some b) :
    entries.Perm ((key, b) :: entries.filter fun entry => entry.1 ≠ key) := by
  induction entries with
  | nil => cases h
  | cons entry rest ih =>
    obtain ⟨k, v⟩ := entry
    simp only [List.map_cons, List.nodup_cons] at hkeys
    by_cases hk : key = k
    · subst hk
      obtain rfl : v = b := by simpa using h
      have hrest : rest.filter (fun entry => entry.1 ≠ key) = rest := by
        rw [List.filter_eq_self]
        intro entry hentry
        have : entry.1 ≠ key := fun heq => hkeys.1 (heq ▸ List.mem_map_of_mem hentry)
        simpa using this
      rw [List.filter_cons_of_neg (by simp), hrest]
    · have hlook : rest.lookup key = some b := by
        simpa [List.lookup_cons, beq_false_of_ne hk] using h
      have hne : k ≠ key := Ne.symm hk
      rw [List.filter_cons_of_pos (by simpa using hne)]
      exact ((ih hkeys.2 hlook).cons (k, v)).trans (List.Perm.swap ..)

theorem notMem_keys_of_lookup {β : Type} {entries : List (String × β)} {key : String}
    (h : entries.lookup key = none) : key ∉ entries.map (·.1) := by
  intro hmem
  obtain ⟨⟨k, v⟩, hentry, rfl⟩ := List.mem_map.mp hmem
  have := List.lookup_eq_none_iff.mp h _ hentry
  simp at this

theorem mem_of_lookup {β : Type} {entries : List (String × β)} {key : String} {b : β}
    (h : entries.lookup key = some b) : (key, b) ∈ entries := by
  obtain ⟨l₁, l₂, rfl, -⟩ := List.lookup_eq_some_iff.mp h
  simp

end Conservation

namespace RoomRun

/-- What a relay keeps at all times. -/
structure Conserved (maxWaitingPeers : Nat) (s : RoomRun) : Prop where
  /-- every submitted peer is in one place, and in no other -/
  placed : s.places.Perm s.submitted
  once : s.submitted.Nodup
  keys : (s.rooms.waiting.map (·.1)).Nodup
  capacity : s.rooms.waiting.length ≤ maxWaitingPeers
  /-- the active rooms are the claims that were granted and not released -/
  active : ∀ room, room ∈ s.rooms.activeRooms ↔ ∃ conn, (conn, room) ∈ s.claims
  claimed : (s.claims.map (·.2)).Nodup
  /-- who has a claim was matched -/
  holders : ∀ claim ∈ s.claims, ∃ peer, (peer, claim.1) ∈ s.matched

theorem mem_activeRooms_release (s : RoomRun) (conn : Nat) (room : String) :
    room ∈ (s.release conn).rooms.activeRooms ↔
      room ∈ s.rooms.activeRooms ∧ (conn, room) ∉ s.claims := by
  have hfold (claims : List (Nat × String)) (st : RelayRoomState) :
      room ∈ (claims.foldl (fun st claim => st.releaseActiveRoom claim.2) st).activeRooms ↔
        room ∈ st.activeRooms ∧ room ∉ claims.map (·.2) := by
    induction claims generalizing st with
    | nil => simp
    | cons claim claims ih =>
      rw [List.foldl_cons, ih]
      simp only [RelayRoomState.releaseActiveRoom, List.mem_filter, decide_eq_true_eq, List.map_cons,
        List.mem_cons, not_or]
      tauto
  rw [release, hfold]
  simp

theorem waiting_release (s : RoomRun) (conn : Nat) : (s.release conn).rooms.waiting = s.rooms.waiting := by
  have hfold (claims : List (Nat × String)) (st : RelayRoomState) :
      (claims.foldl (fun st claim => st.releaseActiveRoom claim.2) st).waiting = st.waiting := by
    induction claims generalizing st with
    | nil => rfl
    | cons claim claims ih => rw [List.foldl_cons, ih]; rfl
  exact hfold _ _

theorem Conserved.pair {maxWaitingPeers : Nat} {s : RoomRun} (h : s.Conserved maxWaitingPeers)
    (matchKey activeRoom : String) (self : RelayWaitingPeer) (auxiliary : Bool)
    (hnew : self.conn ∉ s.submitted) :
    (s.apply maxWaitingPeers (.pair matchKey activeRoom self auxiliary)).1.Conserved
      maxWaitingPeers := by
  have honce : (s.submitted ++ [self.conn]).Nodup := by
    rw [List.nodup_append]
    exact ⟨h.once, List.nodup_singleton _, by grind⟩
  have hperm {l : List Nat} (hl : l.Perm (self.conn :: s.places)) :
      l.Perm (s.submitted ++ [self.conn]) :=
    hl.trans ((h.placed.cons self.conn).trans (List.perm_append_singleton ..).symm)
  obtain ⟨st, result, hpair⟩ : ∃ st result,
      s.rooms.pairOrWait maxWaitingPeers matchKey activeRoom self auxiliary = (st, result) := ⟨_, _, rfl⟩
  simp only [apply, hpair]
  obtain ⟨rfl, hres⟩ | ⟨hlook, hroom, -, rfl, rfl⟩ | ⟨peer, hlook, -, hfree, rfl, rfl⟩ :=
    pairOrWait_cases hpair
  · -- handed back
    have hsettle : ({ s with submitted := s.submitted ++ [self.conn] } : RoomRun).settle activeRoom
        self.conn auxiliary result =
        { s with submitted := s.submitted ++ [self.conn], rejected := s.rejected ++ [self.conn] } := by
      rcases hres with rfl | rfl <;> rfl
    rw [hsettle]
    refine ⟨hperm ?_, honce, h.keys, h.capacity, h.active, h.claimed, h.holders⟩
    simp only [places, List.append_assoc, List.singleton_append]
    grind
  · -- it waits
    refine ⟨hperm ?_, honce, ?_, ?_, h.active, h.claimed, h.holders⟩
    · simp only [settle, places, List.map_append, List.map_cons, List.map_nil, List.append_assoc,
        List.singleton_append]
      exact List.perm_middle
    · show ((s.rooms.waiting ++ [(matchKey, self)]).map (·.1)).Nodup
      rw [List.map_append, List.nodup_append]
      refine ⟨h.keys, List.nodup_singleton _, ?_⟩
      have := notMem_keys_of_lookup hlook
      grind
    · show (s.rooms.waiting ++ [(matchKey, self)]).length ≤ maxWaitingPeers
      simpa using hroom
  · -- it is matched, and the one that waited leaves its place
    have hwait := (perm_filter_of_lookup h.keys hlook).map (·.2.conn)
    refine ⟨hperm ?_, honce, ?_, ?_, ?_, ?_, ?_⟩
    · simp only [settle, places, List.flatMap_append, List.flatMap_cons, List.flatMap_nil,
        List.append_nil, List.append_assoc]
      have hwait : (s.rooms.waiting.map (·.2.conn)).Perm _ := hwait
      rw [List.map_cons] at hwait
      refine List.Perm.trans ?_ ((hwait.append_right _).cons self.conn).symm
      grind
    · exact h.keys.sublist (List.filter_sublist.map _)
    · exact (List.length_filter_le _ _).trans h.capacity
    · intro room
      cases auxiliary with
      | true => exact h.active room
      | false =>
        show room ∈ activeRoom :: s.rooms.activeRooms ↔ ∃ conn, (conn, room) ∈ (self.conn, activeRoom) :: s.claims
        rw [List.mem_cons, h.active room]
        grind
    · cases auxiliary with
      | true => exact h.claimed
      | false =>
        -- the room was free, so that nobody has a claim on it
        have hfree : activeRoom ∉ s.rooms.activeRooms := hfree.resolve_left (by decide)
        show ((self.conn, activeRoom) :: s.claims).map (·.2) |>.Nodup
        rw [List.map_cons, List.nodup_cons]
        refine ⟨fun hmem => hfree ?_, h.claimed⟩
        obtain ⟨⟨conn, room⟩, hclaim, rfl⟩ := List.mem_map.mp hmem
        exact (h.active room).mpr ⟨conn, hclaim⟩
    · intro claim hclaim
      have hold (hclaim : claim ∈ s.claims) :
          ∃ other, (other, claim.1) ∈ s.matched ++ [(peer.conn, self.conn)] := by
        obtain ⟨other, hother⟩ := h.holders claim hclaim
        exact ⟨other, List.mem_append_left _ hother⟩
      cases auxiliary with
      | true => exact hold hclaim
      | false =>
        obtain rfl | hclaim := List.mem_cons.mp hclaim
        · exact ⟨peer.conn, by simp [settle]⟩
        · exact hold hclaim

theorem Conserved.release {maxWaitingPeers : Nat} {s : RoomRun} (h : s.Conserved maxWaitingPeers)
    (conn : Nat) : (s.release conn).Conserved maxWaitingPeers := by
  have hwaiting := waiting_release s conn
  refine ⟨?_, h.once, by rw [hwaiting]; exact h.keys, by rw [hwaiting]; exact h.capacity, ?_, ?_, ?_⟩
  · have hplaces : (s.release conn).places = s.places := by
      unfold places
      rw [hwaiting]
      rfl
    rw [hplaces]
    exact h.placed
  · intro room
    rw [mem_activeRooms_release, h.active room]
    show _ ↔ ∃ other, (other, room) ∈ s.claims.filter (·.1 ≠ conn)
    constructor
    · rintro ⟨⟨other, hother⟩, hnot⟩
      refine ⟨other, List.mem_filter.mpr ⟨hother, ?_⟩⟩
      have : other ≠ conn := fun heq => hnot (heq ▸ hother)
      simpa using this
    · rintro ⟨other, hother⟩
      obtain ⟨hother, hne⟩ := List.mem_filter.mp hother
      refine ⟨⟨other, hother⟩, fun hclaim => ?_⟩
      -- the room has one claim
      have hsame := List.inj_on_of_nodup_map h.claimed hother hclaim rfl
      simp_all
  · exact h.claimed.sublist (List.filter_sublist.map _)
  · intro claim hclaim
    exact h.holders claim (List.mem_filter.mp hclaim).1

theorem Conserved.purge {maxWaitingPeers : Nat} {s : RoomRun} (h : s.Conserved maxWaitingPeers)
    (stale : List Nat) : (s.apply maxWaitingPeers (.purge stale)).1.Conserved maxWaitingPeers := by
  refine ⟨List.Perm.trans ?_ h.placed, h.once, h.keys.sublist (List.filter_sublist.map _),
    (List.length_filter_le _ _).trans h.capacity, h.active, h.claimed, h.holders⟩
  -- who waited still waits, or is purged
  have hsplit : (s.rooms.waiting.map (·.2.conn)).Perm
      ((s.rooms.waiting.filter fun entry => entry.2.conn ∉ stale).map (·.2.conn) ++
        (s.rooms.waiting.filter fun entry => entry.2.conn ∈ stale).map (·.2.conn)) := by
    rw [← List.map_append]
    refine List.Perm.map _ (List.Perm.symm ?_)
    refine List.perm_append_comm.trans ?_
    simpa using List.filter_append_perm (fun entry => decide (entry.2.conn ∈ stale)) s.rooms.waiting
  simp only [apply, places, RelayRoomState.purgeStaleWaiting]
  simp only [List.perm_iff_count, List.count_append] at hsplit ⊢
  intro conn
  have := hsplit conn
  omega

theorem Conserved.close {maxWaitingPeers : Nat} {s : RoomRun} (h : s.Conserved maxWaitingPeers) :
    (s.apply maxWaitingPeers .close).1.Conserved maxWaitingPeers := by
  refine ⟨List.Perm.trans ?_ h.placed, h.once, List.nodup_nil, Nat.zero_le _, h.active, h.claimed,
    h.holders⟩
  simp only [apply, places, RelayRoomState.closeWaiting, List.map_nil, List.nil_append,
    List.perm_iff_count, List.count_append]
  intro conn
  omega

theorem Conserved.step {maxWaitingPeers : Nat} {s s' : RoomRun} {op : RoomOp}
    (h : s.Conserved maxWaitingPeers) (hs : s.step maxWaitingPeers op = some s') :
    s'.Conserved maxWaitingPeers := by
  cases op with
  | pair matchKey activeRoom self auxiliary =>
    unfold RoomRun.step at hs
    by_cases hnew : self.conn ∈ s.submitted
    · simp [hnew] at hs
    · simp only [if_neg hnew, Option.some.injEq] at hs
      exact hs ▸ h.pair matchKey activeRoom self auxiliary hnew
  | release conn => exact Option.some.inj hs ▸ h.release conn
  | purge stale => exact Option.some.inj hs ▸ h.purge stale
  | close => exact Option.some.inj hs ▸ h.close

/-- **A relay loses no peer and no room.** Whatever its threads do, and in whatever order:
    what `Conserved` says holds, who is handed back leaves the rooms as they were, and who
    arrives in the role of the one that waits is handed back. -/
theorem rooms_conserved {maxWaitingPeers : Nat} {s : RoomRun}
    (h : Lts.Reach (RoomRun.step maxWaitingPeers) {} s) :
    s.Conserved maxWaitingPeers ∧
    ∀ matchKey activeRoom self auxiliary rooms result,
      s.rooms.pairOrWait maxWaitingPeers matchKey activeRoom self auxiliary = (rooms, result) →
      (result = .roomFull ∨ result = .capacityFull → rooms = s.rooms) ∧
      ∀ peer, s.rooms.waiting.lookup matchKey = some peer → peer.role = self.role →
        result = .roomFull := by
  constructor
  · exact h.invariant ⟨.refl _, .nil, .nil, Nat.zero_le _, by simp, .nil, by simp⟩
      fun hc _ hs => hc.step hs
  · intro matchKey activeRoom self auxiliary rooms result hpair
    obtain ⟨hrooms, hres⟩ | ⟨hlook, -, -, rfl, -⟩ | ⟨other, hlook, hrole, -, rfl, -⟩ := pairOrWait_cases hpair
    · refine ⟨fun _ => hrooms, fun peer hlook _ => hres.resolve_right fun hcap => ?_⟩
      -- a full relay says so only where nobody waits
      subst hcap
      unfold RelayRoomState.pairOrWait at hpair
      grind
    · refine ⟨by simp, fun peer hpeer _ => ?_⟩
      rw [hlook] at hpeer
      cases hpeer
    · refine ⟨by simp, fun peer hpeer hsame => absurd ?_ hrole⟩
      rw [hlook] at hpeer
      exact Option.some.inj hpeer ▸ hsame

theorem rooms_conserved_pair : ∃ s : RoomRun,
    s.rooms.activeRooms = ["r"] ∧ s.matched = [(0, 1)] ∧ s.Conserved 1 := by
  obtain ⟨s, hs, hm⟩ := Lts.Reach.exists_of_run (step 1) {}
    [.pair "r#0" "r" ⟨.sender, 0⟩ false, .pair "r#0" "r" ⟨.receiver, 1⟩ false]
    (fun s => s.rooms.activeRooms = ["r"] ∧ s.matched = [(0, 1)]) (by decide)
  obtain ⟨hactive, hmatched⟩ := of_decide_eq_true hm
  exact ⟨s, hactive, hmatched, (rooms_conserved hs).1⟩

end RoomRun

end Kiko.RelayRace
