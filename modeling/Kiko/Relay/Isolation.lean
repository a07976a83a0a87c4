import Kiko.Relay.Hello

/-!
# What one room sees of another

A run of the relay and the same run without the operations on one room: what the clients of
another room are told is the same (`Isolated`), as long as nobody is refused for want of
capacity. The rooms share a state, and the relay keeps them apart by their keys. What it holds
for a pair at work is the room up to a `#`, and so is all that a room can see of the run
(`RoomRun.view`): `rooms_isolated_iff` is the exact condition.

Isolation compares two runs, so it is no invariant of one. The two are kept in step operation
by operation, with those on the other room left out of the second, and what is preserved is
that a room's view of both is the same. Capacity is the one thing all rooms share, and a
client that is refused for it learns that others are there; the statement leaves such runs out
and says so.
-/

set_option autoImplicit false

namespace Kiko.RelayRace

/-! ## Two runs

An answer is all that a client sees. Operations are told apart by the room they are on, and
the handler's end is on the room its hello named. -/

/-- An operation, and what a client is told by it. -/
def RoomRun.handle (config : RelayServerConfig) (s : RoomRun) (op : RelayOp) :
    RoomRun × Option RelayRoomPairing :=
  match op.roomOp config with
  | none => (s, none)
  | some roomOp => s.apply config.maxWaitingPeers roomOp

/-- What the clients are told, operation by operation. -/
def RoomRun.answers (config : RelayServerConfig) :
    RoomRun → List RelayOp → List (RelayOp × Option RelayRoomPairing)
  | _, [] => []
  | s, op :: ops => (op, (s.handle config op).2) :: answers config (s.handle config op).1 ops

/-- The room that a hello names. -/
def helloRoom (message : Message) : Option String := (decodeRelayHello message).toOption.map (·.room)

namespace RelayOp

/-- The operation is a hello to the room. -/
def greets (room : String) : RelayOp → Bool
  | .hello _ message => helloRoom message = some room
  | _ => false

def conn? : RelayOp → Option Nat
  | .hello conn _ => some conn
  | _ => none

/-- The operation is one on the room: a hello to it, or the end of a handler of one. -/
def isOn (ops : List RelayOp) (room : String) (op : RelayOp) : Bool :=
  op.greets room ||
    match op with
    | .release conn => ops.any fun op => op.conn? = some conn && op.greets room
    | _ => false

end RelayOp

/-- What the clients of `room` are told does not depend on the operations on `other`. -/
def Isolated (room other : String) : Prop :=
  ∀ (config : RelayServerConfig) (ops : List RelayOp), (ops.filterMap (·.conn?)).Nodup →
    let without := ops.filter fun op => !op.isOn ops other
    (∀ e ∈ RoomRun.answers config {} ops, e.2 ≠ some .capacityFull) →
    (∀ e ∈ RoomRun.answers config {} without, e.2 ≠ some .capacityFull) →
    (RoomRun.answers config {} ops).filter (·.1.greets room) =
      (RoomRun.answers config {} without).filter (·.1.greets room)

/-! ## What a room can see

The view is under one base, the part of a key up to its first `#`. A pairing under another
base does not touch it, and one under the same base acts on the view alone. -/

/-- The part of the state that is under the keys of one base. -/
@[ext] structure RoomView where
  waiting : List (String × RelayWaitingPeer)
  active : Bool
  claims : List (Nat × String)
deriving DecidableEq, Repr

/-- What a pairing under the base does to the view, by its answer. -/
def RoomView.settle (v : RoomView) (base matchKey : String) (self : RelayWaitingPeer)
    (auxiliary : Bool) : RelayRoomPairing → RoomView
  | .waiting => { v with waiting := v.waiting ++ [(matchKey, self)] }
  | .matched _ =>
    { waiting := v.waiting.filter fun entry => entry.1 ≠ matchKey
      active := !auxiliary || v.active
      claims := if auxiliary then v.claims else (self.conn, base) :: v.claims }
  | .roomFull | .capacityFull => v

namespace RoomRun

def view (base : String) (s : RoomRun) : RoomView where
  waiting := s.rooms.waiting.filter fun entry => relayRoomBase entry.1 = base
  active := s.rooms.activeRooms.contains base
  claims := s.claims.filter fun claim => claim.2 = base

variable {s t : RoomRun} {base : String} {maxWaitingPeers : Nat} {matchKey : String}
  {self : RelayWaitingPeer} {auxiliary : Bool}

/-- What is under another base is not touched. -/
theorem view_pair_other (h : relayRoomBase matchKey ≠ base) :
    (s.apply maxWaitingPeers (.pair matchKey (relayRoomBase matchKey) self auxiliary)).1.view base =
      s.view base := by
  obtain ⟨st, result, hpair⟩ : ∃ st result, s.rooms.pairOrWait maxWaitingPeers matchKey
      (relayRoomBase matchKey) self auxiliary = (st, result) := ⟨_, _, rfl⟩
  simp only [apply, hpair]
  obtain ⟨rfl, rfl | rfl⟩ | ⟨-, -, -, rfl, rfl⟩ | ⟨peer, -, -, -, rfl, rfl⟩ := pairOrWait_cases hpair
  · rfl
  · rfl
  · simp [view, settle, h]
  · have hwaiting : (s.rooms.waiting.filter fun entry => entry.1 ≠ matchKey).filter
        (fun entry => relayRoomBase entry.1 = base) =
        s.rooms.waiting.filter fun entry => relayRoomBase entry.1 = base := by
      rw [List.filter_filter]
      refine List.filter_congr fun entry _ => ?_
      by_cases hbase : relayRoomBase entry.1 = base
      · have : entry.1 ≠ matchKey := fun heq => h (heq ▸ hbase)
        simp [this]
      · simp [hbase]
    refine RoomView.ext hwaiting ?_ ?_
    · cases auxiliary
      · simp [view, settle, Ne.symm h]
      · rfl
    · cases auxiliary
      · simp [view, settle, h]
      · rfl

/-- What is under the base changes by the answer. -/
theorem view_pair (h : relayRoomBase matchKey = base) :
    (s.apply maxWaitingPeers (.pair matchKey base self auxiliary)).1.view base =
      (s.view base).settle base matchKey self auxiliary
        (s.rooms.pairOrWait maxWaitingPeers matchKey base self auxiliary).2 := by
  obtain ⟨st, result, hpair⟩ : ∃ st result, s.rooms.pairOrWait maxWaitingPeers matchKey
      base self auxiliary = (st, result) := ⟨_, _, rfl⟩
  simp only [apply, hpair]
  obtain ⟨rfl, rfl | rfl⟩ | ⟨-, -, -, rfl, rfl⟩ | ⟨peer, -, -, -, rfl, rfl⟩ := pairOrWait_cases hpair
  · rfl
  · rfl
  · simp [view, settle, RoomView.settle, h]
  · refine RoomView.ext ?_ ?_ ?_
    · exact List.filter_comm ..
    · cases auxiliary
      · simp [view, settle, RoomView.settle]
      · rfl
    · cases auxiliary
      · simp [view, settle, RoomView.settle]
      · rfl

/-- The answer to a pairing under the base is in the view, unless it is a matter of capacity. -/
theorem answer_eq_of_view (hview : s.view base = t.view base) (h : relayRoomBase matchKey = base)
    (hs : (s.rooms.pairOrWait maxWaitingPeers matchKey base self auxiliary).2 ≠ .capacityFull)
    (ht : (t.rooms.pairOrWait maxWaitingPeers matchKey base self auxiliary).2 ≠ .capacityFull) :
    (s.rooms.pairOrWait maxWaitingPeers matchKey base self auxiliary).2 =
      (t.rooms.pairOrWait maxWaitingPeers matchKey base self auxiliary).2 := by
  have hlookup (s : RoomRun) : s.rooms.waiting.lookup matchKey = (s.view base).waiting.lookup matchKey := by
    unfold view
    induction s.rooms.waiting with
    | nil => rfl
    | cons entry rest ih =>
      obtain ⟨key, peer⟩ := entry
      by_cases hkey : matchKey = key
      · subst hkey
        simp [h]
      · have hne : (matchKey == key) = false := beq_false_of_ne hkey
        by_cases hbase : relayRoomBase key = base
        · simpa [hbase, List.lookup_cons, hne] using ih
        · simpa [hbase, List.lookup_cons, hne] using ih
  have hactive : s.rooms.activeRooms.contains base = t.rooms.activeRooms.contains base :=
    congrArg RoomView.active hview
  have hlook : s.rooms.waiting.lookup matchKey = t.rooms.waiting.lookup matchKey := by
    rw [hlookup s, hlookup t, hview]
  unfold RelayRoomState.pairOrWait at hs ht ⊢
  rw [← hactive, ← hlook] at ht ⊢
  by_cases hfull : (!auxiliary && s.rooms.activeRooms.contains base) = true
  · rw [if_pos hfull, if_pos hfull]
  rw [if_neg hfull] at hs ht ⊢
  rw [if_neg hfull]
  cases hpeer : s.rooms.waiting.lookup matchKey with
  | none =>
    simp only [hpeer] at hs ht ⊢
    by_cases hcap : maxWaitingPeers ≤ s.rooms.waiting.length
    · exact absurd (by rw [if_pos hcap]) hs
    by_cases hcap' : maxWaitingPeers ≤ t.rooms.waiting.length
    · exact absurd (by rw [if_pos hcap']) ht
    rw [if_neg hcap, if_neg hcap']
  | some peer =>
    simp only
    by_cases hrole : peer.role = self.role
    · rw [if_pos hrole, if_pos hrole]
    · rw [if_neg hrole, if_neg hrole]

theorem view_release (hview : s.view base = t.view base) (conn : Nat) :
    (s.release conn).view base = (t.release conn).view base := by
  have hactive (s : RoomRun) : (s.release conn).rooms.activeRooms.contains base =
      ((s.view base).active && decide ((conn, base) ∉ (s.view base).claims)) := by
    rw [Bool.eq_iff_iff]
    simp [mem_activeRooms_release, view]
  refine RoomView.ext ?_ ?_ ?_
  · show (s.release conn).rooms.waiting.filter _ = (t.release conn).rooms.waiting.filter _
    rw [waiting_release, waiting_release]
    exact congrArg RoomView.waiting hview
  · show (s.release conn).rooms.activeRooms.contains base = (t.release conn).rooms.activeRooms.contains base
    rw [hactive, hactive, hview]
  · have hclaims (s : RoomRun) : ((s.release conn).view base).claims =
        (s.view base).claims.filter fun claim => claim.1 ≠ conn := List.filter_comm ..
    rw [hclaims, hclaims, hview]

/-- The end of a handler that has claimed nothing under the base is not seen. -/
theorem view_release_other {conn : Nat} (h : (conn, base) ∉ s.claims) :
    (s.release conn).view base = s.view base := by
  refine RoomView.ext ?_ ?_ ?_
  · show (s.release conn).rooms.waiting.filter _ = s.rooms.waiting.filter _
    rw [waiting_release]
  · show (s.release conn).rooms.activeRooms.contains base = s.rooms.activeRooms.contains base
    rw [Bool.eq_iff_iff]
    simp [mem_activeRooms_release, h]
  · show (s.claims.filter _).filter _ = s.claims.filter _
    rw [List.filter_filter]
    refine List.filter_congr fun claim hclaim => ?_
    obtain ⟨c, room⟩ := claim
    by_cases hroom : room = base
    · have : c ≠ conn := fun heq => h (heq ▸ hroom ▸ hclaim)
      simp [hroom, this]
    · simp [hroom]

theorem view_purge (hview : s.view base = t.view base) (stale : List Nat) :
    (s.apply maxWaitingPeers (.purge stale)).1.view base =
      (t.apply maxWaitingPeers (.purge stale)).1.view base := by
  have hwaiting (s : RoomRun) : ((s.apply maxWaitingPeers (.purge stale)).1.view base).waiting =
      (s.view base).waiting.filter fun entry => entry.2.conn ∉ stale := List.filter_comm ..
  have hactive : (s.view base).active = (t.view base).active := by rw [hview]
  have hclaims : (s.view base).claims = (t.view base).claims := by rw [hview]
  refine RoomView.ext ?_ hactive hclaims
  rw [hwaiting, hwaiting, hview]

theorem view_close (hview : s.view base = t.view base) :
    (s.apply maxWaitingPeers .close).1.view base = (t.apply maxWaitingPeers .close).1.view base := by
  have hactive : (s.view base).active = (t.view base).active := by rw [hview]
  have hclaims : (s.view base).claims = (t.view base).claims := by rw [hview]
  exact RoomView.ext rfl hactive hclaims

/-! ## One operation in two runs -/

/-- Every claim was granted for an accepted hello of the operations. -/
def Owned (config : RelayServerConfig) (ops : List RelayOp) (s : RoomRun) : Prop :=
  ∀ claim ∈ s.claims, ∃ message hello, .hello claim.1 message ∈ ops ∧
    acceptHello config message = some hello ∧ claim.2 = relayRoomBase hello.room

variable {config : RelayServerConfig} {ops : List RelayOp} {op : RelayOp} {conn : Nat}
  {message : Message} {hello : RelayHello}

theorem handle_hello (h : acceptHello config message = some hello) :
    s.handle config (.hello conn message) =
      s.apply config.maxWaitingPeers
        (.pair hello.matchKey (relayRoomBase hello.matchKey) ⟨hello.role, conn⟩ hello.auxiliary) := by
  simp only [handle, RelayOp.roomOp, h, Option.map_some]

theorem handle_refused (h : acceptHello config message = none) :
    s.handle config (.hello conn message) = (s, none) := by
  simp only [handle, RelayOp.roomOp, h, Option.map_none]

theorem Owned.handle (h : s.Owned config ops) (hop : op ∈ ops) : (s.handle config op).1.Owned config ops := by
  cases op with
  | hello conn message =>
    cases haccept : acceptHello config message with
    | none =>
      rw [handle_refused haccept]
      exact h
    | some hello =>
      rw [handle_hello haccept]
      intro claim hclaim
      have hnew : claim ∈ s.claims ∨ claim = (conn, relayRoomBase hello.matchKey) := by
        obtain ⟨st, result, hpair⟩ : ∃ st result, s.rooms.pairOrWait config.maxWaitingPeers
            hello.matchKey (relayRoomBase hello.matchKey) ⟨hello.role, conn⟩ hello.auxiliary =
              (st, result) := ⟨_, _, rfl⟩
        simp only [apply, hpair] at hclaim
        cases result with
        | matched peer =>
          simp only [settle] at hclaim
          by_cases haux : hello.auxiliary = true
          · rw [if_pos haux] at hclaim
            exact .inl hclaim
          · rw [if_neg haux] at hclaim
            exact (List.mem_cons.mp hclaim).symm
        | _ => exact .inl hclaim
      obtain hold | rfl := hnew
      · exact h claim hold
      · exact ⟨message, hello, hop, haccept, relayRoomBase_matchKey hello⟩
  | release conn => exact fun claim hclaim => h claim (List.mem_filter.mp hclaim).1
  | purge stale => exact h
  | close => exact h

theorem view_hello_other (haccept : acceptHello config message = some hello)
    (h : relayRoomBase hello.room ≠ base) :
    (s.handle config (.hello conn message)).1.view base = s.view base := by
  rw [handle_hello haccept]
  exact view_pair_other (relayRoomBase_matchKey hello ▸ h)

/-- An operation that both runs have does the same to what a room sees. -/
theorem view_handle (hview : s.view base = t.view base)
    (hs : (s.handle config op).2 ≠ some .capacityFull)
    (ht : (t.handle config op).2 ≠ some .capacityFull) :
    (s.handle config op).1.view base = (t.handle config op).1.view base ∧
      ∀ room, relayRoomBase room = base → op.greets room = true →
        (s.handle config op).2 = (t.handle config op).2 := by
  cases op with
  | hello conn message =>
    cases haccept : acceptHello config message with
    | none =>
      rw [handle_refused haccept, handle_refused haccept]
      exact ⟨hview, fun _ _ _ => rfl⟩
    | some hello =>
      by_cases hbase : relayRoomBase hello.room = base
      · have hkey : relayRoomBase hello.matchKey = base := (relayRoomBase_matchKey hello).trans hbase
        rw [handle_hello haccept, hkey] at hs ht ⊢
        rw [handle_hello haccept, hkey]
        have hanswer := answer_eq_of_view hview hkey (fun h => hs (congrArg some h))
          (fun h => ht (congrArg some h))
        refine ⟨?_, fun _ _ _ => congrArg some hanswer⟩
        rw [view_pair hkey, view_pair hkey, hview, hanswer]
      · rw [view_hello_other haccept hbase, view_hello_other haccept hbase]
        refine ⟨hview, fun room hroom hgreets => absurd ?_ hbase⟩
        have hsame : hello.room = room := by
          simpa [RelayOp.greets, helloRoom, acceptHello_ok haccept, Except.toOption] using hgreets
        exact hsame ▸ hroom
  | release conn => exact ⟨view_release hview conn, fun _ _ h => absurd h (by simp [RelayOp.greets])⟩
  | purge stale => exact ⟨@view_purge s t base config.maxWaitingPeers hview stale, fun _ _ h => absurd h (by simp [RelayOp.greets])⟩
  | close => exact ⟨@view_close s t base config.maxWaitingPeers hview, fun _ _ h => absurd h (by simp [RelayOp.greets])⟩

end RoomRun

/-! ## Isolation

Rooms of one base see each other: the counterexample of the other direction is two such rooms
with a pair at work in one of them. -/

/-- A connection says one hello. -/
theorem RelayOp.hello_unique {ops : List RelayOp} (h : (ops.filterMap (·.conn?)).Nodup) {conn : Nat}
    {message message' : Message} (hm : .hello conn message ∈ ops) (hm' : .hello conn message' ∈ ops) :
    message = message' := by
  by_contra hne
  have hpair := (List.pairwise_filterMap.mp h).imp fun {op op'} hop =>
    show ∀ c, op.conn? = some c → op'.conn? ≠ some c from fun c hc hc' => hop c hc c hc' rfl
  have : Std.Symm fun op op' : RelayOp => ∀ c, op.conn? = some c → op'.conn? ≠ some c :=
    ⟨fun op op' hop c hc hc' => hop c hc' hc⟩
  exact hpair.forall hm hm' (fun heq => hne (RelayOp.hello.inj heq).2) conn rfl rfl

theorem helloRoom_accepted {config : RelayServerConfig} {message : Message} {hello : RelayHello}
    (h : acceptHello config message = some hello) : helloRoom message = some hello.room := by
  simp [helloRoom, acceptHello_ok h, Except.toOption]

/-- An operation on a room is not one on a room of another base, and that one does not see it. -/
theorem unseen_of_isOn {config : RelayServerConfig} {room other : String} {all : List RelayOp}
    (hunique : (all.filterMap (·.conn?)).Nodup) (hbase : relayRoomBase room ≠ relayRoomBase other)
    {op : RelayOp} (hon : op.isOn all other = true) {s : RoomRun} (howned : s.Owned config all) :
    op.greets room = false ∧
      (s.handle config op).1.view (relayRoomBase room) = s.view (relayRoomBase room) := by
  cases op with
  | hello conn message =>
    have hroom : helloRoom message = some other := by simpa [RelayOp.isOn, RelayOp.greets] using hon
    refine ⟨?_, ?_⟩
    · have hne : other ≠ room := fun heq => hbase (heq ▸ rfl)
      simp [RelayOp.greets, hroom, hne]
    · cases haccept : acceptHello config message with
      | none => rw [RoomRun.handle_refused haccept]
      | some hello =>
        have hsame : hello.room = other := by
          rw [helloRoom_accepted haccept] at hroom
          exact Option.some.inj hroom
        exact RoomRun.view_hello_other haccept (hsame ▸ hbase.symm)
  | release conn =>
    refine ⟨rfl, RoomRun.view_release_other fun hclaim => ?_⟩
    -- the handler's hello was to the other room, and to no room of this base
    obtain ⟨message, hello, hmem, haccept, hheld⟩ := howned _ hclaim
    have hany : ∃ op ∈ all, op.conn? = some conn ∧ op.greets other = true := by
      simpa [RelayOp.isOn, RelayOp.greets] using hon
    obtain ⟨op, hop, hconn, hgreets⟩ := hany
    cases op with
    | hello conn' message' =>
      obtain rfl : conn' = conn := Option.some.inj hconn
      obtain rfl := RelayOp.hello_unique hunique hmem hop
      have hroom : helloRoom message = some other := by simpa [RelayOp.greets] using hgreets
      rw [helloRoom_accepted haccept] at hroom
      exact hbase (hheld.trans (congrArg relayRoomBase (Option.some.inj hroom)))
    | _ => cases hconn
  | _ => simp [RelayOp.isOn, RelayOp.greets] at hon

/-- From states that look alike to a room, it is told alike. -/
theorem answers_eq_of_view {config : RelayServerConfig} {room other : String} {all : List RelayOp}
    (hunique : (all.filterMap (·.conn?)).Nodup) (hbase : relayRoomBase room ≠ relayRoomBase other)
    {ops : List RelayOp} (hops : ∀ op ∈ ops, op ∈ all) {s t : RoomRun} (howned : s.Owned config all)
    (hview : s.view (relayRoomBase room) = t.view (relayRoomBase room))
    (hs : ∀ e ∈ s.answers config ops, e.2 ≠ some .capacityFull)
    (ht : ∀ e ∈ t.answers config (ops.filter fun op => !op.isOn all other), e.2 ≠ some .capacityFull) :
    (s.answers config ops).filter (·.1.greets room) =
      (t.answers config (ops.filter fun op => !op.isOn all other)).filter (·.1.greets room) := by
  induction ops generalizing s t with
  | nil => rfl
  | cons op ops ih =>
    have hop := hops op List.mem_cons_self
    have hrest : ∀ op' ∈ ops, op' ∈ all := fun op' h => hops op' (List.mem_cons_of_mem _ h)
    have hsrest : ∀ e ∈ (s.handle config op).1.answers config ops, e.2 ≠ some .capacityFull :=
      fun e he => hs e (List.mem_cons_of_mem _ he)
    by_cases hon : op.isOn all other = true
    · -- only the first run has the operation
      rw [List.filter_cons_of_neg (by simp [hon])] at ht ⊢
      obtain ⟨hgreets, hunseen⟩ := unseen_of_isOn hunique hbase hon howned
      rw [RoomRun.answers, List.filter_cons_of_neg (by simp [hgreets])]
      exact ih hrest (howned.handle hop) (hunseen.trans hview) hsrest ht
    · rw [List.filter_cons_of_pos (by simp [hon])] at ht ⊢
      obtain ⟨hview', hanswer⟩ := RoomRun.view_handle hview (hs _ List.mem_cons_self) (ht _ List.mem_cons_self)
      have htail := ih hrest (howned.handle hop) hview' hsrest fun e he => ht e (List.mem_cons_of_mem _ he)
      rw [RoomRun.answers, RoomRun.answers, List.filter_cons, List.filter_cons, htail]
      by_cases hgreets : op.greets room = true
      · rw [hanswer room rfl hgreets]
      · rw [if_neg hgreets, if_neg hgreets]

theorem acceptHello_saying {room role : String} {r : Role} (hroom : room ≠ "")
    (hrole : decodeRole role = .ok r) : ∃ hello, acceptHello {} (saying room role) = some hello ∧
      hello.room = room ∧ hello.role = r ∧ hello.connIndex = 0 ∧ hello.auxiliary = false := by
  have hget (key fallback : String) : (saying room role).get key fallback =
      if key = "room" then room else if key = "role" then role else if key = "aux" then "" else fallback := by
    by_cases h₁ : key = "room"
    · simp [saying, Message.get, h₁]
    by_cases h₂ : key = "role"
    · simp [saying, Message.get, List.lookup_cons, h₂]
    by_cases h₃ : key = "aux"
    · simp [saying, Message.get, List.lookup_cons, h₃]
    · simp [saying, Message.get, List.lookup_cons, beq_false_of_ne, h₁, h₂, h₃]
  have hport (key : String) (h : key ≠ "room" ∧ key ≠ "role" ∧ key ≠ "aux") :
      (saying room role).portField key true = .ok none := by
    simp [Message.portField, hget, h]
  have hnum (key : String) (n : Nat) (h : key ≠ "room" ∧ key ≠ "role" ∧ key ≠ "aux") :
      (saying room role).getU64 key n = .ok n := by
    simp [Message.getU64, hget, h]
  have hcsv : splitCsv "" = [] := by decide
  refine ⟨⟨room, r, 0, ⟨"", 0⟩, ⟨"", 0⟩, 0, 0, 1, false, false, [], "", "", none, []⟩, ?_, rfl, rfl, rfl, rfl⟩
  simp [acceptHello, relayPasswordOk, decodeRelayHello, hget, hroom, hrole, hport, hnum, hcsv,
    validateConnectionCount, maxRelayConnections, bind, Except.bind, pure, Except.pure,
    Except.toOption]
  simp [saying, helloFields]

/-- A pair at work in one room, and a client of another room of the same base: it is sent away,
    and would wait if the pair were not there. -/
theorem not_isolated {room other : String} (hroom : room ≠ "") (hother : other ≠ "")
    (hne : room ≠ other) (hbase : relayRoomBase room = relayRoomBase other) : ¬ Isolated room other := by
  intro h
  obtain ⟨h₀, ha₀, hr₀, hs₀, hi₀, hx₀⟩ := acceptHello_saying hother (show decodeRole "sender" = .ok .sender from rfl)
  obtain ⟨h₁, ha₁, hr₁, hs₁, hi₁, hx₁⟩ :=
    acceptHello_saying hother (show decodeRole "receiver" = .ok .receiver from rfl)
  obtain ⟨h₂, ha₂, hr₂, hs₂, hi₂, hx₂⟩ := acceptHello_saying hroom (show decodeRole "sender" = .ok .sender from rfl)
  have hkey : h₁.matchKey = h₀.matchKey := by simp [RelayHello.matchKey, hr₀, hr₁, hi₀, hi₁]
  have hheld : relayRoomBase h₂.matchKey = relayRoomBase h₀.matchKey := by
    rw [relayRoomBase_matchKey, relayRoomBase_matchKey, hr₂, hr₀, hbase]
  let op₂ : RelayOp := .hello 2 (saying room "sender")
  let ops : List RelayOp :=
    [.hello 0 (saying other "sender"), .hello 1 (saying other "receiver"), op₂]
  have hwith : RoomRun.answers {} {} ops =
      [(.hello 0 (saying other "sender"), some .waiting),
        (.hello 1 (saying other "receiver"), some (.matched ⟨.sender, 0⟩)), (op₂, some .roomFull)] := by
    simp [ops, op₂, RoomRun.answers, RoomRun.handle_hello ha₀, RoomRun.handle_hello ha₁,
      RoomRun.handle_hello ha₂, RoomRun.apply, RoomRun.settle, RelayRoomState.pairOrWait, hkey, hheld,
      hs₀, hs₁, hx₀, hx₁, hx₂]
  have hfilter : ops.filter (fun op => !op.isOn ops other) = [op₂] := by
    have hroom₀ := helloRoom_accepted ha₀
    have hroom₁ := helloRoom_accepted ha₁
    have hroom₂ := helloRoom_accepted ha₂
    simp [ops, op₂, RelayOp.isOn, RelayOp.greets, hroom₀, hroom₁, hroom₂, hr₀, hr₁, hr₂, hne]
  have hwithout : RoomRun.answers {} {} [op₂] = [(op₂, some .waiting)] := by
    simp [op₂, RoomRun.answers, RoomRun.handle_hello ha₂, RoomRun.apply, RoomRun.settle,
      RelayRoomState.pairOrWait]
  have hgreets : op₂.greets room = true := by
    simp [op₂, RelayOp.greets, helloRoom_accepted ha₂, hr₂]
  have hgreets₀ : (RelayOp.hello 0 (saying other "sender")).greets room = false := by
    simp [RelayOp.greets, helloRoom_accepted ha₀, hr₀, hne.symm]
  have hgreets₁ : (RelayOp.hello 1 (saying other "receiver")).greets room = false := by
    simp [RelayOp.greets, helloRoom_accepted ha₁, hr₁, hne.symm]
  have hanswers := h {} ops (by simp [ops, op₂, RelayOp.conn?]) (by simp [hwith]) (by
    rw [hfilter, hwithout]
    simp)
  rw [hwith, hfilter, hwithout] at hanswers
  simp [hgreets, hgreets₀, hgreets₁] at hanswers

/-- **Rooms are isolated when their bases differ.** -/
theorem rooms_isolated_iff {room other : String} (hroom : room ≠ "") (hother : other ≠ "")
    (hne : room ≠ other) : Isolated room other ↔ relayRoomBase room ≠ relayRoomBase other := by
  constructor
  · exact fun h hbase => not_isolated hroom hother hne hbase h
  · intro hbase config ops hunique without hs ht
    exact answers_eq_of_view hunique hbase (fun _ hop => hop) (by simp [RoomRun.Owned]) rfl hs ht

theorem rooms_isolated_iff_plain : Isolated "a" "b" ↔ relayRoomBase "a" ≠ relayRoomBase "b" :=
  rooms_isolated_iff (by decide) (by decide) (by decide)

/-- A room is the other one, a `#` and more. -/
theorem hash_rooms_share : ¬ ∀ room other : String,
    room ≠ "" → other ≠ "" → room ≠ other → Isolated room other := by
  intro h
  have hne : "a#b" ≠ "a" := by decide
  exact not_isolated (by decide) (by decide) hne (by decide) (h "a#b" "a" (by decide) (by decide) hne)

end Kiko.RelayRace
