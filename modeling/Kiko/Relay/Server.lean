import Kiko.Relay.Meeting
import Kiko.Relay.RouteState
import Kiko.Transfer.ConnectionCount

/-!
# The relay as a server (`relay/relay_server`)

`BackgroundRelay` accepts clients in one thread and hands each of them to a thread of its own, up to
a limit; one more thread purges the peers that have waited too long. A client's thread
(`handle_client`) reads a hello, registers it with the rooms and, where the peer is there,
introduces the two, waits for their route decision and pipes their bytes.

```
  reading ──> greeted ──> purged ──> pairing ──> introducing ──> deciding ──> answering ──> piping
     │                                  │             │              │            │            │
     └──────────> closing <─────────────┘             └──────────> leaving <──────┴────────────┘
                     └──> done                                       └──> closing
```

All threads move in any order, and so does whoever calls `start` and `stop`. Every socket that was
accepted is with one of them, or waits in a room, or is closed, and never in two places; every
thread that was started runs or is joined. So a relay that was stopped has left nothing behind.

Sockets are identified by the accept that made them and are never copied, so "who holds it" has one
answer, and the invariant is a sum: those in the hands of threads, those that wait, those that are
closed are together all there were. A thread that throws closes what it holds on its way out; the
model has that way out for each of its places.
-/

set_option autoImplicit false

namespace Kiko.RelayServer

open RelayRace Transfer

/-! ## The state

The rooms are those of `Kiko.Relay.Rooms`, used through the same operations. Beside them there are
the threads, each with its program counter. -/

/-- What a relay is started with, and what its sockets say of the other end. -/
structure Setup where
  config : RelayServerConfig := {}
  maxClientWorkers : Nat := 128
  /-- `kVersion` -/
  version : String
  peerEndpoint : Nat → Endpoint

/-- The limit in `start_client_worker`. -/
def Setup.limit (setup : Setup) : Nat :=
  if setup.maxClientWorkers = 0 then 1 else setup.maxClientWorkers

/-- Where a client's thread stands. -/
inductive ClientPc
  /-- a frame is read, the one behind a `ping` or the first -/
  | reading (pinged : Bool)
  | greeted (hello : RelayHello)
  /-- peers have been purged, their sockets are to be closed -/
  | purged (hello : RelayHello) (gone : List Nat)
  | pairing (hello : RelayHello)
  | introducing (other : Nat)
  | deciding (other : Nat) (first second : RelayRouteChoice)
  | answering (other : Nat) (decision : RelayRouteDecision)
  | piping (other : Nat)
  /-- the pair is over: its room is next, then what is left of its sockets -/
  | leaving (held : List Nat)
  | closing (held : List Nat)
  /-- `done` is set -/
  | done
deriving DecidableEq, Repr

/-- `RelayClientWorker`. -/
structure RelayClientWorker where
  conn : Nat
  pc : ClientPc := .reading false
  cancel : Bool := false
deriving DecidableEq, Repr

/-- What the threads share. -/
structure Hall where
  rooms : RoomRun := {}
  /-- what the clients that were registered have said -/
  hellos : List (Nat × RelayHello) := []
  /-- history: the sockets that were closed -/
  closed : List Nat := []
  /-- history: what was sent, and on which connection -/
  sent : List (Nat × Message) := []
deriving DecidableEq, Repr

/-- Where `accept_loop` stands. -/
inductive AcceptPc
  | head
  | accepting
  | starting (conn : Nat)
  | refusing (conn : Nat)
  | ended
deriving DecidableEq, Repr

/-- Where `stop` stands. -/
inductive StopPc
  | idle
  | joiningAccept
  | closingWaiting (gone : List Nat)
  /-- the next worker that is canceled and interrupted -/
  | interrupting (next : Nat)
  | joining
deriving DecidableEq, Repr

/-- `BackgroundRelay`, with its threads. -/
structure BackgroundRelay where
  /-- there is an `impl_` -/
  alive : Bool := false
  running : Bool := false
  stop : Bool := false
  failure : Option KikoError := none
  hall : Hall := {}
  accept : AcceptPc := .ended
  workers : List RelayClientWorker := []
  /-- the sockets that the cleanup thread is about to close -/
  cleanup : List Nat := []
  control : StopPc := .idle
  /-- history: the clients that were accepted -/
  accepted : List Nat := []
  /-- history: the clients whose threads were started, and those whose threads were joined -/
  started : List Nat := []
  joined : List Nat := []
deriving DecidableEq, Repr

/-! ## `handle_client`

A place for each call that can block or fail. What a read brings and whether a send succeeds is in
the label. -/

/-- What comes of a read. -/
inductive Got
  | nothing
  | message (m : Message)
  | closed
  | failed
deriving DecidableEq, Repr

inductive ClientLabel
  /-- a read, and whether an answer can be sent -/
  | read (got : Got) (ok : Bool)
  | purge (stale : List Nat)
  /-- the purged sockets are closed; those in `told` could be told before -/
  | closePurged (told : List Nat)
  | pair (ok : Bool)
  | introduce (now : Nat) (ok₁ ok₂ : Bool)
  | poll (got₁ got₂ : Got)
  | expire
  | answer (ok₁ ok₂ : Bool)
  | pipeEnds
  | release
  | close
deriving DecidableEq, Repr

namespace Hall

/-- `send_message`, where it can be sent. -/
def tell (h : Hall) (ok : Bool) (conn : Nat) (m : Message) : Hall :=
  if ok then { h with sent := h.sent ++ [(conn, m)] } else h

/-- Sockets are closed. -/
def close (h : Hall) (conns : List Nat) : Hall := { h with closed := h.closed ++ conns }

/-- The first half of `purge_stale_waiting`: stale peers leave the rooms. -/
def purge (h : Hall) (setup : Setup) (stale : List Nat) : Hall × List Nat :=
  ({ h with rooms := (h.rooms.apply setup.config.maxWaitingPeers (.purge stale)).1 },
    (h.rooms.rooms.waiting.filter fun entry => entry.2.conn ∈ stale).map (·.2.conn))

/-- The second half: they are told, and closed. -/
def closePurged (h : Hall) (gone told : List Nat) : Hall :=
  { h with
    closed := h.closed ++ gone
    sent := h.sent ++
      (gone.filter (· ∈ told)).map fun conn => (conn, rejectMessage "room_expired") }

end Hall

/-- What is made of the frame that was read. -/
def onFirst (setup : Setup) (conn : Nat) (pinged cancel ok : Bool) (got : Got) (h : Hall) :
    ClientPc × Hall :=
  match got with
  | .message m =>
    if cancel then (.closing [conn], h)
    else if m.type = "ping" ∧ pinged = false then
      (if ok then .reading true else .closing [conn],
        h.tell ok conn { type := "pong", fields := [("version", setup.version)] })
    else if m.type = "punch_probe" then
      (.closing [conn], h.tell ok conn
        (if relayPasswordOk setup.config m then
          { type := "punch_observed"
            fields := [("public_host", (setup.peerEndpoint conn).host),
              ("public_port", toString (setup.peerEndpoint conn).port)] }
        else rejectMessage "bad_password"))
    else if m.type ≠ "hello" then (.closing [conn], h)
    else if !relayPasswordOk setup.config m then
      (.closing [conn], h.tell ok conn (rejectMessage "bad_password"))
    else
      match decodeRelayHello m with
      | .error _ => (.closing [conn], h.tell ok conn (rejectMessage "invalid_hello"))
      | .ok hello => (.greeted hello, h)
  | _ => (.closing [conn], h)

/-- `pair_or_wait`, and what is made of its answer. -/
def onPair (setup : Setup) (conn : Nat) (ok : Bool) (hello : RelayHello) (h : Hall) :
    ClientPc × Hall :=
  let room := relayRoomBase hello.matchKey
  let self : RelayRace.RelayWaitingPeer := ⟨hello.role, conn⟩
  let pairing := (h.rooms.rooms.pairOrWait setup.config.maxWaitingPeers hello.matchKey room self
    hello.auxiliary).2
  let h' : Hall :=
    { h with
      rooms := (h.rooms.apply setup.config.maxWaitingPeers
        (.pair hello.matchKey room self hello.auxiliary)).1
      hellos := h.hellos ++ [(conn, hello)] }
  match pairing with
  | .waiting => (.closing [], h')
  | .roomFull => (.closing [conn], h'.tell ok conn (rejectMessage "room_full"))
  | .capacityFull => (.closing [conn], h'.tell ok conn (rejectMessage "server_busy"))
  | .matched peer => (if hello.auxiliary then .piping peer.conn else .introducing peer.conn, h')

/-- Two messages, the second where the first could be sent; whether both could. -/
def Hall.tellBoth (h : Hall) (ok₁ ok₂ : Bool) (conn₁ conn₂ : Nat) (m₁ m₂ : Message) :
    Hall × Bool :=
  ((h.tell ok₁ conn₁ m₁).tell (ok₁ && ok₂) conn₂ m₂, ok₁ && ok₂)

/-- `send_peer_messages`. -/
def onIntroduce (setup : Setup) (conn other now : Nat) (ok₁ ok₂ : Bool) (h : Hall) :
    Option (ClientPc × Hall) := do
  let self ← h.hellos.lookup conn
  let peer ← h.hellos.lookup other
  let a := waitingPeer peer (setup.peerEndpoint other)
  let b := waitingPeer self (setup.peerEndpoint conn)
  let punchToken := toString (now + 250)
  match peerMessageFor a b punchToken, peerMessageFor b a punchToken with
  | .ok m₁, .ok m₂ =>
    let (h, sent) := h.tellBoth ok₁ ok₂ other conn m₁ m₂
    some (if sent then .deciding other .waiting .waiting else .leaving [other, conn], h)
  | .ok m₁, .error _ => some (.leaving [other, conn], h.tell ok₁ other m₁)
  | .error _, _ => some (.leaving [other, conn], h)

/-- `recv_route_choice_if_ready`, merged into what is known of a client; `none` where it throws. -/
def mergeRead (choice : RelayRouteChoice) : Got → Option RelayRouteChoice
  | .nothing => some choice
  | .message m => some (mergeRelayRouteChoice choice (relayRouteChoiceFrom m))
  | .closed => some (mergeRelayRouteChoice choice .invalid)
  | .failed => none

/-- A round of `wait_route_decision`. -/
def onPoll (conn other : Nat) (cancel : Bool) (first second : RelayRouteChoice)
    (got₁ got₂ : Got) : ClientPc :=
  if cancel then .answering other .invalid
  else
    match mergeRead first got₁, mergeRead second got₂ with
    | some first, some second =>
      match relayRouteDecisionFor first second false with
      | .pending => .deciding other first second
      | decision => .answering other decision
    | _, _ => .leaving [other, conn]

/-- What is made of the decision. -/
def onAnswer (conn other : Nat) (decision : RelayRouteDecision) (ok₁ ok₂ : Bool) (h : Hall) :
    ClientPc × Hall :=
  match decision with
  | .direct =>
    let start : Message := { type := "direct_start" }
    (.leaving [other, conn], (h.tellBoth ok₁ ok₂ other conn start start).1)
  | .relay reason =>
    let start : Message := { type := "relay_start", fields := [("reason", reason)] }
    let (h, sent) := h.tellBoth ok₁ ok₂ other conn start start
    (if sent then .piping other else .leaving [other, conn], h)
  | .invalid | .pending =>
    let done : Message := { type := "done" }
    (.leaving [other, conn], (h.tell ok₁ other done).tell ok₂ conn done)

/-- `handle_client` goes on. -/
def RelayClientWorker.step (setup : Setup) (w : RelayClientWorker) (h : Hall) (l : ClientLabel) :
    Option (ClientPc × Hall) :=
  match w.pc, l with
  | .reading pinged, .read got ok => some (onFirst setup w.conn pinged w.cancel ok got h)
  | .greeted hello, .purge stale =>
    let (h, gone) := h.purge setup stale
    some (.purged hello gone, h)
  | .purged hello gone, .closePurged told => some (.pairing hello, h.closePurged gone told)
  | .pairing hello, .pair ok => some (onPair setup w.conn ok hello h)
  | .introducing other, .introduce now ok₁ ok₂ => onIntroduce setup w.conn other now ok₁ ok₂ h
  | .deciding other first second, .poll got₁ got₂ =>
    some (onPoll w.conn other w.cancel first second got₁ got₂, h)
  | .deciding other first second, .expire =>
    some (.answering other (relayRouteDecisionFor first second true), h)
  | .answering other decision, .answer ok₁ ok₂ => some (onAnswer w.conn other decision ok₁ ok₂ h)
  | .piping other, .pipeEnds => some (.leaving [], h.close [other, w.conn])
  | .leaving held, .release =>
    some (.closing held,
      { h with rooms := (h.rooms.apply setup.config.maxWaitingPeers (.release w.conn)).1 })
  | .closing held, .close => some (.done, h.close held)
  | _, _ => none

/-! ## The server

`start` and `stop` may be called by anyone at any time; `stop` is a thread of its own here, with the
joins as places where it waits. -/

inductive AcceptLabel
  | turn
  | nothing
  | client (conn : Nat)
  | fails (error : KikoError)
  /-- a thread is started, or cannot be -/
  | launch (failure : Option KikoError)
  | refuse (ok : Bool)
deriving DecidableEq, Repr

inductive ServerLabel
  | start
  | accept (l : AcceptLabel)
  | client (k : Nat) (l : ClientLabel)
  | purge (stale : List Nat)
  | closePurged (told : List Nat)
  | stop
  | joinAccept
  | closeWaiting
  | interrupt
  | join
  | reset
deriving DecidableEq, Repr

namespace BackgroundRelay

/-- `reap_finished_workers`. -/
def reap (s : BackgroundRelay) : BackgroundRelay :=
  { s with
    workers := s.workers.filter (·.pc ≠ .done)
    joined := s.joined ++ (s.workers.filter (·.pc = .done)).map (·.conn) }

/-- The accept loop has thrown. -/
def fail (s : BackgroundRelay) (error : KikoError) : BackgroundRelay :=
  { s with failure := some error, stop := true, running := false, accept := .ended }

/-- `accept_loop` goes on. -/
def acceptStep (setup : Setup) (s : BackgroundRelay) :
    AcceptPc → AcceptLabel → Option BackgroundRelay
  | .head, .turn => some { s.reap with accept := if s.stop then .ended else .accepting }
  | .accepting, .nothing => some { s with accept := .head }
  | .accepting, .client conn =>
    if conn ∈ s.accepted then none
    else some { s with accept := .starting conn, accepted := s.accepted ++ [conn] }
  | .accepting, .fails error => some (s.fail error)
  | .starting conn, .launch failure =>
    let s := s.reap
    if setup.limit ≤ s.workers.length then some { s with accept := .refusing conn }
    else
      match failure with
      | none =>
        some { s with
          accept := .head
          workers := s.workers ++ [{ conn := conn }]
          started := s.started ++ [conn] }
      | some error => some { s.fail error with hall := s.hall.close [conn] }
  | .refusing conn, .refuse ok =>
    some { s with
      accept := .head
      hall := (s.hall.tell ok conn (rejectMessage "server_busy")).close [conn] }
  | _, _ => none

/-- The relay goes on. A call of `start` that finds a relay that has failed is a `stop` and a
    `start`; one that cannot bind or start its thread leaves nothing. -/
def step (setup : Setup) (s : BackgroundRelay) : ServerLabel → Option BackgroundRelay
  | .start =>
    if s.alive = false ∧ s.control = .idle then
      some { s with
        alive := true
        running := true
        stop := false
        failure := none
        accept := .head
        hall := { s.hall with rooms := {}, hellos := [] } }
    else none
  | .accept l => s.acceptStep setup s.accept l
  | .client k l => do
    let w ← s.workers[k]?
    let (pc, hall) ← w.step setup s.hall l
    some { s with workers := s.workers.set k { w with pc := pc }, hall := hall }
  | .purge stale =>
    if s.alive = true ∧ s.cleanup = [] then
      let (hall, gone) := s.hall.purge setup stale
      some { s with hall := hall, cleanup := gone }
    else none
  | .closePurged told =>
    if s.cleanup = [] then none
    else some { s with hall := s.hall.closePurged s.cleanup told, cleanup := [] }
  | .stop =>
    if s.alive = true ∧ s.control = .idle then
      some { s with running := false, stop := true, control := .joiningAccept }
    else none
  | .joinAccept =>
    if s.control = .joiningAccept ∧ s.accept = .ended then
      some { s with
        control := .closingWaiting (s.hall.rooms.rooms.waiting.map (·.2.conn))
        hall :=
          { s.hall with
            rooms := (s.hall.rooms.apply setup.config.maxWaitingPeers .close).1 } }
    else none
  | .closeWaiting =>
    match s.control with
    | .closingWaiting gone => some { s with control := .interrupting 0, hall := s.hall.close gone }
    | _ => none
  | .interrupt =>
    match s.control with
    | .interrupting k =>
      match s.workers[k]? with
      | some w =>
        some { s with
          control := .interrupting (k + 1)
          workers := s.workers.set k { w with cancel := true } }
      | none => some { s with control := .joining }
    | _ => none
  | .join =>
    match s.control, s.workers with
    | .joining, w :: rest =>
      if w.pc = .done then some { s with workers := rest, joined := s.joined ++ [w.conn] } else none
    | _, _ => none
  | .reset =>
    -- the cleanup thread is joined, and the peers that still wait go with the rooms
    if s.control = .joining ∧ s.workers = [] ∧ s.cleanup = [] then
      some { s with
        alive := false
        control := .idle
        hall :=
          { s.hall with
            rooms := {}
            hellos := []
            closed := s.hall.closed ++ s.hall.rooms.rooms.waiting.map (·.2.conn) } }
    else none

end BackgroundRelay

/-! ## Who holds which socket

As a count for each socket, so that moving it is adding here and taking away there, and twice is
seen to be twice. -/

/-- What a client's thread has in hand: its own socket, and its peer's. -/
def ClientPc.held (conn : Nat) : ClientPc → List Nat
  | .reading _ | .greeted _ | .pairing _ => [conn]
  | .purged _ gone => conn :: gone
  | .introducing other | .deciding other _ _ | .answering other _ | .piping other => [other, conn]
  | .leaving held | .closing held => held
  | .done => []

def AcceptPc.held : AcceptPc → List Nat
  | .starting conn | .refusing conn => [conn]
  | _ => []

def StopPc.held : StopPc → List Nat
  | .closingWaiting gone => gone
  | _ => []

/-- `stop` has joined the accept thread. -/
def StopPc.joinedAccept : StopPc → Bool
  | .idle | .joiningAccept => false
  | _ => true

namespace Hall

/-- The peers that wait. -/
def waiting (h : Hall) : List Nat := h.rooms.rooms.waiting.map (·.2.conn)

/-- The sockets that no thread has in hand: those of the peers that wait, and those that were
    closed. -/
def sockets (h : Hall) : Multiset Nat := h.waiting + h.closed

/-- The peers that wait have keys of their own, and are not too many. -/
structure Sound (setup : Setup) (h : Hall) : Prop where
  keys : (h.rooms.rooms.waiting.map (·.1)).Nodup
  capacity : h.rooms.rooms.waiting.length ≤ setup.config.maxWaitingPeers

section Hall

variable {setup : Setup} {h h' : Hall} {conn : Nat} {m : Message} {ok : Bool}

@[simp] theorem rooms_tell : (h.tell ok conn m).rooms = h.rooms := by
  unfold tell
  split_ifs
  · rfl
  · rfl

@[simp] theorem closed_tell : (h.tell ok conn m).closed = h.closed := by
  unfold tell
  split_ifs
  · rfl
  · rfl

theorem Sound.congr (hs : h.Sound setup) (hrooms : h'.rooms.rooms.waiting = h.rooms.rooms.waiting) :
    h'.Sound setup := by
  refine ⟨?_, ?_⟩
  · rw [hrooms]
    exact hs.keys
  · rw [hrooms]
    exact hs.capacity

theorem sockets_congr (hrooms : h'.rooms.rooms.waiting = h.rooms.rooms.waiting)
    (hclosed : h'.closed = h.closed) : h'.sockets = h.sockets := by
  unfold sockets waiting
  rw [hrooms, hclosed]

theorem waiting_eq_nil (hwaiting : h.rooms.rooms.waiting = []) : h.waiting = [] := by
  unfold waiting
  rw [hwaiting]
  rfl

theorem sockets_close (conns : List Nat) : (h.close conns).sockets = h.sockets + conns := by
  show (h.waiting : Multiset Nat) + ↑(h.closed ++ conns) = h.waiting + h.closed + conns
  rw [← Multiset.coe_add, add_assoc]

/-- What is purged goes from the rooms into the hands of who purges. -/
theorem sockets_purge (h : Hall) (setup : Setup) (stale : List Nat) :
    (h.purge setup stale).1.sockets + (h.purge setup stale).2 = h.sockets := by
  have hsplit : ((h.rooms.rooms.waiting.filter fun entry => entry.2.conn ∈ stale).map (·.2.conn) ++
      (h.rooms.rooms.waiting.filter fun entry => entry.2.conn ∉ stale).map (·.2.conn)).Perm
        h.waiting := by
    rw [← List.map_append]
    apply List.Perm.map
    simpa using
      List.filter_append_perm (fun entry => decide (entry.2.conn ∈ stale)) h.rooms.rooms.waiting
  have hsum := Multiset.coe_eq_coe.mpr hsplit
  rw [← Multiset.coe_add] at hsum
  show (((h.rooms.rooms.waiting.filter fun entry => entry.2.conn ∉ stale).map (·.2.conn) :
      List Nat) : Multiset Nat) + h.closed +
    ((h.rooms.rooms.waiting.filter fun entry => entry.2.conn ∈ stale).map (·.2.conn) : List Nat) =
      h.waiting + h.closed
  rw [← hsum]
  abel

theorem Sound.purge (hs : h.Sound setup) (stale : List Nat) :
    (h.purge setup stale).1.Sound setup := by
  have hsub : (h.purge setup stale).1.rooms.rooms.waiting.Sublist h.rooms.rooms.waiting :=
    List.filter_sublist
  exact ⟨hs.keys.sublist (hsub.map _), hsub.length_le.trans hs.capacity⟩

theorem sockets_closePurged (gone told : List Nat) :
    (h.closePurged gone told).sockets = h.sockets + gone := by
  show (h.waiting : Multiset Nat) + ↑(h.closed ++ gone) = h.waiting + h.closed + gone
  rw [← Multiset.coe_add, add_assoc]

end Hall

end Hall

/-! ### A client's thread -/

section Client

variable {setup : Setup} {h h' : Hall} {conn other : Nat} {pc' : ClientPc} {ok ok₁ ok₂ : Bool}

theorem onFirst_keeps (setup : Setup) (h : Hall) (conn : Nat) (pinged cancel ok : Bool) (got : Got) :
    (onFirst setup conn pinged cancel ok got h).1.held conn = [conn] ∧
      (onFirst setup conn pinged cancel ok got h).2.rooms = h.rooms ∧
      (onFirst setup conn pinged cancel ok got h).2.closed = h.closed := by
  cases got with
  | message m =>
    unfold onFirst
    dsimp only
    cases hdecode : decodeRelayHello m with
    | error e => split_ifs <;> simp [ClientPc.held]
    | ok hello => split_ifs <;> simp [ClientPc.held]
  | nothing => exact ⟨rfl, rfl, rfl⟩
  | closed => exact ⟨rfl, rfl, rfl⟩
  | failed => exact ⟨rfl, rfl, rfl⟩

theorem onIntroduce_keeps {now : Nat}
    (hstep : onIntroduce setup conn other now ok₁ ok₂ h = some (pc', h')) :
    pc'.held conn = [other, conn] ∧ h'.rooms = h.rooms ∧ h'.closed = h.closed := by
  unfold onIntroduce at hstep
  obtain ⟨self, -, hstep⟩ := Option.bind_eq_some_iff.mp hstep
  obtain ⟨peer, -, hstep⟩ := Option.bind_eq_some_iff.mp hstep
  dsimp only at hstep
  split at hstep
  · obtain ⟨rfl, rfl⟩ := Prod.mk.inj (Option.some.inj hstep)
    unfold Hall.tellBoth
    refine ⟨?_, by simp, by simp⟩
    split_ifs
    · rfl
    · rfl
  · obtain ⟨rfl, rfl⟩ := Prod.mk.inj (Option.some.inj hstep)
    exact ⟨rfl, by simp, by simp⟩
  · obtain ⟨rfl, rfl⟩ := Prod.mk.inj (Option.some.inj hstep)
    exact ⟨rfl, rfl, rfl⟩

theorem onPoll_held (cancel : Bool) (first second : RelayRouteChoice) (got₁ got₂ : Got) :
    (onPoll conn other cancel first second got₁ got₂).held conn = [other, conn] := by
  unfold onPoll
  split_ifs
  · rfl
  · split
    · split
      · rfl
      · rfl
    · rfl

theorem onAnswer_keeps (h : Hall) (conn other : Nat) (decision : RelayRouteDecision) (ok₁ ok₂ : Bool) :
    (onAnswer conn other decision ok₁ ok₂ h).1.held conn = [other, conn] ∧
      (onAnswer conn other decision ok₁ ok₂ h).2.rooms = h.rooms ∧
      (onAnswer conn other decision ok₁ ok₂ h).2.closed = h.closed := by
  cases decision with
  | relay reason =>
    unfold onAnswer Hall.tellBoth
    refine ⟨?_, by simp, by simp⟩
    dsimp only
    split_ifs
    · rfl
    · rfl
  | direct => exact ⟨rfl, by simp [onAnswer, Hall.tellBoth], by simp [onAnswer, Hall.tellBoth]⟩
  | invalid => exact ⟨rfl, by simp [onAnswer], by simp [onAnswer]⟩
  | pending => exact ⟨rfl, by simp [onAnswer], by simp [onAnswer]⟩

theorem rooms_pair (setup : Setup) (h : Hall) (matchKey room : String)
    (self : RelayRace.RelayWaitingPeer) (auxiliary : Bool) :
    (h.rooms.apply setup.config.maxWaitingPeers (.pair matchKey room self auxiliary)).1.rooms =
      (h.rooms.rooms.pairOrWait setup.config.maxWaitingPeers matchKey room self auxiliary).1 := by
  show (RoomRun.settle _ room self.conn auxiliary
    (h.rooms.rooms.pairOrWait setup.config.maxWaitingPeers matchKey room self auxiliary).2).rooms = _
  cases (h.rooms.rooms.pairOrWait setup.config.maxWaitingPeers matchKey room self auxiliary).2 with
  | _ => rfl

/-- A client that is told something stays in hand. -/
theorem tell_keeps {m : Message} (hs : h.Sound setup)
    (hrooms : h'.rooms.rooms.waiting = h.rooms.rooms.waiting) (hclosed : h'.closed = h.closed) :
    (h'.tell ok conn m).Sound setup ∧
      (h'.tell ok conn m).sockets + (([conn] : List Nat) : Multiset Nat) = h.sockets + [conn] := by
  have htold : (h'.tell ok conn m).rooms.rooms.waiting = h.rooms.rooms.waiting := by
    rw [Hall.rooms_tell]
    exact hrooms
  refine ⟨hs.congr htold, ?_⟩
  rw [Hall.sockets_congr htold (Hall.closed_tell.trans hclosed)]

/-- A registered client waits, is handed back, or has its peer in hand. -/
theorem onPair_keeps (hs : h.Sound setup) (conn : Nat) (hello : RelayHello) (ok : Bool) :
    (onPair setup conn ok hello h).2.Sound setup ∧
      (onPair setup conn ok hello h).2.sockets + (onPair setup conn ok hello h).1.held conn =
        h.sockets + [conn] := by
  have hrooms := rooms_pair setup h hello.matchKey (relayRoomBase hello.matchKey) ⟨hello.role, conn⟩
    hello.auxiliary
  cases hpair : h.rooms.rooms.pairOrWait setup.config.maxWaitingPeers hello.matchKey
    (relayRoomBase hello.matchKey) ⟨hello.role, conn⟩ hello.auxiliary with
  | mk st' result =>
    rw [hpair] at hrooms
    have hwaiting := congrArg RelayRoomState.waiting hrooms
    unfold onPair
    dsimp only
    rw [hpair]
    rcases pairOrWait_cases hpair with ⟨rfl, hresult⟩ | ⟨hnone, hroom, -, rfl, rfl⟩ |
      ⟨peer, hlook, -, -, rfl, rfl⟩
    · -- handed back
      rcases hresult with rfl | rfl
      · exact tell_keeps hs hwaiting rfl
      · exact tell_keeps hs hwaiting rfl
    · -- the client waits
      refine ⟨⟨?_, ?_⟩, ?_⟩
      · dsimp only
        rw [hwaiting, List.map_append]
        apply List.Nodup.append hs.keys (List.nodup_singleton _)
        intro key hkey hsingle
        obtain rfl := List.mem_singleton.mp hsingle
        exact notMem_keys_of_lookup hnone hkey
      · dsimp only
        rw [hwaiting, List.length_append]
        exact hroom
      · unfold Hall.sockets Hall.waiting
        dsimp only
        rw [hwaiting, List.map_append, ← Multiset.coe_add]
        show _ + (([conn] : List Nat) : Multiset Nat) + _ + 0 = _
        abel
    · -- the peer that waited is in hand
      have hperm := perm_filter_of_lookup hs.keys hlook
      have hheld : ClientPc.held conn
          (if hello.auxiliary then .piping peer.conn else .introducing peer.conn) =
            [peer.conn, conn] := by
        split_ifs
        · rfl
        · rfl
      refine ⟨⟨?_, ?_⟩, ?_⟩
      · dsimp only
        rw [hwaiting]
        exact hs.keys.sublist (List.filter_sublist.map _)
      · dsimp only
        rw [hwaiting]
        exact (List.length_filter_le _ _).trans hs.capacity
      · dsimp only
        rw [hheld]
        have hsum := Multiset.coe_eq_coe.mpr (hperm.map (·.2.conn))
        unfold Hall.sockets Hall.waiting
        dsimp only
        rw [hwaiting, hsum]
        show _ + _ + (([peer.conn] ++ [conn] : List Nat) : Multiset Nat) =
          (([peer.conn] ++ _ : List Nat) : Multiset Nat) + _ + _
        rw [← Multiset.coe_add, ← Multiset.coe_add]
        abel

/-- **A client's thread goes on**: its sockets go from hand to hand. -/
theorem client_keeps {w : RelayClientWorker} {l : ClientLabel} (hs : h.Sound setup)
    (hstep : w.step setup h l = some (pc', h')) :
    h'.Sound setup ∧ h'.sockets + pc'.held w.conn = h.sockets + w.pc.held w.conn := by
  obtain ⟨conn, pc, cancel⟩ := w
  -- a move that touches neither the peers that wait nor the sockets that were closed
  have hquiet (hheld : pc'.held conn = pc.held conn)
      (hrooms : h'.rooms.rooms.waiting = h.rooms.rooms.waiting)
      (hclosed : h'.closed = h.closed) :
      h'.Sound setup ∧ h'.sockets + pc'.held conn = h.sockets + pc.held conn := by
    refine ⟨hs.congr hrooms, ?_⟩
    rw [hheld, Hall.sockets_congr hrooms hclosed]
  unfold RelayClientWorker.step at hstep
  split at hstep
  next pinged got ok hpc =>
    obtain rfl : pc = .reading pinged := hpc
    obtain ⟨hheld, hrooms, hclosed⟩ := onFirst_keeps setup h conn pinged cancel ok got
    obtain ⟨rfl, rfl⟩ := Prod.mk.inj (Option.some.inj hstep)
    exact hquiet hheld (congrArg (·.rooms.waiting) hrooms) hclosed
  next hello stale hpc =>
    obtain rfl : pc = .greeted hello := hpc
    obtain ⟨rfl, rfl⟩ := Prod.mk.inj (Option.some.inj hstep)
    refine ⟨hs.purge stale, ?_⟩
    have hsum := h.sockets_purge setup stale
    show (h.purge setup stale).1.sockets +
      (([conn] ++ (h.purge setup stale).2 : List Nat) : Multiset Nat) =
        _ + (([conn] : List Nat) : Multiset Nat)
    rw [← hsum, ← Multiset.coe_add]
    abel
  next hello gone told hpc =>
    obtain rfl : pc = .purged hello gone := hpc
    obtain ⟨rfl, rfl⟩ := Prod.mk.inj (Option.some.inj hstep)
    refine ⟨hs.congr rfl, ?_⟩
    rw [Hall.sockets_closePurged]
    show _ + (([conn] : List Nat) : Multiset Nat) = _ + (([conn] ++ gone : List Nat) : Multiset Nat)
    rw [← Multiset.coe_add]
    abel
  next hello ok hpc =>
    obtain rfl : pc = .pairing hello := hpc
    have hpair := onPair_keeps hs conn hello ok
    rw [Option.some.inj hstep] at hpair
    exact hpair
  next other now ok₁ ok₂ hpc =>
    obtain rfl : pc = .introducing other := hpc
    obtain ⟨hheld, hrooms, hclosed⟩ := onIntroduce_keeps hstep
    exact hquiet hheld (congrArg (·.rooms.waiting) hrooms) hclosed
  next other first second got₁ got₂ hpc =>
    obtain rfl : pc = .deciding other first second := hpc
    obtain ⟨rfl, rfl⟩ := Prod.mk.inj (Option.some.inj hstep)
    exact hquiet (onPoll_held _ _ _ _ _) rfl rfl
  next other first second hpc =>
    obtain rfl : pc = .deciding other first second := hpc
    obtain ⟨rfl, rfl⟩ := Prod.mk.inj (Option.some.inj hstep)
    exact hquiet rfl rfl rfl
  next other decision ok₁ ok₂ hpc =>
    obtain rfl : pc = .answering other decision := hpc
    obtain ⟨hheld, hrooms, hclosed⟩ := onAnswer_keeps h conn other decision ok₁ ok₂
    rw [Option.some.inj hstep] at hheld hrooms hclosed
    exact hquiet hheld (congrArg (·.rooms.waiting) hrooms) hclosed
  next other hpc =>
    obtain rfl : pc = .piping other := hpc
    obtain ⟨rfl, rfl⟩ := Prod.mk.inj (Option.some.inj hstep)
    refine ⟨hs.congr rfl, ?_⟩
    rw [Hall.sockets_close]
    exact add_zero _
  next held hpc =>
    obtain rfl : pc = .leaving held := hpc
    obtain ⟨rfl, rfl⟩ := Prod.mk.inj (Option.some.inj hstep)
    exact hquiet rfl (RoomRun.waiting_release h.rooms conn) rfl
  next held hpc =>
    obtain rfl : pc = .closing held := hpc
    obtain ⟨rfl, rfl⟩ := Prod.mk.inj (Option.some.inj hstep)
    refine ⟨hs.congr rfl, ?_⟩
    rw [Hall.sockets_close]
    exact add_zero _
  next => cases hstep

end Client

/-! ## The whole relay

The rooms' own invariant is used for what happens inside them; what is added is that whoever takes a
socket out of a room has it in hand. -/

section Workers

variable {workers : List RelayClientWorker}

/-- What the clients' threads have in hand. -/
def heldBy (workers : List RelayClientWorker) : Multiset Nat :=
  (workers.map fun w => (w.pc.held w.conn : Multiset Nat)).sum

theorem heldBy_append (workers₁ workers₂ : List RelayClientWorker) :
    heldBy (workers₁ ++ workers₂) = heldBy workers₁ + heldBy workers₂ := by
  unfold heldBy
  rw [List.map_append, List.sum_append]

theorem heldBy_set {k : Nat} {w : RelayClientWorker} (w' : RelayClientWorker)
    (hk : workers[k]? = some w) :
    heldBy (workers.set k w') + w.pc.held w.conn = heldBy workers + w'.pc.held w'.conn := by
  induction workers generalizing k with
  | nil => cases hk
  | cons first rest ih =>
    cases k with
    | zero =>
      obtain rfl : first = w := Option.some.inj hk
      show (w'.pc.held w'.conn : Multiset Nat) + heldBy rest + _ = _ + heldBy rest + _
      abel
    | succ k =>
      have hrest := ih (k := k) hk
      show (first.pc.held first.conn : Multiset Nat) + heldBy (rest.set k w') + _ =
        first.pc.held first.conn + heldBy rest + _
      rw [add_assoc, hrest, add_assoc]

theorem conns_set {k : Nat} {w : RelayClientWorker} (w' : RelayClientWorker)
    (hk : workers[k]? = some w) (hsame : w'.conn = w.conn) :
    (workers.set k w').map (·.conn) = workers.map (·.conn) := by
  induction workers generalizing k with
  | nil => cases hk
  | cons first rest ih =>
    cases k with
    | zero =>
      obtain rfl : first = w := Option.some.inj hk
      exact congrArg (· :: rest.map (·.conn)) hsame
    | succ k => exact congrArg (first.conn :: ·) (ih hk)

/-- A thread that is done has nothing in hand. -/
theorem heldBy_reaped (workers : List RelayClientWorker) :
    heldBy (workers.filter (·.pc ≠ .done)) = heldBy workers := by
  induction workers with
  | nil => rfl
  | cons w rest ih =>
    by_cases hdone : w.pc = .done
    · rw [List.filter_cons_of_neg (by simpa using hdone), ih]
      show _ = ((w.pc.held w.conn : List Nat) : Multiset Nat) + heldBy rest
      rw [hdone]
      exact (zero_add _).symm
    · rw [List.filter_cons_of_pos (by simpa using hdone)]
      show _ + heldBy (rest.filter (·.pc ≠ .done)) = _ + heldBy rest
      rw [ih]

end Workers

namespace BackgroundRelay

/-- The sockets that the threads have in hand. -/
def inHand (s : BackgroundRelay) : Multiset Nat :=
  heldBy s.workers + s.cleanup + s.accept.held + s.control.held

/-- What a relay keeps at all times. -/
structure Kept (setup : Setup) (s : BackgroundRelay) : Prop where
  hall : s.hall.Sound setup
  limit : s.workers.length ≤ setup.limit
  /-- a thread that was started runs or is joined -/
  threads : (s.joined : Multiset Nat) + (s.workers.map (·.conn) : List Nat) = s.started
  /-- a socket that was accepted is in one place -/
  sockets : s.hall.sockets + s.inHand = s.accepted
  once : s.accepted.Nodup
  stopping : s.control.joinedAccept = true → s.accept = .ended
  gone : s.alive = false → s.control = .idle ∧ s.accept = .ended ∧ s.workers = [] ∧ s.cleanup = [] ∧
    s.hall.rooms.rooms.waiting = []

section Kept

variable {setup : Setup} {s s' : BackgroundRelay}

theorem kept_init : Kept setup {} where
  hall := ⟨List.nodup_nil, Nat.zero_le _⟩
  limit := Nat.zero_le _
  threads := rfl
  sockets := rfl
  once := List.nodup_nil
  stopping h := by cases h
  gone _ := ⟨rfl, rfl, rfl, rfl, rfl⟩

theorem Kept.sum (hk : s.Kept setup) :
    s.hall.sockets + (heldBy s.workers + s.cleanup + s.accept.held + s.control.held) =
      s.accepted :=
  hk.sockets

/-- Threads that are done are joined. -/
theorem Kept.reap (hk : s.Kept setup) : s.reap.Kept setup where
  hall := hk.hall
  limit := (List.length_filter_le _ _).trans hk.limit
  threads := by
    refine Eq.trans ?_ hk.threads
    have hsplit : ((s.workers.filter (·.pc = .done)).map (·.conn) ++
        (s.workers.filter (·.pc ≠ .done)).map (·.conn)).Perm (s.workers.map (·.conn)) := by
      rw [← List.map_append]
      apply List.Perm.map
      simpa using
        List.filter_append_perm (fun w : RelayClientWorker => decide (w.pc = .done)) s.workers
    have hsum := Multiset.coe_eq_coe.mpr hsplit
    rw [← Multiset.coe_add] at hsum
    show ((s.joined ++ (s.workers.filter (·.pc = .done)).map (·.conn) : List Nat) : Multiset Nat) +
      ((s.workers.filter (·.pc ≠ .done)).map (·.conn) : List Nat) = _
    rw [← hsum, ← Multiset.coe_add, add_assoc]
  sockets := by
    refine Eq.trans ?_ hk.sockets
    show _ + (heldBy (s.workers.filter (·.pc ≠ .done)) + _ + _ + _) = _
    rw [heldBy_reaped]
    rfl
  once := hk.once
  stopping := hk.stopping
  gone halive := by
    obtain ⟨hcontrol, haccept, hworkers, hcleanup, hwaiting⟩ := hk.gone halive
    refine ⟨hcontrol, haccept, ?_, hcleanup, hwaiting⟩
    show s.workers.filter _ = []
    rw [hworkers]
    rfl

/-- While the accept thread runs, the relay is there and no one has joined the thread. -/
theorem Kept.accepting (hk : s.Kept setup) (hrun : s.accept ≠ .ended) :
    s.alive ≠ false ∧ s.control.joinedAccept ≠ true :=
  ⟨fun halive => hrun (hk.gone halive).2.1, fun hjoined => hrun (hk.stopping hjoined)⟩

theorem Kept.turn (hk : s.Kept setup) (hpc : s.accept = .head) (accept : AcceptPc)
    (hheld : accept.held = []) :
    ({ s.reap with accept := accept } : BackgroundRelay).Kept setup := by
  have hr := hk.reap
  obtain ⟨halive, hjoined⟩ := hk.accepting (by rw [hpc]; exact AcceptPc.noConfusion)
  refine ⟨hr.hall, hr.limit, hr.threads, ?_, hr.once,
    fun h => absurd h hjoined, fun h => absurd h halive⟩
  refine Eq.trans ?_ hr.sockets
  have hsame : s.reap.accept.held = [] := by
    show s.accept.held = []
    rw [hpc]
    rfl
  show _ + (_ + _ + ((accept.held : List Nat) : Multiset Nat) + _) =
    _ + (_ + _ + ((s.reap.accept.held : List Nat) : Multiset Nat) + _)
  rw [hheld, hsame]

/-- A thread is started for a client; it may be one too many, or not to be had. -/
theorem Kept.launch {conn : Nat} {failure : Option KikoError} (hk : s.Kept setup)
    (hpc : s.accept = .starting conn)
    (hstep : s.acceptStep setup (.starting conn) (.launch failure) = some s') : s'.Kept setup := by
  obtain ⟨halive, hjoined⟩ := hk.accepting (by rw [hpc]; exact AcceptPc.noConfusion)
  have hr := hk.reap
  have hsum : s.hall.sockets + (heldBy s.reap.workers + s.cleanup +
      (([conn] : List Nat) : Multiset Nat) + s.control.held) = s.accepted := by
    have hreaped := hr.sum
    rw [show s.reap.accept = .starting conn from hpc] at hreaped
    exact hreaped
  simp only [BackgroundRelay.acceptStep] at hstep
  split_ifs at hstep with hfull
  · obtain rfl := Option.some.inj hstep
    exact ⟨hr.hall, hr.limit, hr.threads, hsum, hr.once,
      fun h => absurd h hjoined, fun h => absurd h halive⟩
  cases failure with
  | none =>
    obtain rfl := Option.some.inj hstep
    refine ⟨hr.hall, ?_, ?_, ?_, hr.once, fun h => absurd h hjoined, fun h => absurd h halive⟩
    · show (s.reap.workers ++ [_]).length ≤ _
      rw [List.length_append]
      exact Nat.lt_of_not_le hfull
    · show (s.reap.joined : Multiset Nat) +
          ((s.reap.workers ++ [({ conn := conn } : RelayClientWorker)]).map (·.conn) : List Nat) =
        ((s.reap.started ++ [conn] : List Nat) : Multiset Nat)
      rw [List.map_append, ← Multiset.coe_add, ← Multiset.coe_add, ← add_assoc, hr.threads]
      rfl
    · -- the socket goes from the accept thread to the one that was started
      refine Eq.trans ?_ hsum
      show _ + (heldBy (s.reap.workers ++ [_]) + _ + 0 + _) = _
      rw [heldBy_append]
      show s.hall.sockets + (heldBy s.reap.workers + ((([conn] : List Nat) : Multiset Nat) + 0) +
        s.cleanup + 0 + s.control.held) = _
      abel
  | some error =>
    obtain rfl := Option.some.inj hstep
    refine ⟨hr.hall.congr rfl, hr.limit, hr.threads, ?_, hr.once, fun _ => rfl,
      fun h => absurd h halive⟩
    refine Eq.trans ?_ hsum
    show (s.hall.close [conn]).sockets +
      (heldBy s.reap.workers + s.cleanup + 0 + s.control.held) = _
    rw [Hall.sockets_close]
    abel

theorem Kept.refuse {conn : Nat} {ok : Bool} (hk : s.Kept setup) (hpc : s.accept = .refusing conn)
    (hstep : s.acceptStep setup (.refusing conn) (.refuse ok) = some s') : s'.Kept setup := by
  obtain ⟨halive, hjoined⟩ := hk.accepting (by rw [hpc]; exact AcceptPc.noConfusion)
  obtain rfl := Option.some.inj hstep
  have htold : (s.hall.tell ok conn (rejectMessage "server_busy")).sockets = s.hall.sockets :=
    Hall.sockets_congr (by rw [Hall.rooms_tell]) (by rw [Hall.closed_tell])
  refine ⟨hk.hall.congr ?_, hk.limit, hk.threads, ?_, hk.once,
    fun h => absurd h hjoined, fun h => absurd h halive⟩
  · show (s.hall.tell ok conn _).rooms.rooms.waiting = _
    rw [Hall.rooms_tell]
  · refine Eq.trans ?_ hk.sum
    rw [hpc]
    show ((s.hall.tell ok conn _).close [conn]).sockets +
      (heldBy s.workers + s.cleanup + 0 + s.control.held) =
      _ + (_ + _ + (([conn] : List Nat) : Multiset Nat) + _)
    rw [Hall.sockets_close, htold]
    abel

/-- **The accept thread goes on.** -/
theorem Kept.acceptStep {pc : AcceptPc} {l : AcceptLabel} (hk : s.Kept setup) (hpc : s.accept = pc)
    (hstep : s.acceptStep setup pc l = some s') : s'.Kept setup := by
  have hsum := hk.sum
  rw [hpc] at hsum
  have hrun (h : pc ≠ .ended) : s.alive ≠ false ∧ s.control.joinedAccept ≠ true :=
    hk.accepting (by rw [hpc]; exact h)
  cases pc with
  | ended => cases l <;> cases hstep
  | head =>
    cases l with
    | turn =>
      obtain rfl := Option.some.inj hstep
      apply hk.turn hpc
      split_ifs
      · rfl
      · rfl
    | _ => cases hstep
  -- a client comes, or none, or the listener fails
  | accepting =>
    obtain ⟨halive, hjoined⟩ := hrun AcceptPc.noConfusion
    cases l with
    | nothing =>
      obtain rfl := Option.some.inj hstep
      exact ⟨hk.hall, hk.limit, hk.threads, hsum, hk.once,
        fun h => absurd h hjoined, fun h => absurd h halive⟩
    | client conn =>
      simp only [BackgroundRelay.acceptStep] at hstep
      split_ifs at hstep with hnew
      obtain rfl := Option.some.inj hstep
      refine ⟨hk.hall, hk.limit, hk.threads, ?_, ?_,
        fun h => absurd h hjoined, fun h => absurd h halive⟩
      · show s.hall.sockets + (heldBy s.workers + s.cleanup + (([conn] : List Nat) : Multiset Nat) +
          s.control.held) =
          ((s.accepted ++ [conn] : List Nat) : Multiset Nat)
        rw [← Multiset.coe_add, ← hsum]
        show _ = _ + (_ + _ + 0 + _) + _
        abel
      · exact List.Nodup.append hk.once (List.nodup_singleton _) (by simpa using hnew)
    | fails error =>
      obtain rfl := Option.some.inj hstep
      exact ⟨hk.hall, hk.limit, hk.threads, hsum, hk.once, fun _ => rfl, fun h => absurd h halive⟩
    | _ => cases hstep
  -- the socket is in the hand of the accept loop until its thread is there
  | starting conn =>
    cases l with
    | launch failure => exact hk.launch hpc hstep
    | _ => cases hstep
  -- a client over the limit is told so and closed
  | refusing conn =>
    cases l with
    | refuse ok => exact hk.refuse hpc hstep
    | _ => cases hstep

/-! ### The other threads -/

/-- Who is in `stop` has a relay to stop. -/
theorem Kept.alive_of_control (hk : s.Kept setup) (hbusy : s.control ≠ .idle) : s.alive ≠ false :=
  fun halive => hbusy (hk.gone halive).1

/-- A client's thread stays that client's. -/
theorem Kept.setWorker {k : Nat} {w : RelayClientWorker} (hk : s.Kept setup)
    (w' : RelayClientWorker) (hw : s.workers[k]? = some w) (hsame : w'.conn = w.conn) :
    (s.workers.set k w').length ≤ setup.limit ∧
      (s.joined : Multiset Nat) + ((s.workers.set k w').map (·.conn) : List Nat) = s.started := by
  rw [List.length_set, conns_set w' hw hsame]
  exact ⟨hk.limit, hk.threads⟩

theorem Kept.start (hk : s.Kept setup) (hstep : s.step setup .start = some s') :
    s'.Kept setup := by
  simp only [BackgroundRelay.step] at hstep
  split_ifs at hstep with hidle
  obtain rfl := Option.some.inj hstep
  obtain ⟨hcontrol, haccept, hworkers, hcleanup, hwaiting⟩ := hk.gone hidle.1
  refine ⟨⟨List.nodup_nil, Nat.zero_le _⟩, hk.limit, hk.threads, ?_, hk.once, ?_, nofun⟩
  · refine Eq.trans ?_ hk.sum
    have hempty := Hall.waiting_eq_nil hwaiting
    show 0 + (s.hall.closed : Multiset Nat) + (_ + _ + 0 + _) =
      (s.hall.waiting : Multiset Nat) + s.hall.closed + _
    rw [hempty, haccept]
    rfl
  · intro hjoined
    rw [hcontrol] at hjoined
    cases hjoined

theorem Kept.client {k : Nat} {l : ClientLabel} (hk : s.Kept setup)
    (hstep : s.step setup (.client k l) = some s') : s'.Kept setup := by
  obtain ⟨w, hw, hstep⟩ := Option.bind_eq_some_iff.mp hstep
  obtain ⟨⟨pc, hall⟩, hclient, hstep⟩ := Option.bind_eq_some_iff.mp hstep
  obtain rfl := Option.some.inj hstep
  obtain ⟨hsound, hmoved⟩ := client_keeps hk.hall hclient
  obtain ⟨hlimit, hthreads⟩ := hk.setWorker { w with pc := pc } hw rfl
  have hset := heldBy_set { w with pc := pc } hw
  refine ⟨hsound, hlimit, hthreads, ?_, hk.once, hk.stopping, ?_⟩
  · -- what the thread had, it has given to the rooms, closed, or kept
    refine Eq.trans ?_ hk.sum
    apply add_right_cancel (b := (w.pc.held w.conn : Multiset Nat))
    show hall.sockets + (heldBy (s.workers.set k { w with pc := pc }) + s.cleanup +
      s.accept.held + s.control.held) + w.pc.held w.conn = _
    calc hall.sockets + (heldBy (s.workers.set k { w with pc := pc }) + s.cleanup +
          s.accept.held + s.control.held) + w.pc.held w.conn
        = hall.sockets + (heldBy (s.workers.set k { w with pc := pc }) + w.pc.held w.conn) +
            s.cleanup + s.accept.held + s.control.held := by abel
      _ = (hall.sockets + pc.held w.conn) + heldBy s.workers + s.cleanup + s.accept.held +
            s.control.held := by
        rw [hset]
        abel
      _ = _ := by
        rw [hmoved]
        abel
  · intro halive
    obtain ⟨-, -, hworkers, -⟩ := hk.gone halive
    rw [hworkers] at hw
    cases hw

theorem Kept.purge {stale : List Nat} (hk : s.Kept setup)
    (hstep : s.step setup (.purge stale) = some s') : s'.Kept setup := by
  simp only [BackgroundRelay.step] at hstep
  split_ifs at hstep with hidle
  obtain rfl := Option.some.inj hstep
  refine ⟨hk.hall.purge stale, hk.limit, hk.threads, ?_, hk.once, hk.stopping, ?_⟩
  · refine Eq.trans ?_ hk.sum
    show (s.hall.purge setup stale).1.sockets +
      (heldBy s.workers + (s.hall.purge setup stale).2 + s.accept.held + s.control.held) = _
    rw [← s.hall.sockets_purge setup stale, hidle.2]
    show _ = _ + (_ + 0 + _ + _)
    abel
  · intro halive
    rw [hidle.1] at halive
    cases halive

theorem Kept.closePurged {told : List Nat} (hk : s.Kept setup)
    (hstep : s.step setup (.closePurged told) = some s') : s'.Kept setup := by
  simp only [BackgroundRelay.step] at hstep
  split_ifs at hstep with hnone
  obtain rfl := Option.some.inj hstep
  refine ⟨hk.hall.congr rfl, hk.limit, hk.threads, ?_, hk.once, hk.stopping, ?_⟩
  · refine Eq.trans ?_ hk.sum
    show (s.hall.closePurged s.cleanup told).sockets +
      (heldBy s.workers + 0 + s.accept.held + s.control.held) = _
    rw [Hall.sockets_closePurged]
    abel
  · intro halive
    exact absurd (hk.gone halive).2.2.2.1 hnone

theorem Kept.stop (hk : s.Kept setup) (hstep : s.step setup .stop = some s') : s'.Kept setup := by
  simp only [BackgroundRelay.step] at hstep
  split_ifs at hstep with hidle
  obtain rfl := Option.some.inj hstep
  refine ⟨hk.hall, hk.limit, hk.threads, ?_, hk.once, nofun, ?_⟩
  · refine Eq.trans ?_ hk.sum
    rw [hidle.2]
    rfl
  · intro halive
    rw [hidle.1] at halive
    cases halive

theorem Kept.joinAccept (hk : s.Kept setup) (hstep : s.step setup .joinAccept = some s') :
    s'.Kept setup := by
  simp only [BackgroundRelay.step] at hstep
  split_ifs at hstep with hjoin
  obtain rfl := Option.some.inj hstep
  have hlive := hk.alive_of_control (by rw [hjoin.1]; exact StopPc.noConfusion)
  refine ⟨⟨List.nodup_nil, Nat.zero_le _⟩, hk.limit, hk.threads, ?_, hk.once,
    fun _ => hjoin.2, fun h => absurd h hlive⟩
  refine Eq.trans ?_ hk.sum
  rw [hjoin.1]
  show 0 + (s.hall.closed : Multiset Nat) + (_ + _ + _ + (s.hall.waiting : Multiset Nat)) =
    (s.hall.waiting : Multiset Nat) + s.hall.closed + (_ + _ + _ + 0)
  abel

theorem Kept.closeWaiting (hk : s.Kept setup) (hstep : s.step setup .closeWaiting = some s') :
    s'.Kept setup := by
  cases hcontrol : s.control with
  | closingWaiting gone =>
    simp only [BackgroundRelay.step, hcontrol] at hstep
    obtain rfl := Option.some.inj hstep
    have hlive := hk.alive_of_control (by rw [hcontrol]; exact StopPc.noConfusion)
    have hended : s.accept = .ended := hk.stopping (by rw [hcontrol]; rfl)
    refine ⟨hk.hall.congr rfl, hk.limit, hk.threads, ?_, hk.once, fun _ => hended,
      fun h => absurd h hlive⟩
    refine Eq.trans ?_ hk.sum
    rw [hcontrol]
    show (s.hall.close gone).sockets + (_ + _ + _ + 0) = _ + (_ + _ + _ + (gone : Multiset Nat))
    rw [Hall.sockets_close]
    abel
  | _ => simp [BackgroundRelay.step, hcontrol] at hstep

theorem Kept.interrupt (hk : s.Kept setup) (hstep : s.step setup .interrupt = some s') :
    s'.Kept setup := by
  cases hcontrol : s.control with
  | interrupting k =>
    have hlive := hk.alive_of_control (by rw [hcontrol]; exact StopPc.noConfusion)
    have hended : s.accept = .ended := hk.stopping (by rw [hcontrol]; rfl)
    have hsum := hk.sum
    rw [hcontrol] at hsum
    simp only [BackgroundRelay.step, hcontrol] at hstep
    cases hw : s.workers[k]? with
    | none =>
      simp only [hw] at hstep
      obtain rfl := Option.some.inj hstep
      exact ⟨hk.hall, hk.limit, hk.threads, hsum, hk.once, fun _ => hended,
        fun h => absurd h hlive⟩
    | some w =>
      simp only [hw] at hstep
      obtain rfl := Option.some.inj hstep
      obtain ⟨hlimit, hthreads⟩ := hk.setWorker { w with cancel := true } hw rfl
      have hset := heldBy_set { w with cancel := true } hw
      refine ⟨hk.hall, hlimit, hthreads, ?_, hk.once, fun _ => hended, fun h => absurd h hlive⟩
      refine Eq.trans ?_ hsum
      show _ + (heldBy (s.workers.set k { w with cancel := true }) + _ + _ + _) = _
      rw [add_right_cancel hset]
      rfl
  | _ => simp [BackgroundRelay.step, hcontrol] at hstep

theorem Kept.join (hk : s.Kept setup) (hstep : s.step setup .join = some s') : s'.Kept setup := by
  cases hcontrol : s.control with
  | joining =>
    cases hworkers : s.workers with
    | nil => simp [BackgroundRelay.step, hcontrol, hworkers] at hstep
    | cons w rest =>
      simp only [BackgroundRelay.step, hcontrol, hworkers] at hstep
      split_ifs at hstep with hdone
      obtain rfl := Option.some.inj hstep
      have hlive := hk.alive_of_control (by rw [hcontrol]; exact StopPc.noConfusion)
      have hended : s.accept = .ended := hk.stopping (by rw [hcontrol]; rfl)
      have hthreads := hk.threads
      have hlimit := hk.limit
      have hsum := hk.sum
      rw [hworkers] at hthreads hlimit
      rw [hworkers, hcontrol] at hsum
      refine ⟨hk.hall, (Nat.le_succ _).trans hlimit, ?_, ?_, hk.once, fun _ => hended,
        fun h => absurd h hlive⟩
      · refine Eq.trans ?_ hthreads
        show ((s.joined ++ [w.conn] : List Nat) : Multiset Nat) + (rest.map (·.conn) : List Nat) =
          _ + (([w.conn] ++ rest.map (·.conn) : List Nat) : Multiset Nat)
        rw [← Multiset.coe_add, ← Multiset.coe_add, add_assoc]
      · refine Eq.trans ?_ hsum
        show _ + (heldBy rest + _ + _ + _) =
          _ + (((w.pc.held w.conn : List Nat) : Multiset Nat) + heldBy rest + _ + _ + _)
        rw [hdone]
        exact congrArg (fun held => s.hall.sockets + (held + s.cleanup + s.accept.held + 0))
          (zero_add (heldBy rest)).symm
  | _ => simp [BackgroundRelay.step, hcontrol] at hstep

theorem Kept.reset (hk : s.Kept setup) (hstep : s.step setup .reset = some s') :
    s'.Kept setup := by
  simp only [BackgroundRelay.step] at hstep
  split_ifs at hstep with hdone
  obtain rfl := Option.some.inj hstep
  obtain ⟨hcontrol, hworkers, hcleanup⟩ := hdone
  have hended : s.accept = .ended := hk.stopping (by rw [hcontrol]; rfl)
  refine ⟨⟨List.nodup_nil, Nat.zero_le _⟩, hk.limit, hk.threads, ?_, hk.once, nofun, ?_⟩
  · refine Eq.trans ?_ hk.sum
    rw [hcontrol]
    show 0 + ((s.hall.closed ++ s.hall.waiting : List Nat) : Multiset Nat) + (_ + _ + _ + 0) =
      (s.hall.waiting : Multiset Nat) + s.hall.closed + (_ + _ + _ + 0)
    rw [← Multiset.coe_add]
    abel
  · intro _
    exact ⟨rfl, hended, hworkers, hcleanup, rfl⟩

/-- **The relay goes on**, whichever thread moves. -/
theorem Kept.step {l : ServerLabel} (hk : s.Kept setup) (hstep : s.step setup l = some s') :
    s'.Kept setup := by
  cases l with
  | start => exact hk.start hstep
  | accept l => exact hk.acceptStep rfl hstep
  | client k l => exact hk.client hstep
  | purge stale => exact hk.purge hstep
  | closePurged told => exact hk.closePurged hstep
  | stop => exact hk.stop hstep
  | joinAccept => exact hk.joinAccept hstep
  | closeWaiting => exact hk.closeWaiting hstep
  | interrupt => exact hk.interrupt hstep
  | join => exact hk.join hstep
  | reset => exact hk.reset hstep

end Kept

/-- **A relay loses no socket and no thread.** However its threads and its caller move: there are no
    more threads and no more waiting peers than it was told to have; every thread that was started
    runs or was joined; every socket that was accepted waits in a room, is in one thread's hands or
    was closed, and none is in two places. Once `stop` has returned, all of them are closed and
    joined. -/
theorem relay_loses_nothing {setup : Setup} {s : BackgroundRelay} (h : Lts.Reach (step setup) {} s) :
    s.workers.length ≤ setup.limit ∧
      s.hall.waiting.length ≤ setup.config.maxWaitingPeers ∧
      (s.joined : Multiset Nat) + (s.workers.map (·.conn) : List Nat) = s.started ∧
      (s.hall.waiting : Multiset Nat) + s.hall.closed + s.inHand = s.accepted ∧ s.accepted.Nodup ∧
      (s.alive = false → s.hall.closed.Perm s.accepted ∧ s.joined.Perm s.started) := by
  have hk : s.Kept setup := h.invariant kept_init fun hk _ hstep => hk.step hstep
  have hcapacity : s.hall.waiting.length ≤ setup.config.maxWaitingPeers := by
    unfold Hall.waiting
    rw [List.length_map]
    exact hk.hall.capacity
  refine ⟨hk.limit, hcapacity, hk.threads, hk.sockets, hk.once, ?_⟩
  intro halive
  obtain ⟨hcontrol, haccept, hworkers, hcleanup, hwaiting⟩ := hk.gone halive
  have hempty := Hall.waiting_eq_nil hwaiting
  refine ⟨Multiset.coe_eq_coe.mp ?_, Multiset.coe_eq_coe.mp ?_⟩
  · refine Eq.trans ?_ hk.sockets
    unfold Hall.sockets inHand
    rw [hempty, hworkers, hcleanup, haccept, hcontrol]
    show _ = 0 + _ + (0 + 0 + 0 + 0)
    abel
  · refine Eq.trans ?_ hk.threads
    rw [hworkers]
    exact (add_zero _).symm

def sampleSetup : Setup where
  version := "1"
  peerEndpoint conn := { host := "10.0.0.1", port := conn }

/-- A sender waits, its receiver comes and is introduced to it, neither says which route it takes,
    and the relay is stopped. -/
def twoClients : List ServerLabel :=
  [.start, .accept .turn, .accept (.client 1), .accept (.launch none),
    .client 0 (.read (.message (saying "7" "sender")) true), .client 0 (.purge []),
    .client 0 (.closePurged []), .client 0 (.pair true), .client 0 .close, .accept .turn,
    .accept (.client 2), .accept (.launch none),
    .client 0 (.read (.message (saying "7" "receiver")) true), .client 0 (.purge []),
    .client 0 (.closePurged []), .client 0 (.pair true), .client 0 (.introduce 5 true true),
    .client 0 .expire, .client 0 (.answer true true), .client 0 .release, .client 0 .close, .stop,
    .accept .turn, .joinAccept, .closeWaiting, .interrupt, .reset]

theorem relay_loses_nothing_two_clients :
    ∃ s, Lts.Reach (step sampleSetup) {} s ∧ s.alive = false ∧ s.accepted = [1, 2] ∧
      s.hall.closed.Perm s.accepted ∧ s.joined.Perm s.started := by
  obtain ⟨s, hreach, hlast⟩ := Lts.Reach.exists_of_run (step sampleSetup) {} twoClients
    (fun s => decide (s.alive = false ∧ s.accepted = [1, 2])) (by decide +kernel)
  obtain ⟨hstopped, haccepted⟩ := of_decide_eq_true hlast
  exact ⟨s, hreach, hstopped, haccepted, (relay_loses_nothing hreach).2.2.2.2.2 hstopped⟩

end BackgroundRelay

end Kiko.RelayServer
