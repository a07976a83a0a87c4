import Kiko.Lib.Transition
import Kiko.Relay.RouteState

/-!
# Two clients and the relay choose a route (`connect/route_session`, `relay/relay_server`)

Two v2 clients each run `race_transfer_route` (and from it `select_transfer_route`) on
their connection to the relay, and the relay runs `wait_route_decision` for the pair and
then answers both. The three parties are put side by side: every connection is a lossless
FIFO, and what the probes find, when a pending message is seen, and which timeout fires
are carried by the labels.

Two things are recorded that the code does not store: `Client.announced`, the last
route-control message a client has sent, and on every frame a client sends whether that
client had by then received the relay's `relay_start` (`Sent.afterStart`).
-/

set_option autoImplicit false

namespace Kiko.Route

/-- The two connections of the pair, in the order in which the relay handles them: the
    client that was waiting, then the client that completed the pair. -/
inductive Side
  | first
  | second
deriving DecidableEq, Repr

def Side.other : Side → Side
  | .first => .second
  | .second => .first

inductive RoutePath
  | direct
  | relay
deriving DecidableEq, Repr

/-- `RouteSelection`: the part of it that the peers have to agree on. -/
structure RouteSelection where
  path : RoutePath := .relay
  allowLanUpgrade : Bool := false
deriving DecidableEq, Repr

/-- The route-control messages of a client. -/
inductive Signal
  | standby
  | directOk
  | relayReady
deriving DecidableEq, Repr

def Signal.message : Signal → Message
  | .standby => { type := "relay_standby" }
  | .directOk => { type := "direct_ok" }
  | .relayReady => { type := "relay_ready" }

/-! ## What travels on the connections -/

inductive ClientFrame
  | control (m : Message)
  | data (payload : Bytes)
deriving DecidableEq, Repr

/-- A frame as it leaves a client. -/
structure Sent where
  frame : ClientFrame
  afterStart : Bool
deriving DecidableEq, Repr

/-- What a client receives on its relay connection: the relay's own messages, and, once the
    relay pipes the two streams into each other, the frames of the other client. -/
inductive RelayFrame
  | control (m : Message)
  | forwarded (w : Sent)
deriving DecidableEq, Repr

/-- `decode_message` on a received frame. -/
def RelayFrame.decode : RelayFrame → Except KikoError Message
  | .control m => .ok m
  | .forwarded ⟨.control m, _⟩ => .ok m
  | .forwarded ⟨.data _, _⟩ => .error "invalid control message json"

/-! ## The client

A client waits with its direct attempt going on, and takes messages of the relay between.
What it has announced is its last word until it hears the decision. -/

inductive ClientPc
  /-- at the head of `race_transfer_route` -/
  | begin
  /-- the direct attempt is pending -/
  | racing
  /-- the direct attempt is over; before the last look at the relay -/
  | probed (direct : Bool)
  /-- `direct_ok` is sent, the relay's confirmation is awaited -/
  | confirming
  /-- `relay_ready` is sent, `relay_start` is awaited -/
  | ready
  | returned (selection : RouteSelection)
  | failed (error : KikoError)
deriving DecidableEq, Repr

structure Client where
  skipDirect : Bool
  pc : ClientPc := .begin
  announced : Option Signal := none
  toRelay : List Sent := []
  fromRelay : List RelayFrame := []
deriving DecidableEq, Repr

namespace Client

/-- The client has received `relay_start`. -/
def hasStart (c : Client) : Bool :=
  match c.pc with
  | .returned ⟨.relay, _⟩ => true
  | _ => false

def transmit (c : Client) (frame : ClientFrame) : Client :=
  { c with toRelay := c.toRelay ++ [⟨frame, c.hasStart⟩] }

/-- `send_message` of a route-control message, and what the client waits for after it. -/
def announce (c : Client) (signal : Signal) (pc : ClientPc) : Client :=
  { c.transmit (.control signal.message) with announced := some signal, pc := pc }

/-- A frame is read from the relay and handled. -/
def receive (c : Client) (handle : Message → ClientPc) : Option Client :=
  match c.fromRelay with
  | [] => none
  | f :: rest =>
    match f.decode with
    | .ok m => some { c with fromRelay := rest, pc := handle m }
    | .error e => some { c with fromRelay := rest, pc := .failed e }

end Client

/-- `relay_selection_from_start`. -/
def relaySelectionFromStart (start : Message) : RouteSelection :=
  { path := .relay, allowLanUpgrade := start.get "reason" ≠ "mismatch" }

/-- `race_transfer_route` on a message of the relay, while the direct attempt is pending and
    once more before the route is announced. -/
def onRaceMessage (moment : String) (m : Message) : ClientPc :=
  if m.type = "relay_start" then .returned (relaySelectionFromStart m)
  else if m.type = "error" then .failed ("relay route error: " ++ m.get "code" "unknown")
  else if m.type = "done" then .failed "relay closed before route selection"
  else .failed ("unexpected relay route message " ++ moment ++ ": " ++ m.type)

/-- `select_transfer_route` with a direct channel, on the relay's confirmation. -/
def onConfirmation (m : Message) : ClientPc :=
  if m.type = "relay_start" then .returned { path := .relay, allowLanUpgrade := false }
  else if m.type ≠ "direct_start" then
    .failed ("unexpected relay route confirmation: " ++ m.type)
  else .returned { path := .direct }

/-- `select_transfer_route` without a direct channel, on the relay's answer. -/
def onRelayStart (m : Message) : ClientPc :=
  if m.type ≠ "relay_start" then .failed "relay did not start stream"
  else .returned (relaySelectionFromStart m)

/-- The announcement of `select_transfer_route`. -/
def Client.selectTransferRoute (c : Client) (direct : Bool) : Client :=
  if direct then c.announce .directOk .confirming else c.announce .relayReady .ready

/-! ## The relay

It polls both connections in turn until both have chosen or its window is over, and
answers both from one decision. -/

/-- The message the relay answers a decision with. -/
def decisionMessage : RelayRouteDecision → Message
  | .direct => { type := "direct_start" }
  | .relay reason => { type := "relay_start", fields := [("reason", reason)] }
  | .pending | .invalid => { type := "done" }

inductive RelayPc
  /-- `wait_route_decision`: the read of `side` is next -/
  | read (side : Side)
  | decide
  /-- the answer is still owed to `sides` -/
  | answer (sides : List Side)
  /-- `relay_stream_sync` -/
  | streaming
  | finished
deriving DecidableEq, Repr

/-- What a read of `recv_route_choice_if_ready` finds: nothing yet, the next frame, or the
    end of the connection (also when the rest of a frame missed its window). -/
inductive ChoiceRead
  | nothing
  | frame
  | closed
deriving DecidableEq, Repr

structure System where
  client : Side → Client
  choice : Side → RelayRouteChoice := fun _ => .waiting
  relay : RelayPc := .read .first
  decision : Option RelayRouteDecision := none
  forwarded : List Sent := []

namespace System

def setClient (s : System) (i : Side) (c : Client) : System :=
  { s with client := Function.update s.client i c }

/-- `relay_route_decision_for` on what the relay remembers. -/
def decisionNow (s : System) (deadlineExpired : Bool) : RelayRouteDecision :=
  relayRouteDecisionFor (s.choice .first) (s.choice .second) deadlineExpired

/-- `wait_route_decision` returns `decision`. -/
def decideOn (s : System) (decision : RelayRouteDecision) : System :=
  { s with decision := some decision, relay := .answer [.first, .second] }

/-- The loop of `wait_route_decision` goes on after the read of `i`. -/
def afterRead (i : Side) : RelayPc :=
  match i with
  | .first => .read .second
  | .second => .decide

/-- The loop of `wait_route_decision` merges what the read of `i` found and goes on, with
    `rest` left on the connection. -/
def mergeChoice (s : System) (i : Side) (rest : List Sent) (next : RelayRouteChoice) : System :=
  { s.setClient i { s.client i with toRelay := rest } with
    choice := Function.update s.choice i (mergeRelayRouteChoice (s.choice i) next),
    relay := afterRead i }

/-- `recv_route_choice_if_ready` on connection `i`, and the merge of what it found. A frame
    that is no control message is an exception, and the relay gives the pair up. -/
def readChoice (s : System) (i : Side) : ChoiceRead → Option System
  | .nothing => some { s with relay := afterRead i }
  | .frame =>
    match (s.client i).toRelay with
    | ⟨.control m, _⟩ :: rest => some (s.mergeChoice i rest (relayRouteChoiceFrom m))
    | ⟨.data _, _⟩ :: _ => some { s with relay := .finished }
    | [] => none
  | .closed => some (s.mergeChoice i [] .invalid)

end System

inductive Label
  /-- client `i` enters `race_transfer_route` -/
  | begin (i : Side)
  /-- client `i` reads the relay while its direct attempt is pending -/
  | poll (i : Side)
  /-- the direct attempt of client `i` ends, with or without a channel -/
  | probe (i : Side) (direct : Bool)
  /-- the last look of client `i` at the relay, by whether it finds a message -/
  | lastLook (i : Side) (sees : Bool)
  /-- client `i` reads the relay's answer -/
  | confirm (i : Side)
  /-- a timeout or a cancellation ends the route selection of client `i` -/
  | giveUp (i : Side)
  /-- client `i` sends application data on the relay path -/
  | send (i : Side) (payload : Bytes)
  /-- the relay reads the connection whose turn it is -/
  | read (found : ChoiceRead)
  | decide
  /-- the relay's own deadline -/
  | expire
  | cancelRelay
  /-- the relay sends its answer to the next client -/
  | answer
  /-- a connection fails under the relay after its decision -/
  | broken
  /-- the relay pipes one frame of client `i` to the other one -/
  | forward (i : Side)
deriving DecidableEq, Repr

/-- The client's waits are over only by returning or failing. -/
def ClientPc.waiting : ClientPc → Bool
  | .returned _ | .failed _ => false
  | _ => true

/-- What a client throws when its wait ends without a message. -/
def ClientPc.timeoutError : ClientPc → KikoError
  | .confirming => "relay closed before route confirmation"
  | .ready => "relay did not start stream"
  | _ => "transfer canceled"

def step (s : System) : Label → Option System
  | .begin i =>
    let c := s.client i
    if c.pc = .begin then
      some (s.setClient i
        (if c.skipDirect then c.selectTransferRoute false else c.announce .standby .racing))
    else none
  | .poll i =>
    if (s.client i).pc = .racing then
      ((s.client i).receive (onRaceMessage "while direct pending")).map (s.setClient i)
    else none
  | .probe i direct =>
    if (s.client i).pc = .racing then
      some (s.setClient i { s.client i with pc := .probed direct })
    else none
  | .lastLook i sees =>
    match (s.client i).pc with
    | .probed direct =>
      if sees then
        ((s.client i).receive (onRaceMessage "before route confirmation")).map (s.setClient i)
      else some (s.setClient i ((s.client i).selectTransferRoute direct))
    | _ => none
  | .confirm i =>
    match (s.client i).pc with
    | .confirming => ((s.client i).receive onConfirmation).map (s.setClient i)
    | .ready => ((s.client i).receive onRelayStart).map (s.setClient i)
    | _ => none
  | .giveUp i =>
    if (s.client i).pc.waiting then
      some (s.setClient i { s.client i with pc := .failed (s.client i).pc.timeoutError })
    else none
  | .send i payload =>
    if (s.client i).hasStart then some (s.setClient i ((s.client i).transmit (.data payload)))
    else none
  | .read found =>
    match s.relay with
    | .read i => s.readChoice i found
    | _ => none
  | .decide =>
    if s.relay = .decide then
      some (if s.decisionNow false = .pending then { s with relay := .read .first }
        else s.decideOn (s.decisionNow false))
    else none
  | .expire =>
    if s.relay = .read .first then some (s.decideOn (s.decisionNow true)) else none
  | .cancelRelay =>
    if s.relay = .read .first then some (s.decideOn .invalid) else none
  | .answer =>
    match s.relay, s.decision with
    | .answer (i :: rest), some decision =>
      let c := s.client i
      some { s.setClient i { c with fromRelay := c.fromRelay ++ [.control (decisionMessage decision)] }
             with relay := .answer rest }
    | .answer [], some (.relay _) => some { s with relay := .streaming }
    | .answer [], some _ => some { s with relay := .finished }
    | _, _ => none
  | .broken =>
    match s.relay with
    | .answer _ | .streaming => some { s with relay := .finished }
    | _ => none
  | .forward i =>
    match s.relay, (s.client i).toRelay with
    | .streaming, w :: rest =>
      let s := s.setClient i { s.client i with toRelay := rest }
      let d := s.client i.other
      some { s.setClient i.other { d with fromRelay := d.fromRelay ++ [.forwarded w] }
             with forwarded := s.forwarded ++ [w] }
    | _, _ => none

/-- Both clients at the head of `race_transfer_route`, nothing on the wire. -/
def start (skipDirect : Side → Bool) : System :=
  { client := fun i => { skipDirect := skipDirect i } }

end Kiko.Route
