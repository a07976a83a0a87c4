import Kiko.Lib.Transition
import Kiko.Core.Protocol

/-!
# The direct attempt of two peers (`connect/connectivity`)

Each peer runs `try_direct_with_plan`: a phase in which both dial from their listening port,
then a phase in which only the receiver dials, then one in which only the sender does. In
every phase a peer goes through bursts of dials, each followed by one look at its own
listener. A dialer says `direct_hello` and waits for `direct_ack`; when two dials meet in
one connection (a simultaneous open) both say hello, both answer it with an ack, and both
wait for the other's ack. An acceptor checks the hello, answers with the ack and returns
the socket at once.

A connection is a pair of ends with a FIFO in each direction; what was sent stays readable
after the other end is closed. Labels carry what the environment decides: where a dial
lands, which pending connection an accept yields, and every timeout.

An acceptor learns nothing after its ack, and a dialer that gives up tells nobody: its
hello stays readable in the backlog where the dial has landed. So whether the two sockets
belong together is decided by the timeouts alone, and the condition `patient` is on them.

**What the attempts agree on.** In every `patient` run two returned sockets are the two open
ends of one connection (`direct_agree`). The invariant says of an end that a party holds
what the two ends say about each other while the peer holds the other one (`Linked`), and
that nothing which would make the party keep it can arrive when the peer does not
(`OneSided`).
-/

set_option autoImplicit false

namespace Kiko.Direct

/-- One end of connection `id`: the dialed one or the other one. -/
structure End where
  id : Nat
  dialed : Bool
deriving DecidableEq, Repr

def End.other (e : End) : End :=
  { e with dialed := !e.dialed }

inductive Phase
  | samePort
  | receiverActive
  | senderActive
deriving DecidableEq, Repr

/-- The phase after this one; the attempt gives up after the last. -/
def Phase.next : Phase → Option Phase
  | .samePort => some .receiverActive
  | .receiverActive => some .senderActive
  | .senderActive => none

/-- `role_name`. -/
def roleName : Role → String
  | .sender => "sender"
  | .receiver => "receiver"

/-- Who dials in a phase: both in the first, then the active role. -/
def mayDial (role : Role) : Phase → Bool
  | .samePort => true
  | .receiverActive => role = .receiver
  | .senderActive => role = .sender

/-- The `expected_role` of `accept_direct_candidate`. -/
def expectedRole (role : Role) : Phase → Role
  | .samePort => role.peer
  | .receiverActive => .receiver
  | .senderActive => .sender

/-- What is awaited on a connection: the dialer's reply to its hello, the ack of a
    simultaneous open, or the hello on an accepted connection. -/
inductive Wait
  | reply
  | ack
  | hello
deriving DecidableEq, Repr

inductive Pc
  /-- in the burst of dials -/
  | dialing (phase : Phase)
  /-- at the look at the listener that follows it -/
  | accepting (phase : Phase)
  | waiting (wait : Wait) (phase : Phase) (e : End)
  | returned (socket : Option End)
deriving DecidableEq, Repr

/-- `direct_hello` of a role. -/
def directHello (room : String) (role : Role) : Message :=
  { type := "direct_hello", fields := [("room", room), ("role", roleName role)] }

def directAck (room : String) : Message :=
  { type := "direct_ack", fields := [("room", room)] }

/-- `direct_ack_ok`. -/
def directAckOk (m : Message) (room : String) : Bool :=
  m.type = "direct_ack" && m.get "room" = room

/-- `direct_hello_ok`. -/
def directHelloOk (m : Message) (room : String) (expected : Role) : Bool :=
  m.type = "direct_hello" && m.get "room" = room && m.get "role" = roleName expected

/-- What a peer does with the message it was waiting for. -/
inductive Verdict
  /-- the socket is returned -/
  | keep
  /-- the ack is sent and the socket is returned -/
  | ackAndKeep
  /-- the ack is sent and the peer's ack is awaited -/
  | ackAndWait
  /-- the socket is closed -/
  | drop
deriving DecidableEq, Repr

/-- `complete_direct_dial_preflight` and `accept_direct_candidate` on a message. -/
def onMessage (room : String) (role : Role) (phase : Phase) (m : Message) : Wait → Verdict
  | .reply =>
    if directAckOk m room then .keep
    else if directHelloOk m room role.peer then .ackAndWait else .drop
  | .ack => if directAckOk m room then .keep else .drop
  | .hello => if directHelloOk m room (expectedRole role phase) then .ackAndKeep else .drop

structure System where
  pc : Role → Pc := fun _ => .dialing .samePort
  /-- the listener whose backlog holds a connection -/
  pending : Nat → Option Role := fun _ => none
  inbox : End → List Message := fun _ => []
  closed : End → Bool := fun _ => false
  /-- the next unused connection -/
  next : Nat := 0

inductive Label
  /-- a dial of `r` connects: to a peer's listener, or to somebody who never answers -/
  | dial (r : Role) (lands : Option Role)
  /-- the dials of both meet in one connection -/
  | cross
  /-- somebody else connects to the listener of `r`, with a hello or without -/
  | stray (r : Role) (hello : Option Message)
  /-- `r` reads the message it waits for -/
  | read (r : Role)
  /-- the wait of `r` times out, or its connection fails -/
  | timeout (r : Role)
  /-- `r` turns from its dials to its listener -/
  | listen (r : Role)
  | accept (r : Role) (id : Nat)
  | noAccept (r : Role)
  /-- the phase of `r` is over -/
  | nextPhase (r : Role)
  | cancel (r : Role)
deriving DecidableEq, Repr

namespace System

def setPc (s : System) (r : Role) (pc : Pc) : System :=
  { s with pc := Function.update s.pc r pc }

/-- A message leaves the end `e`. -/
def send (s : System) (e : End) (m : Message) : System :=
  { s with inbox := Function.update s.inbox e.other (s.inbox e.other ++ [m]) }

/-- A message has been read from `e`, and `rest` is left. -/
def consume (s : System) (e : End) (rest : List Message) : System :=
  { s with inbox := Function.update s.inbox e rest }

def close (s : System) (e : End) : System :=
  { s with closed := Function.update s.closed e true }

/-- `r` closes `e` and goes on with its phase. -/
def abandon (s : System) (r : Role) (phase : Phase) (e : End) : System :=
  (s.close e).setPc r (.dialing phase)

/-- A new connection, `lands` being the listener that holds it. -/
def connect (s : System) (lands : Option Role) : System :=
  { s with pending := Function.update s.pending s.next lands, next := s.next + 1 }

/-- What `r` does with a message on `e`. -/
def conclude (s : System) (room : String) (r : Role) (phase : Phase) (e : End) : Verdict → System
  | .keep => s.setPc r (.returned (some e))
  | .ackAndKeep => (s.send e (directAck room)).setPc r (.returned (some e))
  | .ackAndWait => (s.send e (directAck room)).setPc r (.waiting .ack phase e)
  | .drop => s.abandon r phase e

end System

variable (room : String)

def step (s : System) : Label → Option System
  | .dial r lands =>
    match s.pc r with
    | .dialing phase =>
      if mayDial r phase then
        let e : End := ⟨s.next, true⟩
        some (((s.connect lands).send e (directHello room r)).setPc r (.waiting .reply phase e))
      else none
    | _ => none
  | .cross =>
    match s.pc .sender, s.pc .receiver with
    | .dialing p, .dialing q =>
      if mayDial .sender p && mayDial .receiver q then
        let e : End := ⟨s.next, true⟩
        let s := ((s.connect none).send e (directHello room .sender)).send e.other
          (directHello room .receiver)
        some ((s.setPc .sender (.waiting .reply p e)).setPc .receiver (.waiting .reply q e.other))
      else none
    | _, _ => none
  | .stray r hello =>
    -- only the two peers of the room know its token
    if hello.any fun m => m.get "room" = room then none
    else
      let s' := s.connect (some r)
      some (match hello with
        | some m => s'.send ⟨s.next, true⟩ m
        | none => s')
  | .read r =>
    match s.pc r with
    | .waiting wait phase e =>
      match s.inbox e with
      | m :: rest =>
        some ((s.consume e rest).conclude room r phase e (onMessage room r phase m wait))
      | [] => none
    | _ => none
  | .timeout r =>
    match s.pc r with
    | .waiting _ phase e => some (s.abandon r phase e)
    | _ => none
  | .listen r =>
    match s.pc r with
    | .dialing phase => some (s.setPc r (.accepting phase))
    | _ => none
  | .accept r id =>
    match s.pc r with
    | .accepting phase =>
      if s.pending id = some r then
        some ({ s with pending := Function.update s.pending id none }.setPc r
          (.waiting .hello phase ⟨id, false⟩))
      else none
    | _ => none
  | .noAccept r =>
    match s.pc r with
    | .accepting phase => some (s.setPc r (.dialing phase))
    | _ => none
  | .nextPhase r =>
    match s.pc r with
    | .dialing phase | .accepting phase =>
      some (s.setPc r (match phase.next with
        | some phase => .dialing phase
        | none => .returned none))
    | _ => none
  | .cancel r =>
    match s.pc r with
    | .waiting _ _ e => some ((s.close e).setPc r (.returned none))
    | .dialing _ | .accepting _ => some (s.setPc r (.returned none))
    | .returned _ => none

/-- Two peers at the start of their attempts. -/
def start : System := {}

/-! ## Agreement, and the steps that keep it -/

/-- The two sockets are the two ends of one connection, and neither is closed. -/
def Agreed (s : System) (a b : End) : Prop :=
  b = a.other ∧ s.closed a = false ∧ s.closed b = false

/-- The end a peer holds, with what it waits for on it; `none` for a returned socket. -/
def Pc.held : Pc → Option (Option Wait × End)
  | .waiting wait _ e => some (some wait, e)
  | .returned (some e) => some (none, e)
  | _ => none

/-- Whether a wait may be given up, by how the peer holds the other end. An acceptor that
    has not read its hello may, and so may a dialer whose dial has met the peer's own, until
    it has sent its ack. -/
def mayGiveUp : Wait → Option Wait → Bool
  | .hello, _ => true
  | .reply, some .reply | .reply, some .ack => true
  | _, _ => false

/-- A wait is given up only when its connection is in nobody's backlog, and while the peer
    does not hold the other end or holds it in a way that admits it. -/
def patient (s : System) : Label → Bool
  | .timeout r =>
    match s.pc r with
    | .waiting wait _ e =>
      s.pending e.id = none &&
        (s.pc r.peer).held.all fun h => h.2 ≠ e.other || mayGiveUp wait h.1
    | _ => true
  | _ => true

variable {room : String} {s s' : System} {l : Label} {r : Role} {e e' : End}
  {x y : Option Wait}

/-! ## The messages

What each message makes of a wait, in both directions: what a message does, and which
message it must have been. The invariant uses the second form. -/

@[simp] theorem End.other_other : e.other.other = e := by simp [End.other]

theorem End.other_ne : e.other ≠ e := by
  intro h
  simpa [End.other] using congrArg End.dialed h

@[simp] theorem End.other_id : e.other.id = e.id := rfl

theorem End.ne_of_id (h : e.id ≠ e'.id) : e ≠ e' := fun he => h (he ▸ rfl)

@[simp] theorem directAckOk_ack : directAckOk (directAck room) room = true := by
  simp [directAckOk, directAck, Message.get]

@[simp] theorem directAckOk_hello : directAckOk (directHello room r) room = false := by
  simp [directAckOk, directHello]

@[simp] theorem directHelloOk_hello : directHelloOk (directHello room r) room r = true := by
  simp [directHelloOk, directHello, Message.get, List.lookup]

@[simp] theorem onMessage_hello {phase : Phase} :
    onMessage room r phase (directHello room r.peer) .reply = .ackAndWait := by
  simp [onMessage]

@[simp] theorem onMessage_ack_reply {phase : Phase} :
    onMessage room r phase (directAck room) .reply = .keep := by
  simp [onMessage]

@[simp] theorem onMessage_ack_ack {phase : Phase} :
    onMessage room r phase (directAck room) .ack = .keep := by
  simp [onMessage]

/-- A socket is returned without an ack of one's own only on the peer's ack. -/
theorem onMessage_eq_keep {phase : Phase} {m : Message} {w : Wait}
    (h : onMessage room r phase m w = .keep) : w ≠ .hello ∧ directAckOk m room = true := by
  cases w with
  | reply =>
    simp only [onMessage] at h
    split at h
    · next hack => exact ⟨nofun, hack⟩
    · split at h <;> cases h
  | ack =>
    simp only [onMessage] at h
    split at h
    · next hack => exact ⟨nofun, hack⟩
    · cases h
  | hello =>
    simp only [onMessage] at h
    split at h <;> cases h

/-- Only an acceptor acks and returns at once, on a hello of its room. -/
theorem onMessage_eq_ackAndKeep {phase : Phase} {m : Message} {w : Wait}
    (h : onMessage room r phase m w = .ackAndKeep) : w = .hello ∧ m.get "room" = room := by
  cases w with
  | reply =>
    simp only [onMessage] at h
    split at h
    · cases h
    · split at h <;> cases h
  | ack =>
    simp only [onMessage] at h
    split at h <;> cases h
  | hello =>
    simp only [onMessage] at h
    split at h
    · next hok =>
      simp only [directHelloOk, Bool.and_eq_true, decide_eq_true_eq] at hok
      exact ⟨rfl, hok.1.2⟩
    · cases h

/-- Only a dialer goes on to wait for an ack. -/
theorem onMessage_eq_ackAndWait {phase : Phase} {m : Message} {w : Wait}
    (h : onMessage room r phase m w = .ackAndWait) : w = .reply := by
  cases w with
  | reply => rfl
  | ack | hello =>
    simp only [onMessage] at h
    split at h <;> cases h

/-! ## What two held ends of one connection say about each other

The pairs of waits that can face each other, with what is on its way between them. Anything
else would let one side return and the other go on. -/

/-- The two ends `e` and `e.other` held by `r` and its peer: what each waits for (`none` once
    it is returned), and what is on its way to each. -/
inductive Linked (room : String) (r : Role) :
    Option Wait → Option Wait → List Message → List Message → Prop
  | crossed : Linked room r (some .reply) (some .reply) [directHello room r.peer]
      [directHello room r]
  | ackReply : Linked room r (some .ack) (some .reply) [] [directHello room r, directAck room]
  | replyAck : Linked room r (some .reply) (some .ack) [directHello room r.peer, directAck room] []
  | ackAck : Linked room r (some .ack) (some .ack) [directAck room] [directAck room]
  | doneAck {ix : List Message} : Linked room r none (some .ack) ix [directAck room]
  | ackDone {iy : List Message} : Linked room r (some .ack) none [directAck room] iy
  | replyHello {iy : List Message} : Linked room r (some .reply) (some .hello) [] iy
  | helloReply {ix : List Message} : Linked room r (some .hello) (some .reply) ix []
  | doneReply {ix : List Message} : Linked room r none (some .reply) ix [directAck room]
  | replyDone {iy : List Message} : Linked room r (some .reply) none [directAck room] iy
  | doneDone {ix iy : List Message} : Linked room r none none ix iy

theorem Linked.symm {ix iy : List Message} (h : Linked room r x y ix iy) :
    Linked room r.peer y x iy ix := by
  cases h with
  | crossed =>
    have h : Linked room r.peer _ _ [directHello room r.peer.peer] _ := .crossed
    rwa [Role.peer_peer] at h
  | ackReply =>
    have h : Linked room r.peer _ _ [directHello room r.peer.peer, _] _ := .replyAck
    rwa [Role.peer_peer] at h
  | replyAck => exact .ackReply
  | ackAck => exact .ackAck
  | doneAck => exact .ackDone
  | ackDone => exact .doneAck
  | replyHello => exact .helloReply
  | helloReply => exact .replyHello
  | doneReply => exact .replyDone
  | replyDone => exact .doneReply
  | doneDone => exact .doneDone

variable (room) in
/-- An end whose other end the peer does not hold: unless the peer has given up its whole
    attempt, the end is not returned and nothing on its way makes the party return it. -/
def OneSided (x : Option Wait) (ix : List Message) (peerGone : Prop) : Prop :=
  peerGone ∨
    match x with
    | none => False
    | some .reply | some .ack => ∀ m ∈ ix, directAckOk m room = false
    | some .hello => ∀ m ∈ ix, m.get "room" ≠ room

/-- The peer waits for an answer that never comes. -/
theorem OneSided.of_nil {w : Wait} {gone : Prop} : OneSided room (some w) [] gone := by
  cases w <;> exact .inr nofun

/-- A party gives up its wait, where it may: what it has sent makes the peer return nothing. -/
theorem Linked.oneSided {w : Wait} {ix iy : List Message} {gone : Prop}
    (h : Linked room r (some w) y ix iy) (hw : mayGiveUp w y = true) :
    OneSided room y iy gone := by
  cases h with
  | crossed =>
    refine .inr fun m hm => ?_
    rw [List.mem_singleton.mp hm]
    exact directAckOk_hello
  | replyAck | helloReply => exact .of_nil
  | ackReply | ackAck | ackDone | replyHello | replyDone => cases hw

/-! ## The invariant

By ends and not by connections, since the two ends of a connection are held, queued and
closed one at a time. -/

/-- The peer of `r` holds `e`, in whatever way. -/
def System.peerHolds (s : System) (r : Role) (e : End) : Prop :=
  ∃ y, (s.pc r.peer).held = some (y, e)

variable (room) in
/-- What holds of an end `e` that `r` holds. -/
structure EndOk (s : System) (r : Role) (x : Option Wait) (e : End) : Prop where
  isOpen : s.closed e = false
  used : e.id < s.next
  accepted : e.dialed = false → s.pending e.id = none
  apart : ¬ s.peerHolds r e
  linked : ∀ y, (s.pc r.peer).held = some (y, e.other) →
    Linked room r x y (s.inbox e) (s.inbox e.other)
  alone : ¬ s.peerHolds r e.other →
    OneSided room x (s.inbox e) (s.pc r.peer = .returned none)

variable (room) in
/-- What holds of a connection that waits in a listener's backlog. -/
structure PendingOk (s : System) (id : Nat) : Prop where
  used : id < s.next
  isOpen : s.closed ⟨id, false⟩ = false
  silent : s.inbox ⟨id, true⟩ = []
  dialer : ∀ r x, (s.pc r).held = some (x, ⟨id, true⟩) → x = some .reply
  unheld : ∀ r x, (s.pc r).held ≠ some (x, ⟨id, false⟩)
  /-- its dialer waits, or a party has given up its attempt, or it is a stranger's -/
  backed : (∃ r, (s.pc r).held = some (some .reply, ⟨id, true⟩)) ∨
    (∃ r, s.pc r = .returned none) ∨ ∀ m ∈ s.inbox ⟨id, false⟩, m.get "room" ≠ room

variable (room) in
structure Inv (s : System) : Prop where
  ends : ∀ r x e, (s.pc r).held = some (x, e) → EndOk room s r x e
  pending : ∀ id q, s.pending id = some q → PendingOk room s id
  unused : ∀ e, s.next ≤ e.id → s.inbox e = [] ∧ s.closed e = false

theorem inv_start : Inv room start where
  ends _ _ _ h := nomatch h
  pending _ _ h := nomatch h
  unused _ _ := ⟨rfl, rfl⟩

namespace System

@[simp] theorem setPc_pc_self {pc : Pc} : (s.setPc r pc).pc r = pc := by simp [setPc]

theorem setPc_pc_of_ne {pc : Pc} {r' : Role} (h : r' ≠ r) : (s.setPc r pc).pc r' = s.pc r' := by
  simp [setPc, h]

@[simp] theorem setPc_pc_peer {pc : Pc} : (s.setPc r pc).pc r.peer = s.pc r.peer :=
  setPc_pc_of_ne r.peer_ne

@[simp] theorem setPc_peer_pc {pc : Pc} : (s.setPc r.peer pc).pc r = s.pc r :=
  setPc_pc_of_ne r.peer_ne.symm

@[simp] theorem setPc_inbox {pc : Pc} : (s.setPc r pc).inbox = s.inbox := rfl
@[simp] theorem setPc_closed {pc : Pc} : (s.setPc r pc).closed = s.closed := rfl
@[simp] theorem setPc_pending {pc : Pc} : (s.setPc r pc).pending = s.pending := rfl
@[simp] theorem setPc_next {pc : Pc} : (s.setPc r pc).next = s.next := rfl
@[simp] theorem send_pc {m : Message} : (s.send e m).pc = s.pc := rfl
@[simp] theorem send_closed {m : Message} : (s.send e m).closed = s.closed := rfl
@[simp] theorem send_pending {m : Message} : (s.send e m).pending = s.pending := rfl
@[simp] theorem send_next {m : Message} : (s.send e m).next = s.next := rfl

@[simp] theorem send_inbox_other {m : Message} :
    (s.send e m).inbox e.other = s.inbox e.other ++ [m] := by
  simp [send]

theorem send_inbox_of_ne {m : Message} (h : e' ≠ e.other) : (s.send e m).inbox e' = s.inbox e' := by
  simp [send, h]

@[simp] theorem close_pc : (s.close e).pc = s.pc := rfl
@[simp] theorem close_inbox : (s.close e).inbox = s.inbox := rfl
@[simp] theorem close_pending : (s.close e).pending = s.pending := rfl
@[simp] theorem close_next : (s.close e).next = s.next := rfl

theorem close_closed_of_ne (h : e' ≠ e) : (s.close e).closed e' = s.closed e' := by
  simp [close, h]

@[simp] theorem consume_self : s.consume e (s.inbox e) = s := by simp [consume]

/-- A message has been read from `e`, and `sent` has been sent on it. -/
def exchange (s : System) (e : End) (rest sent : List Message) : System :=
  { s with inbox :=
      Function.update (Function.update s.inbox e rest) e.other (s.inbox e.other ++ sent) }

theorem exchange_nil {rest : List Message} : s.exchange e rest [] = s.consume e rest := by
  unfold exchange consume
  rw [List.append_nil, Function.update_comm End.other_ne.symm, Function.update_eq_self]

theorem exchange_singleton {rest : List Message} {m : Message} :
    s.exchange e rest [m] = (s.consume e rest).send e m := by
  simp [exchange, consume, send, End.other_ne]

end System

/-- The peer of the party that moves, holding an end that the move does not touch. -/
theorem EndOk.frame {y : Option Wait} (h : EndOk room s r.peer y e)
    (hgone : s.pc r ≠ .returned none)
    (hclosed : s'.closed e = s.closed e) (hnext : s.next ≤ s'.next)
    (hpending : e.dialed = false → s'.pending e.id = none) (hinbox : s'.inbox e = s.inbox e)
    (hbefore : ∀ x, (s.pc r).held ≠ some (x, e.other))
    (hafter : ∀ x, (s'.pc r).held ≠ some (x, e.other)) (hapart : ∀ x, (s'.pc r).held ≠ some (x, e)) :
    EndOk room s' r.peer y e where
  isOpen := hclosed.trans h.isOpen
  used := Nat.lt_of_lt_of_le h.used hnext
  accepted := hpending
  apart := by
    rintro ⟨x, hx⟩
    rw [Role.peer_peer] at hx
    exact hapart x hx
  linked := by
    intro x hx
    rw [Role.peer_peer] at hx
    exact absurd hx (hafter x)
  alone := by
    intro _
    have halone := h.alone fun ⟨x, hx⟩ => hbefore x (by rwa [Role.peer_peer] at hx)
    rw [Role.peer_peer] at halone
    rw [hinbox]
    exact .inr (halone.resolve_left hgone)

/-- A connection stays in its backlog while a party moves that has nothing to do with it. -/
theorem PendingOk.frame {id : Nat} (h : PendingOk room s id)
    (hgone : s.pc r ≠ .returned none) (hheld : ∀ x, (s.pc r).held ≠ some (x, ⟨id, true⟩))
    (hpeer : s'.pc r.peer = s.pc r.peer) (hnext : s.next ≤ s'.next)
    (hclosed : s'.closed ⟨id, false⟩ = s.closed ⟨id, false⟩)
    (hinbox : ∀ b, s'.inbox ⟨id, b⟩ = s.inbox ⟨id, b⟩)
    (hafter : ∀ b x, (s'.pc r).held ≠ some (x, ⟨id, b⟩)) : PendingOk room s' id where
  used := Nat.lt_of_lt_of_le h.used hnext
  isOpen := hclosed.trans h.isOpen
  silent := (hinbox true).trans h.silent
  dialer := by
    refine Role.forall_of_peer (r := r) (fun x hx => absurd hx (hafter _ x)) fun y hy => ?_
    exact h.dialer _ y (hpeer ▸ hy)
  unheld := by
    refine Role.forall_of_peer (r := r) (fun x => hafter _ x) fun y hy => ?_
    exact h.unheld _ y (hpeer ▸ hy)
  backed := by
    rw [hinbox]
    rcases h.backed with ⟨r', hr'⟩ | ⟨r', hr'⟩ | hstranger
    · rcases Role.eq_or_eq_peer r' r with rfl | rfl
      · exact absurd hr' (hheld _)
      · exact .inl ⟨_, hpeer ▸ hr'⟩
    · rcases Role.eq_or_eq_peer r' r with rfl | rfl
      · exact absurd hr' hgone
      · exact .inr (.inl ⟨_, hpeer.trans hr'⟩)
    · exact .inr (.inr hstranger)

/-- A party has given up its attempt, and its dial is still in a backlog. -/
theorem PendingOk.gaveUp {id : Nat} (h : PendingOk room s id) (hreturned : s'.pc r = .returned none)
    (hpeer : s'.pc r.peer = s.pc r.peer) (hnext : s'.next = s.next)
    (hclosed : s'.closed ⟨id, false⟩ = s.closed ⟨id, false⟩) (hinbox : s'.inbox = s.inbox) :
    PendingOk room s' id where
  used := hnext ▸ h.used
  isOpen := hclosed.trans h.isOpen
  silent := hinbox ▸ h.silent
  dialer := by
    refine Role.forall_of_peer (r := r) (fun x hx => ?_) (fun y hy => ?_)
    · rw [hreturned] at hx
      cases hx
    · exact h.dialer _ y (hpeer ▸ hy)
  unheld := by
    refine Role.forall_of_peer (r := r) (fun x hx => ?_) (fun y hy => ?_)
    · rw [hreturned] at hx
      cases hx
    · exact h.unheld _ y (hpeer ▸ hy)
  backed := .inr (.inl ⟨r, hreturned⟩)

namespace Inv

/-- What a step of `r`, waiting on `e`, may change: its own place, the two FIFOs of its
    connection, and `e` may be closed. -/
structure OnConnection (s s' : System) (r : Role) (e : End) : Prop where
  peerPc : s'.pc r.peer = s.pc r.peer
  inbox : ∀ e', e' ≠ e → e' ≠ e.other → s'.inbox e' = s.inbox e'
  closed : ∀ e', e' ≠ e → s'.closed e' = s.closed e'
  pending : s'.pending = s.pending
  next : s'.next = s.next
  held : ∀ x e', (s'.pc r).held = some (x, e') → e' = e

/-- The peer's end of the connection `r` has taken a step on. -/
theorem endOk_onConnection {y : Option Wait} (h : EndOk room s r.peer y e.other) (hs : OnConnection s s' r e)
    (hne : e.other ≠ e)
    (hlinked : ∀ x', (s'.pc r).held = some (x', e) → Linked room r x' y (s'.inbox e) (s'.inbox e.other))
    (hdrop : (s'.pc r).held = none → OneSided room y (s'.inbox e.other) (s'.pc r = .returned none)) :
    EndOk room s' r.peer y e.other where
  isOpen := (hs.closed _ hne).trans h.isOpen
  used := hs.next ▸ h.used
  accepted := hs.pending ▸ h.accepted
  apart := by
    rintro ⟨x', hx'⟩
    rw [Role.peer_peer] at hx'
    exact hne (hs.held _ _ hx')
  linked := by
    intro x' hx'
    rw [Role.peer_peer, End.other_other] at hx'
    rw [End.other_other]
    exact (hlinked x' hx').symm
  alone := by
    intro hno
    rw [Role.peer_peer]
    apply hdrop
    cases hh : (s'.pc r).held with
    | none => rfl
    | some p =>
      obtain ⟨x', e'⟩ := p
      obtain rfl := hs.held x' e' hh
      exact absurd ⟨x', by rw [Role.peer_peer, End.other_other]; exact hh⟩ hno

/-- A connection on which an acceptor waits, or whose dialer has got an answer, is in nobody's
    backlog any more. -/
theorem pending_eq_none {w : Wait} {phase : Phase} (h : Inv room s)
    (hpc : s.pc r = .waiting w phase e) (hw : w ≠ .reply ∨ s.inbox e ≠ []) :
    s.pending e.id = none := by
  have hheld : (s.pc r).held = some (some w, e) := by rw [hpc]; rfl
  cases hd : e.dialed with
  | false => exact (h.ends r _ e hheld).accepted hd
  | true =>
    cases hq : s.pending e.id with
    | none => rfl
    | some q =>
      have hp := h.pending e.id q hq
      have he : (⟨e.id, true⟩ : End) = e := by rw [← hd]
      rcases hw with hw | hw
      · rw [← he] at hheld
        exact absurd (Option.some.inj (hp.dialer r _ hheld)) hw
      · exact absurd (he ▸ hp.silent) hw

/-- A step of `r` on the connection it waits on. `hkeep` is about the end it still holds
    afterwards, `hdrop` about the peer when it has let go, and `hbacklog` about the listener
    that may still have the connection. -/
theorem of_waiting {w : Wait} {phase : Phase} (h : Inv room s) (hpc : s.pc r = .waiting w phase e)
    (hs : OnConnection s s' r e)
    (hkeep : ∀ x', (s'.pc r).held = some (x', e) → s'.closed e = false ∧
      (∀ y, (s.pc r.peer).held = some (y, e.other) →
        Linked room r x' y (s'.inbox e) (s'.inbox e.other)) ∧
      (¬ s.peerHolds r e.other → OneSided room x' (s'.inbox e) (s.pc r.peer = .returned none)))
    (hdrop : (s'.pc r).held = none → ∀ y, (s.pc r.peer).held = some (y, e.other) →
      OneSided room y (s'.inbox e.other) (s'.pc r = .returned none))
    (hbacklog : s.pending e.id = none ∨ s'.pc r = .returned none ∧ s'.inbox = s.inbox) :
    Inv room s' := by
  have hheld : (s.pc r).held = some (some w, e) := by rw [hpc]; rfl
  have hend := h.ends r _ e hheld
  have hholds : ∀ e', s'.peerHolds r e' ↔ s.peerHolds r e' := by
    intro e'
    simp only [System.peerHolds, hs.peerPc]
  -- the two parties, then the backlogs, then the ends nobody has used
  refine ⟨Role.forall_of_peer (r := r) ?_ ?_, ?_, ?_⟩
  · intro x' e' hx'
    obtain rfl := hs.held x' e' hx'
    obtain ⟨hopen, hlinked, halone⟩ := hkeep x' hx'
    exact
      { isOpen := hopen
        used := hs.next ▸ hend.used
        accepted := hs.pending ▸ hend.accepted
        apart := (hholds e').not.mpr hend.apart
        linked := fun y hy => hlinked y (hs.peerPc ▸ hy)
        alone := fun hno => hs.peerPc ▸ halone ((hholds _).not.mp hno) }
  · intro y e' hy
    rw [hs.peerPc] at hy
    have hend' := h.ends r.peer y e' hy
    have hne : e' ≠ e := by
      rintro rfl
      exact hend.apart ⟨y, hy⟩
    by_cases ho : e' = e.other
    · subst ho
      exact endOk_onConnection hend' hs hne (fun x' hx' => (hkeep x' hx').2.1 y hy) fun hnone => hdrop hnone y hy
    · have hne' : e ≠ e'.other := fun he => ho (by rw [he, End.other_other])
      refine hend'.frame (by rw [hpc]; nofun) (hs.closed _ hne) (Nat.le_of_eq hs.next.symm)
        (hs.pending ▸ hend'.accepted) (hs.inbox _ hne ho) (fun x hx => ?_) (fun x hx => ?_)
        (fun x hx => hne (hs.held _ _ hx))
      · rw [hheld] at hx
        exact hne' (Prod.mk.inj (Option.some.inj hx)).2
      · exact hne' (hs.held _ _ hx).symm
  · intro id q hq
    rw [hs.pending] at hq
    have hp := h.pending id q hq
    have hgone : s.pc r ≠ .returned none := by rw [hpc]; nofun
    by_cases hid : id = e.id
    · -- the dialer whose connection is still in a backlog gives up its whole attempt
      obtain ⟨hreturned, hinbox⟩ := hbacklog.resolve_left (by rw [← hid, hq]; nofun)
      have hne : e ≠ ⟨id, false⟩ := fun he => hp.unheld r _ (he ▸ hheld)
      exact hp.gaveUp hreturned hs.peerPc hs.next (hs.closed _ hne.symm) hinbox
    · have hne : ∀ b, (⟨id, b⟩ : End) ≠ e := fun b => End.ne_of_id hid
      refine hp.frame hgone (fun x hx => ?_) hs.peerPc (Nat.le_of_eq hs.next.symm)
        (hs.closed _ (hne _)) (fun b => hs.inbox _ (hne b) (End.ne_of_id hid)) fun b x hx => ?_
      · rw [hheld] at hx
        exact hne _ (Prod.mk.inj (Option.some.inj hx)).2.symm
      · exact hne _ (hs.held _ _ hx)
  · intro e' he'
    rw [hs.next] at he'
    have hid : e'.id ≠ e.id := fun hi => absurd hend.used (by omega)
    rw [hs.inbox e' (End.ne_of_id hid) (End.ne_of_id hid), hs.closed e' (End.ne_of_id hid)]
    exact h.unused e' he'

/-- A peer that holds nothing moves and still holds nothing. -/
theorem of_free {pc : Pc} (h : Inv room s) (hpc : (s.pc r).held = none)
    (hgone : s.pc r ≠ .returned none) (hfree : pc.held = none) : Inv room (s.setPc r pc) := by
  refine ⟨Role.forall_of_peer (r := r) ?_ ?_, ?_, h.unused⟩
  · intro x e hx
    rw [System.setPc_pc_self, hfree] at hx
    cases hx
  · intro y e hy
    rw [System.setPc_pc_peer] at hy
    have hend := h.ends r.peer y e hy
    exact hend.frame hgone rfl (Nat.le_refl _) hend.accepted rfl (by simp [hpc])
      (by simp [hfree]) (by simp [hfree])
  · intro id q hq
    exact (h.pending id q hq).frame hgone (by simp [hpc]) System.setPc_pc_peer (Nat.le_refl _)
      rfl (fun _ => rfl) (by simp [hfree])

/-- `r` lets go of the connection it waits on. -/
theorem of_drop {w : Wait} {phase : Phase} {pc : Pc} {rest : List Message} (h : Inv room s)
    (hpc : s.pc r = .waiting w phase e) (hfree : pc.held = none)
    (hbacklog : s.pending e.id = none ∨ pc = .returned none ∧ rest = s.inbox e)
    (hdrop : ∀ y, (s.pc r.peer).held = some (y, e.other) →
      OneSided room y (s.inbox e.other) (pc = .returned none)) :
    Inv room (((s.consume e rest).close e).setPc r pc) := by
  refine h.of_waiting hpc ?_ ?_ ?_ ?_
  · exact
      { peerPc := System.setPc_pc_peer
        inbox := fun e' hne _ => by simp [System.consume, hne]
        closed := fun e' hne => System.close_closed_of_ne hne
        pending := rfl
        next := rfl
        held := fun x e' hx => by
          rw [System.setPc_pc_self, hfree] at hx
          cases hx }
  · intro x' hx'
    rw [System.setPc_pc_self, hfree] at hx'
    cases hx'
  · intro _ y hy
    simpa [System.consume, End.other_ne] using hdrop y hy
  · refine hbacklog.imp id fun ⟨hpc', hrest⟩ => ?_
    rw [hrest, System.consume_self]
    exact ⟨System.setPc_pc_self.trans hpc', rfl⟩

/-- The wait of `r` is over without its message. -/
theorem timeout {w : Wait} {phase : Phase} (h : Inv room s) (hpc : s.pc r = .waiting w phase e)
    (hg : patient s (.timeout r) = true) : Inv room (s.abandon r phase e) := by
  have hend := h.ends r (some w) e (by rw [hpc]; rfl)
  simp only [patient, hpc, Bool.and_eq_true, decide_eq_true_eq] at hg
  have hdrop : Inv room (((s.consume e (s.inbox e)).close e).setPc r (.dialing phase)) := by
    refine h.of_drop hpc rfl (.inl hg.1) fun y hy => (hend.linked y hy).oneSided ?_
    simpa [hy] using hg.2
  rwa [System.consume_self] at hdrop

theorem cancelWait {w : Wait} {phase : Phase} (h : Inv room s)
    (hpc : s.pc r = .waiting w phase e) : Inv room ((s.close e).setPc r (.returned none)) := by
  have hdrop : Inv room (((s.consume e (s.inbox e)).close e).setPc r (.returned none)) :=
    h.of_drop hpc rfl (.inr ⟨rfl, rfl⟩) fun _ _ => .inl rfl
  rwa [System.consume_self] at hdrop

/-- `r` reads a message and keeps its end, in the wait or place `pc`, after sending `sent`. -/
theorem of_keep {w : Wait} {phase : Phase} {pc : Pc} {x' : Option Wait} {m : Message}
    {rest sent : List Message} (h : Inv room s) (hpc : s.pc r = .waiting w phase e)
    (hm : s.inbox e = m :: rest) (hheld : pc.held = some (x', e))
    (hs' : s' = (s.exchange e rest sent).setPc r pc)
    (hlinked : ∀ y, (s.pc r.peer).held = some (y, e.other) →
      Linked room r (some w) y (m :: rest) (s.inbox e.other) →
        Linked room r x' y rest (s.inbox e.other ++ sent))
    (halone : OneSided room (some w) (m :: rest) (s.pc r.peer = .returned none) →
      OneSided room x' rest (s.pc r.peer = .returned none)) :
    Inv room s' := by
  subst hs'
  have hend := h.ends r (some w) e (by rw [hpc]; rfl)
  refine h.of_waiting hpc ?_ ?_ ?_ (.inl (h.pending_eq_none hpc (.inr (by rw [hm]; nofun))))
  · exact
      { peerPc := System.setPc_pc_peer
        inbox := fun e' hne hne' => by simp [System.exchange, hne, hne']
        closed := fun _ _ => rfl
        pending := rfl
        next := rfl
        held := fun x e' hx => by
          rw [System.setPc_pc_self, hheld] at hx
          exact (Prod.mk.inj (Option.some.inj hx)).2.symm }
  · intro x hx
    rw [System.setPc_pc_self, hheld] at hx
    obtain rfl := (Prod.mk.inj (Option.some.inj hx)).1
    refine ⟨hend.isOpen, fun y hy => ?_, fun hno => ?_⟩
    · have hl := hend.linked y hy
      rw [hm] at hl
      simpa [System.exchange, End.other_ne.symm] using hlinked y hy hl
    · simpa [System.exchange, End.other_ne.symm] using halone (hm ▸ hend.alone hno)
  · intro hnone
    rw [System.setPc_pc_self, hheld] at hnone
    cases hnone

/-- `r` reads the message it waits for. With the peer on the other end the two places go on
    together; without it, a message that makes `r` return the socket cannot arrive, unless
    the peer has given up its attempt. -/
theorem read {w : Wait} {phase : Phase} {m : Message} {rest : List Message} (h : Inv room s)
    (hpc : s.pc r = .waiting w phase e) (hm : s.inbox e = m :: rest) :
    Inv room ((s.consume e rest).conclude room r phase e (onMessage room r phase m w)) := by
  have hend := h.ends r (some w) e (by rw [hpc]; rfl)
  cases hv : onMessage room r phase m w with
  -- the ack: whoever keeps the end faces a peer that keeps the other, or waits for it
  | keep =>
    obtain ⟨hhello, hack⟩ := onMessage_eq_keep hv
    refine h.of_keep hpc hm rfl (by rw [System.exchange_nil]; rfl) ?_ ?_
    · intro y hy hl
      rw [List.append_nil]
      generalize s.inbox e.other = iy at hl
      cases hl with
      | crossed | replyAck => simp at hv
      | ackAck => exact .doneAck
      | ackDone | replyDone => exact .doneDone
      | helloReply => exact absurd rfl hhello
    · -- the ack comes from a peer that is not there
      refine fun halone => .inl (halone.resolve_right fun hnone => ?_)
      cases w with
      | reply | ack => exact absurd (hack.symm.trans (hnone m List.mem_cons_self)) nofun
      | hello => exact hhello rfl
  -- an acceptor keeps the end as it acks
  | ackAndKeep =>
    obtain ⟨rfl, hroom⟩ := onMessage_eq_ackAndKeep hv
    refine h.of_keep hpc hm rfl (by rw [System.exchange_singleton]; rfl) ?_ ?_
    · intro y hy hl
      generalize s.inbox e.other = iy at hl
      cases hl with
      | helloReply => exact .doneReply
    · -- the hello of the room comes from a dialer that is not there
      exact fun halone => .inl (halone.resolve_right fun hnone =>
        hnone m List.mem_cons_self hroom)
  -- two hellos have crossed, and both sides go on to wait for an ack
  | ackAndWait =>
    obtain rfl := onMessage_eq_ackAndWait hv
    refine h.of_keep hpc hm rfl (by rw [System.exchange_singleton]; rfl) ?_ ?_
    · intro y hy hl
      generalize s.inbox e.other = iy at hl
      cases hl with
      | crossed => exact .ackReply
      | replyAck => exact .ackAck
      | replyDone => simp at hv
    · exact fun halone => halone.imp id fun hnone m hm => hnone m (List.mem_cons_of_mem _ hm)
  | drop =>
    refine h.of_drop hpc rfl (.inl (h.pending_eq_none hpc (.inr (by rw [hm]; nofun))))
      fun y hy => ?_
    have hl := hend.linked y hy
    rw [hm] at hl
    generalize s.inbox e.other = iy at hl
    cases hl with
    | crossed | replyAck | ackAck | ackDone | replyDone => simp at hv
    | helloReply => exact .of_nil

/-- `r` takes a pending connection from its listener. -/
theorem accept {phase : Phase} {id : Nat} (h : Inv room s) (hpc : s.pc r = .accepting phase)
    (hq : s.pending id = some r) :
    Inv room ({ s with pending := Function.update s.pending id none }.setPc r
      (.waiting .hello phase ⟨id, false⟩)) := by
  have hp := h.pending id r hq
  have hnone : (s.pc r).held = none := by rw [hpc]; rfl
  have hunheld : ∀ e, ∀ x, (s.pc r).held ≠ some (x, e) := fun e x hx => by
    rw [hnone] at hx
    cases hx
  -- the acceptor holds the far end; its peer may hold the near one
  refine ⟨Role.forall_of_peer (r := r) ?_ ?_, ?_, h.unused⟩
  · intro x e hx
    rw [System.setPc_pc_self] at hx
    obtain ⟨rfl, rfl⟩ := Prod.mk.inj (Option.some.inj hx)
    refine ⟨hp.isOpen, hp.used, fun _ => by simp, ?_, ?_, fun hno => ?_⟩
    · rintro ⟨y, hy⟩
      rw [System.setPc_pc_peer] at hy
      exact hp.unheld _ y hy
    · intro y hy
      rw [System.setPc_pc_peer] at hy
      obtain rfl := hp.dialer _ y hy
      rw [show End.other ⟨id, false⟩ = ⟨id, true⟩ from rfl, System.setPc_inbox, hp.silent]
      exact .helloReply
    · rw [System.setPc_pc_peer]
      rcases hp.backed with ⟨r', hr'⟩ | ⟨r', hr'⟩ | hstranger
      · rcases Role.eq_or_eq_peer r' r with rfl | rfl
        · exact absurd hr' (hunheld _ _)
        · exact absurd ⟨_, by rw [System.setPc_pc_peer]; exact hr'⟩ hno
      · rcases Role.eq_or_eq_peer r' r with rfl | rfl
        · rw [hpc] at hr'
          cases hr'
        · exact .inl hr'
      · exact .inr hstranger
  · intro y e hy
    rw [System.setPc_pc_peer] at hy
    have hend := h.ends r.peer y e hy
    have hne : e ≠ ⟨id, false⟩ := by
      rintro rfl
      exact hp.unheld _ y hy
    by_cases he : e = ⟨id, true⟩
    · subst he
      obtain rfl := hp.dialer _ y hy
      refine ⟨hend.isOpen, hend.used, nofun, ?_, ?_, fun hno => absurd ?_ hno⟩
      · rintro ⟨x, hx⟩
        rw [Role.peer_peer, System.setPc_pc_self] at hx
        cases hx
      · intro x hx
        rw [Role.peer_peer, System.setPc_pc_self] at hx
        obtain rfl := (Prod.mk.inj (Option.some.inj hx)).1
        rw [System.setPc_inbox, hp.silent]
        exact .replyHello
      · exact ⟨_, by rw [Role.peer_peer, System.setPc_pc_self]; rfl⟩
    · refine hend.frame (by rw [hpc]; nofun) rfl (Nat.le_refl _) (fun hd => ?_) rfl
        (hunheld e.other) (fun x hx => ?_) (fun x hx => ?_)
      · by_cases hid : e.id = id
        · exact absurd (show e = ⟨id, false⟩ by cases e; simp_all) hne
        · simpa [hid] using hend.accepted hd
      · rw [System.setPc_pc_self] at hx
        refine he ?_
        rw [← End.other_other (e := e), ← (Prod.mk.inj (Option.some.inj hx)).2]
        rfl
      · rw [System.setPc_pc_self] at hx
        exact hne (Prod.mk.inj (Option.some.inj hx)).2.symm
  · intro id' q hq'
    have hid : id' ≠ id := by
      rintro rfl
      simp at hq'
    have hp' := h.pending id' q (by simpa [hid] using hq')
    refine hp'.frame (by rw [hpc]; nofun) (hunheld _) System.setPc_pc_peer (Nat.le_refl _) rfl
      (fun _ => rfl) fun b x hx => ?_
    rw [System.setPc_pc_self] at hx
    exact hid (congrArg End.id (Prod.mk.inj (Option.some.inj hx)).2).symm

/-- A new connection does not touch what the parties hold. -/
structure OnNew (s s' : System) : Prop where
  inbox : ∀ e, e.id < s.next → s'.inbox e = s.inbox e
  closed : s'.closed = s.closed
  pending : ∀ id, id < s.next → s'.pending id = s.pending id
  next : s'.next = s.next + 1
  unused : ∀ e, s.next + 1 ≤ e.id → s'.inbox e = s.inbox e

/-- A peer that stays where it is holds what it held. -/
theorem stays {y : Option Wait} (h : Inv room s) (hn : OnNew s s')
    (hy : (s.pc r.peer).held = some (y, e)) (hold : (s.pc r).held = none)
    (hgone : s.pc r ≠ .returned none)
    (hnew : ∀ x e', (s'.pc r).held = some (x, e') → e'.id = s.next) :
    EndOk room s' r.peer y e := by
  have hend := h.ends r.peer y e hy
  have hid : ∀ e', e'.id = e.id → ∀ x, (s'.pc r).held ≠ some (x, e') := fun e' he' x hx => by
    have := hnew x e' hx
    have := hend.used
    omega
  refine hend.frame hgone (by rw [hn.closed]) (by rw [hn.next]; omega)
    (fun hd => by rw [hn.pending _ hend.used]; exact hend.accepted hd) (hn.inbox e hend.used)
    (by simp [hold]) (hid _ rfl) (hid _ rfl)

/-- A step that makes a connection: the ends held afterwards are fine, the old ones were held
    before, and the new connection is fine if it is pending. -/
theorem of_new (h : Inv room s) (hn : OnNew s s')
    (hends : ∀ r x e, (s'.pc r).held = some (x, e) → EndOk room s' r x e)
    (hback : ∀ r x e, (s'.pc r).held = some (x, e) → e.id < s.next →
      (s.pc r).held = some (x, e))
    (hmoved : ∀ r, s'.pc r = s.pc r ∨ ∃ phase, s.pc r = .dialing phase)
    (hpending : ∀ q, s'.pending s.next = some q → s'.inbox ⟨s.next, true⟩ = [] ∧
      (∀ r x, (s'.pc r).held = some (x, ⟨s.next, true⟩) → x = some .reply) ∧
      (∀ r x, (s'.pc r).held ≠ some (x, ⟨s.next, false⟩)) ∧
      ((∃ r, (s'.pc r).held = some (some .reply, ⟨s.next, true⟩)) ∨
        ∀ m ∈ s'.inbox ⟨s.next, false⟩, m.get "room" ≠ room))
    (hlater : ∀ id, s.next < id → s'.pending id = s.pending id) : Inv room s' where
  ends := hends
  pending := by
    intro id q hq
    rcases Nat.lt_trichotomy id s.next with hid | rfl | hid
    · rw [hn.pending id hid] at hq
      have hp := h.pending id q hq
      exact
        { used := by rw [hn.next]; omega
          isOpen := hn.closed ▸ hp.isOpen
          silent := (hn.inbox _ hid).trans hp.silent
          dialer := fun r x hx => hp.dialer r x (hback r x _ hx hid)
          unheld := fun r x hx => hp.unheld r x (hback r x _ hx hid)
          backed := by
            rw [hn.inbox _ hid]
            rcases hp.backed with ⟨r, hr⟩ | ⟨r, hr⟩ | hstranger
            · refine .inl ⟨r, ?_⟩
              rcases hmoved r with hpc | ⟨phase, hpc⟩
              · rwa [hpc]
              · rw [hpc] at hr
                cases hr
            · refine .inr (.inl ⟨r, ?_⟩)
              rcases hmoved r with hpc | ⟨phase, hpc⟩
              · rwa [hpc]
              · rw [hpc] at hr
                cases hr
            · exact .inr (.inr hstranger) }
    · obtain ⟨hsilent, hdialer, hunheld, hbacked⟩ := hpending q hq
      refine ⟨by rw [hn.next]; omega, ?_, hsilent, hdialer, hunheld, hbacked.imp id .inr⟩
      rw [hn.closed]
      exact (h.unused _ (Nat.le_refl _)).2
    · rw [hlater id hid] at hq
      exact absurd (h.pending id q hq).used (by omega)
  unused := by
    intro e he
    rw [hn.next] at he
    rw [hn.unused e he, hn.closed]
    exact h.unused e (by omega)

theorem onNew_send {lands : Option Role} {b : Bool} {m : Message} :
    OnNew s ((s.connect lands).send ⟨s.next, b⟩ m) where
  inbox e he := System.send_inbox_of_ne (End.ne_of_id (Nat.ne_of_lt he))
  closed := rfl
  pending id hid := by simp [System.connect, Nat.ne_of_lt hid]
  next := rfl
  unused e he := System.send_inbox_of_ne (End.ne_of_id (Nat.ne_of_gt (Nat.lt_of_succ_le he)))

theorem OnNew.setPc {pc : Pc} (h : OnNew s s') : OnNew s (s'.setPc r pc) :=
  ⟨h.inbox, h.closed, h.pending, h.next, h.unused⟩

theorem dial {phase : Phase} {lands : Option Role} (h : Inv room s)
    (hpc : s.pc r = .dialing phase) :
    Inv room (((s.connect lands).send ⟨s.next, true⟩ (directHello room r)).setPc r
      (.waiting .reply phase ⟨s.next, true⟩)) := by
  have hnew : OnNew s ((s.connect lands).send ⟨s.next, true⟩ (directHello room r)) := onNew_send
  obtain ⟨hempty, hopen⟩ := h.unused ⟨s.next, true⟩ (Nat.le_refl _)
  have hinbox : ((s.connect lands).send ⟨s.next, true⟩ (directHello room r)).inbox
      ⟨s.next, true⟩ = [] :=
    (System.send_inbox_of_ne End.other_ne.symm).trans hempty
  -- the new connection is in one backlog and in the hand of its dialer
  refine h.of_new hnew.setPc (Role.forall_of_peer (r := r) ?_ ?_)
    (Role.forall_of_peer (r := r) ?_ ?_)
    (Role.forall_of_peer (r := r) (.inr ⟨phase, hpc⟩) (.inl System.setPc_pc_peer))
    (fun q hq => ⟨hinbox, Role.forall_of_peer (r := r) ?_ ?_, Role.forall_of_peer (r := r) ?_ ?_,
      .inl ⟨r, by rw [System.setPc_pc_self]; rfl⟩⟩)
    (fun id hid => by simp [System.connect, Nat.ne_of_gt hid])
  · intro x e hx
    rw [System.setPc_pc_self] at hx
    obtain ⟨rfl, rfl⟩ := Prod.mk.inj (Option.some.inj hx)
    have hno : ∀ b y, (s.pc r.peer).held ≠ some (y, ⟨s.next, b⟩) := fun b y hy =>
      Nat.lt_irrefl _ (h.ends _ _ _ hy).used
    refine ⟨hopen, Nat.lt_succ_self _, nofun, ?_, ?_, ?_⟩
    · rintro ⟨y, hy⟩
      rw [System.setPc_pc_peer] at hy
      exact hno _ y hy
    · intro y hy
      rw [System.setPc_pc_peer] at hy
      exact absurd hy (hno _ y)
    · rw [System.setPc_inbox, hinbox]
      exact fun _ => .of_nil
  · intro y e hy
    rw [System.setPc_pc_peer] at hy
    refine h.stays hnew.setPc hy (by rw [hpc]; rfl) (by rw [hpc]; nofun) fun x e' hx => ?_
    rw [System.setPc_pc_self] at hx
    rw [← (Prod.mk.inj (Option.some.inj hx)).2]
  · intro x e hx he
    rw [System.setPc_pc_self] at hx
    rw [← (Prod.mk.inj (Option.some.inj hx)).2] at he
    exact absurd he (Nat.lt_irrefl _)
  · intro y e hy _
    rwa [System.setPc_pc_peer] at hy
  · intro x hx
    rw [System.setPc_pc_self] at hx
    exact (Prod.mk.inj (Option.some.inj hx)).1.symm
  · intro y hy
    rw [System.setPc_pc_peer] at hy
    exact absurd (h.ends _ _ _ hy).used (Nat.lt_irrefl _)
  · intro x hx
    rw [System.setPc_pc_self] at hx
    cases hx
  · intro y hy
    rw [System.setPc_pc_peer] at hy
    exact Nat.lt_irrefl _ (h.ends _ _ _ hy).used

/-- A connection of somebody else, who does not know the room. -/
theorem of_stray (h : Inv room s) (hn : OnNew s s') (hpc : s'.pc = s.pc)
    (hsilent : s'.inbox ⟨s.next, true⟩ = s.inbox ⟨s.next, true⟩)
    (hroom : ∀ m ∈ s'.inbox ⟨s.next, false⟩, m.get "room" ≠ room)
    (hlater : ∀ id, s.next < id → s'.pending id = s.pending id) : Inv room s' := by
  have hnew : ∀ r x b, (s'.pc r).held ≠ some (x, ⟨s.next, b⟩) := fun r x b hx =>
    Nat.lt_irrefl _ (h.ends r x _ (hpc ▸ hx)).used
  refine h.of_new hn (fun r x e hx => ?_) (fun r x e hx _ => hpc ▸ hx)
    (fun r => .inl (congrFun hpc r))
    (fun q hq => ⟨hsilent.trans (h.unused _ (Nat.le_refl _)).1, fun r x hx => absurd hx (hnew r x _),
      fun r x => hnew r x _, .inr hroom⟩) hlater
  have hend := h.ends r x e (hpc ▸ hx)
  have hholds : ∀ e, s'.peerHolds r e ↔ s.peerHolds r e := fun e => by
    simp only [System.peerHolds, hpc]
  exact
    { isOpen := hn.closed ▸ hend.isOpen
      used := by rw [hn.next]; exact Nat.lt_succ_of_lt hend.used
      accepted := fun hd => (hn.pending _ hend.used).trans (hend.accepted hd)
      apart := (hholds e).not.mpr hend.apart
      linked := fun y hy => by
        rw [hn.inbox e hend.used, hn.inbox e.other hend.used]
        exact hend.linked y (hpc ▸ hy)
      alone := fun hno => by
        rw [hn.inbox e hend.used, hpc]
        exact hend.alone ((hholds _).not.mp hno) }

theorem connect {lands : Option Role} (h : Inv room s) : Inv room (s.connect lands) := by
  refine h.of_stray
    { inbox := fun _ _ => rfl
      closed := rfl
      pending := fun id hid => by simp [System.connect, Nat.ne_of_lt hid]
      next := rfl
      unused := fun _ _ => rfl }
    rfl rfl ?_ fun id hid => by simp [System.connect, Nat.ne_of_gt hid]
  show ∀ m ∈ s.inbox ⟨s.next, false⟩, _
  rw [(h.unused _ (Nat.le_refl _)).1]
  nofun

theorem connect_send {lands : Option Role} {m : Message} (h : Inv room s)
    (hm : m.get "room" ≠ room) : Inv room ((s.connect lands).send ⟨s.next, true⟩ m) := by
  refine h.of_stray onNew_send rfl (System.send_inbox_of_ne End.other_ne.symm) ?_
    fun id hid => by simp [System.connect, Nat.ne_of_gt hid]
  have hsent : ((s.connect lands).send ⟨s.next, true⟩ m).inbox ⟨s.next, false⟩ = [m] := by
    simp [System.send, System.connect, End.other, (h.unused ⟨s.next, false⟩ (Nat.le_refl _)).1]
  rw [hsent]
  intro m' hm'
  rwa [List.mem_singleton.mp hm']

/-- Each end of a connection in which two dials have met. -/
theorem crossedEnd (h : Inv room s) (hn : OnNew s s') (he : e.id = s.next)
    (hp : s'.pending s.next = none) (hheld : (s'.pc r.peer).held = some (some .reply, e.other))
    (hin : s'.inbox e = [directHello room r.peer]) (hout : s'.inbox e.other = [directHello room r]) :
    EndOk room s' r (some .reply) e where
  isOpen := by
    rw [hn.closed]
    exact (h.unused e (Nat.le_of_eq he.symm)).2
  used := by rw [hn.next, he]; exact Nat.lt_succ_self _
  accepted _ := he ▸ hp
  apart := by
    rintro ⟨y, hy⟩
    rw [hheld] at hy
    exact End.other_ne (Prod.mk.inj (Option.some.inj hy)).2
  linked := by
    intro y hy
    rw [hheld] at hy
    obtain rfl := (Prod.mk.inj (Option.some.inj hy)).1
    rw [hin, hout]
    exact .crossed
  alone hno := absurd ⟨_, hheld⟩ hno

/-- Two dials meet in one connection. -/
theorem cross {p q : Phase} (h : Inv room s) (hp : s.pc .sender = .dialing p)
    (hq : s.pc .receiver = .dialing q) :
    Inv room (((((s.connect none).send ⟨s.next, true⟩ (directHello room .sender)).send
      ⟨s.next, false⟩ (directHello room .receiver)).setPc .sender
        (.waiting .reply p ⟨s.next, true⟩)).setPc .receiver (.waiting .reply q ⟨s.next, false⟩)) := by
  have hinbox : ∀ e, e.id ≠ s.next → (((s.connect none).send ⟨s.next, true⟩
      (directHello room .sender)).send ⟨s.next, false⟩ (directHello room .receiver)).inbox e =
        s.inbox e := fun e he => by
    rw [System.send_inbox_of_ne (End.ne_of_id he), System.send_inbox_of_ne (End.ne_of_id he)]
    rfl
  have hempty : ∀ b, s.inbox ⟨s.next, b⟩ = [] := fun b => (h.unused _ (Nat.le_refl _)).1
  have hnew : OnNew s (((((s.connect none).send ⟨s.next, true⟩ (directHello room .sender)).send
      ⟨s.next, false⟩ (directHello room .receiver)).setPc .sender
        (.waiting .reply p ⟨s.next, true⟩)).setPc .receiver
        (.waiting .reply q ⟨s.next, false⟩)) :=
    { inbox := fun e he => hinbox e (Nat.ne_of_lt he)
      closed := rfl
      pending := fun id hid => by simp [System.connect, Nat.ne_of_lt hid]
      next := rfl
      unused := fun e he => hinbox e (Nat.ne_of_gt (Nat.lt_of_succ_le he)) }
  have hpending : Function.update s.pending s.next none s.next = none := by simp
  refine h.of_new hnew (fun r x e hx => ?_) (fun r x e hx he => ?_)
    (fun r => .inr (by cases r; exacts [⟨p, hp⟩, ⟨q, hq⟩])) (fun q hq => ?_)
    fun id hid => by simp [System.connect, Nat.ne_of_gt hid]
  · cases r with
    | sender =>
      obtain ⟨rfl, rfl⟩ := Prod.mk.inj (Option.some.inj hx)
      refine h.crossedEnd hnew rfl hpending rfl ?_ ?_ <;>
        simp [System.send, System.connect, End.other, hempty, Role.peer]
    | receiver =>
      obtain ⟨rfl, rfl⟩ := Prod.mk.inj (Option.some.inj hx)
      refine h.crossedEnd hnew rfl hpending rfl ?_ ?_ <;>
        simp [System.send, System.connect, End.other, hempty, Role.peer]
  · -- both parties hold the new connection
    have hid : e.id = s.next := by
      cases r <;> rw [← (Prod.mk.inj (Option.some.inj hx)).2]
    omega
  · rw [show Function.update s.pending s.next none s.next = some q from hq] at hpending
    cases hpending

/-- A patient step preserves the invariant. -/
theorem step (h : Inv room s) (hg : patient s l = true)
    (hs : step room s l = some s') : Inv room s' := by
  cases l with
  | dial r lands =>
    simp only [Direct.step] at hs
    split at hs
    · next phase hpc =>
      simp only [Option.ite_none_right_eq_some, Option.some.injEq] at hs
      obtain ⟨-, rfl⟩ := hs
      exact h.dial hpc
    · cases hs
  | cross =>
    simp only [Direct.step] at hs
    split at hs
    · next p q hp hq =>
      simp only [Option.ite_none_right_eq_some, Option.some.injEq] at hs
      obtain ⟨-, rfl⟩ := hs
      exact h.cross hp hq
    · cases hs
  | stray r hello =>
    simp only [Direct.step, Option.ite_none_left_eq_some, Option.some.injEq] at hs
    obtain ⟨hroom, rfl⟩ := hs
    cases hello with
    | some m => exact h.connect_send (by simpa using hroom)
    | none => exact h.connect
  | read r =>
    simp only [Direct.step] at hs
    split at hs
    · next w phase e hpc =>
      split at hs
      · next m rest hm =>
        obtain rfl := Option.some.inj hs
        exact h.read hpc hm
      · cases hs
    · cases hs
  | timeout r =>
    simp only [Direct.step] at hs
    split at hs
    · next w phase e hpc =>
      obtain rfl := Option.some.inj hs
      exact h.timeout hpc hg
    · cases hs
  | listen r =>
    simp only [Direct.step] at hs
    split at hs
    · next phase hpc =>
      obtain rfl := Option.some.inj hs
      exact h.of_free (by rw [hpc]; rfl) (by rw [hpc]; nofun) rfl
    · cases hs
  | accept r id =>
    simp only [Direct.step] at hs
    split at hs
    · next phase hpc =>
      simp only [Option.ite_none_right_eq_some, Option.some.injEq] at hs
      obtain ⟨hq, rfl⟩ := hs
      exact h.accept hpc hq
    · cases hs
  | noAccept r =>
    simp only [Direct.step] at hs
    split at hs
    · next phase hpc =>
      obtain rfl := Option.some.inj hs
      exact h.of_free (by rw [hpc]; rfl) (by rw [hpc]; nofun) rfl
    · cases hs
  | nextPhase r =>
    simp only [Direct.step] at hs
    split at hs
    · next phase hpc =>
      obtain rfl := Option.some.inj hs
      exact h.of_free (by rw [hpc]; rfl) (by rw [hpc]; nofun) (by cases phase <;> rfl)
    · next phase hpc =>
      obtain rfl := Option.some.inj hs
      exact h.of_free (by rw [hpc]; rfl) (by rw [hpc]; nofun) (by cases phase <;> rfl)
    · cases hs
  | cancel r =>
    simp only [Direct.step] at hs
    split at hs
    · next w phase e hpc =>
      obtain rfl := Option.some.inj hs
      exact h.cancelWait hpc
    · next phase hpc =>
      obtain rfl := Option.some.inj hs
      exact h.of_free (by rw [hpc]; rfl) (by rw [hpc]; nofun) rfl
    · next phase hpc =>
      obtain rfl := Option.some.inj hs
      exact h.of_free (by rw [hpc]; rfl) (by rw [hpc]; nofun) rfl
    · cases hs

end Inv

/-! ## Agreement -/

/-- **Direct-channel agreement.** In a run whose steps are `patient`, two returned sockets are
    the two open ends of one connection. -/
theorem direct_agree {a b : End}
    (h : Lts.ReachUnder (step room) (fun s l => patient s l = true) start s)
    (ha : s.pc .sender = .returned (some a)) (hb : s.pc .receiver = .returned (some b)) :
    Agreed s a b := by
  have hI : Inv room s := h.invariant inv_start fun hI hg hs => hI.step hg hs
  have hA := hI.ends .sender none a (by rw [ha]; rfl)
  have hB := hI.ends .receiver none b (by rw [hb]; rfl)
  refine ⟨?_, hA.isOpen, hB.isOpen⟩
  by_contra hne
  have hgone := hA.alone fun ⟨y, hy⟩ => by
    simp only [Role.peer, hb, Pc.held, Option.some.injEq, Prod.mk.injEq] at hy
    exact hne hy.2
  simp only [OneSided, Role.peer, hb, or_false] at hgone
  cases hgone

/-- The sender's first dial reaches nobody and is given up; its second is accepted while it
    waits for the ack. -/
theorem direct_agree_accepted : ∃ s a b, Agreed s a b ∧ s.pc .sender = .returned (some a) := by
  obtain ⟨s, hr, hs⟩ := Lts.ReachUnder.exists_of_run (step "room")
    (fun s l => patient s l = true) start
    [.dial .sender none, .timeout .sender, .dial .sender (some .receiver), .listen .receiver,
      .accept .receiver 1, .read .receiver, .read .sender]
    (fun s => s.pc .sender = .returned (some ⟨1, true⟩) &&
      s.pc .receiver = .returned (some ⟨1, false⟩))
    (by decide) (by decide)
  simp only [Bool.and_eq_true, decide_eq_true_eq] at hs
  exact ⟨s, _, _, direct_agree hr hs.1 hs.2, hs.1⟩

/-- Both dial, both give up, and each then finds the other's abandoned dial in its backlog. -/
theorem direct_disagree :
    ∃ s a b, Lts.Reach (step "room") start s ∧ s.pc .sender = .returned (some a) ∧
      s.pc .receiver = .returned (some b) ∧ ¬ Agreed s a b := by
  obtain ⟨s, hr, hs⟩ := Lts.Reach.exists_of_run (step "room") start
    [.dial .sender (some .receiver), .dial .receiver (some .sender), .timeout .sender,
      .timeout .receiver, .listen .sender, .listen .receiver, .accept .sender 1,
      .accept .receiver 0, .read .sender, .read .receiver]
    (fun s => s.pc .sender = .returned (some ⟨1, false⟩) &&
      s.pc .receiver = .returned (some ⟨0, false⟩))
    (by decide)
  simp only [Bool.and_eq_true, decide_eq_true_eq] at hs
  exact ⟨s, _, _, hr, hs.1, hs.2, fun h => nomatch h.1⟩

end Kiko.Direct
