import Kiko.Lib.Transition
import Kiko.Core.Protocol

/-!
# The LAN upgrade of a relay pipe (`connect/lan_upgrade`, `core/pake`)

Both peers hold the two ends of a relay pipe and run `resolve_relay_channel` on it. The
receiver asks for the sender's addresses, waits for the answer and dials them; the sender
looks in turn at its listener and at the pipe until its window closes. Whoever gets a
connection closes the pipe and returns it, and the other case returns the pipe itself.
`perform_handshake` then runs on whatever was returned; on the pipe its frames (a point and
a mac from each side) travel behind the messages of the upgrade.

The labels carry the outcome of every dial, accept and poll and the firing of every
timeout. Two things are recorded that the code does not store: whether the upgrade of a
party has taken a frame of the handshake (`misread`), and whether the handshake of a party
has taken a message of the upgrade (`strayRead`).

Neither call learns what the other has returned. The sender goes by its window and by its
backlog alone, and the receiver by its dials, so what the two return depends on which of
the timeouts fires first, on where the dials lead and on who else connects. The condition
`timely` is on these: it asks of a step what fires, which dial it is and whose connection
is first in the backlog, and nothing of what either party has returned.

**What the two calls agree on.** In every `timely` run the returned channels match, and
neither phase reads a frame of the other (`upgrade_sound`). The invariant has two parts:
`Joint` says where the sender is and what travels on the pipe, by where the receiver is,
and `Backlogged` that in its window the sender has the connection of the receiver, and of
nobody else but strangers, in its backlog.
-/

set_option autoImplicit false

namespace Kiko.LanUpgrade

/-- The sender's listener and addresses. -/
structure Config where
  listenPort : Nat
  listenHost : String
  localAddrs : List String
deriving DecidableEq, Repr

/-- A TCP connection, by where it comes from: dial `k` of the receiver, when it reached the
    sender's listener and when it reached somebody else, and anybody else's connection to
    the listener. -/
inductive Conn
  | dialed (k : Nat)
  | elsewhere (k : Nat)
  | foreign (k : Nat)
deriving DecidableEq, Repr

inductive Channel
  | relay
  | direct (c : Conn)
deriving DecidableEq, Repr

/-- What travels on the relay pipe: the messages of the upgrade and the frames of the
    handshake. -/
inductive Frame
  | control (m : Message)
  | point
  | mac
deriving DecidableEq, Repr

def Frame.isHandshake : Frame → Bool
  | .control _ => false
  | .point | .mac => true

/-! ## The upgrade

The two calls, frame by frame. What the pipe carries is one queue in each direction, and
the frames of the handshake are in the same queues. -/

/-- One host of `local_candidates_from_message`. -/
def pushCandidate (port : Nat) (out : List Endpoint) (host : String) : List Endpoint :=
  let candidate : Endpoint := ⟨host, port⟩
  if candidate.isUnspecified || out.contains candidate then out else out ++ [candidate]

/-- `local_candidates_from_message`. -/
def localCandidatesFromMessage (m : Message) : Except KikoError (List Endpoint) :=
  match m.portField "listen_port" with
  | .error e => .error e
  | .ok none => .ok []
  | .ok (some port) =>
    let out := (splitCsv (m.get "local_candidates")).foldl (pushCandidate port) []
    .ok (if m.get "listen_host" = "" then out else pushCandidate port out (m.get "listen_host"))

def ipsRequest : Message := { type := "ips_request" }

def ipsResponse (cfg : Config) : Message :=
  { type := "ips_response",
    fields := [("listen_port", toString cfg.listenPort), ("listen_host", cfg.listenHost),
      ("local_candidates", joinCsv cfg.localAddrs)] }

inductive SenderPc
  /-- at the head of the loop: the listener is next -/
  | accepting
  /-- the listener had nothing: the relay is next -/
  | polling
  | returned (c : Channel)
  | failed (error : KikoError)
deriving DecidableEq, Repr

inductive ReceiverPc
  | begin
  /-- `ips_request` is sent, the response is awaited -/
  | awaiting
  | dialing (candidates : List Endpoint)
  | returned (c : Channel)
  | failed (error : KikoError)
deriving DecidableEq, Repr

/-- `perform_handshake`, by what it does next. -/
inductive Handshake
  | sendPoint
  | recvPoint
  | sendMac
  | recvMac
  | done
  | failed (error : KikoError)
deriving DecidableEq, Repr

structure System where
  sender : SenderPc := .accepting
  receiver : ReceiverPc := .begin
  /-- what is on its way to each party on the pipe -/
  inbox : Role → List Frame := fun _ => []
  relayClosed : Role → Bool := fun _ => false
  /-- the connections in the sender's backlog -/
  backlog : List Conn := []
  /-- the number of dials the receiver has made -/
  dials : Nat := 0
  handshake : Role → Handshake := fun _ => .sendPoint
  misread : Role → Bool := fun _ => false
  strayRead : Role → Bool := fun _ => false

/-- What a dial of the receiver leads to. The last is a connection that the receiver has
    given up and that the sender's listener holds all the same. -/
inductive DialOutcome
  | toSender
  | elsewhere
  | failed
  | abandoned
deriving DecidableEq, Repr

inductive Label
  /-- anybody else connects to the sender's listener -/
  | foreign (k : Nat)
  | accept
  | acceptTimeout
  /-- the sender looks at the relay: a frame has arrived, or none has -/
  | pollRead
  | pollNothing
  /-- the sender's window closes -/
  | windowClosed
  | sendRequest
  | readResponse
  | responseTimeout
  | dial (outcome : DialOutcome)
  /-- the receiver has no candidate left -/
  | noCandidate
  /-- the handshake of a party on the relay pipe -/
  | handshakeSend (r : Role)
  | handshakeRecv (r : Role)
  /-- the peer has closed the pipe -/
  | hangUp (r : Role)
deriving DecidableEq, Repr

namespace System

/-- A frame leaves `r` on the pipe. -/
def transmit (s : System) (r : Role) (f : Frame) : System :=
  { s with inbox := Function.update s.inbox r.peer (s.inbox r.peer ++ [f]) }

def consume (s : System) (r : Role) (rest : List Frame) : System :=
  { s with inbox := Function.update s.inbox r rest }

def closeRelay (s : System) (r : Role) : System :=
  { s with relayClosed := Function.update s.relayClosed r true }

def setHandshake (s : System) (r : Role) (h : Handshake) : System :=
  { s with handshake := Function.update s.handshake r h }

/-- The party runs its handshake on the relay pipe. -/
def onRelay (s : System) : Role → Bool
  | .sender => s.sender = .returned .relay
  | .receiver => s.receiver = .returned .relay

/-- The sender reads `f` in its loop. A frame that is no message is an exception. -/
def pollFrame (s : System) (cfg : Config) : Frame → System
  | .control m =>
    if m.type = "ips_request" then
      { s with sender := .accepting }.transmit .sender (.control (ipsResponse cfg))
    else { s with sender := .accepting }
  | .point | .mac =>
    { s with sender := .failed "invalid control message json",
             misread := Function.update s.misread .sender true }

/-- The receiver reads `f` while it awaits the response. -/
def onResponse (s : System) : Frame → System
  | .control m =>
    if m.type = "ips_response" then
      match localCandidatesFromMessage m with
      | .error e => { s with receiver := .failed e }
      | .ok candidates => { s with receiver := .dialing candidates }
    else { s with receiver := .returned .relay }
  | .point | .mac =>
    { s with receiver := .failed "invalid control message json",
             misread := Function.update s.misread .receiver true }

/-- The receiver's next dial, with `rest` the candidates after it. -/
def dial (s : System) (rest : List Endpoint) (outcome : DialOutcome) : System :=
  let k := s.dials
  let s := { s with dials := k + 1 }
  match outcome with
  | .toSender =>
    { s with receiver := .returned (.direct (.dialed k)),
             backlog := s.backlog ++ [Conn.dialed k] }.closeRelay .receiver
  | .elsewhere =>
    { s with receiver := .returned (.direct (.elsewhere k)) }.closeRelay .receiver
  | .failed => { s with receiver := .dialing rest }
  | .abandoned => { s with receiver := .dialing rest, backlog := s.backlog ++ [Conn.dialed k] }

/-- The handshake of `r` reads `f`. -/
def handshakeFrame (s : System) (r : Role) (f : Frame) : System :=
  match f, s.handshake r with
  | .point, .recvPoint => s.setHandshake r .sendMac
  | .mac, .recvMac => s.setHandshake r .done
  | .control _, stage =>
    { s.setHandshake r (.failed (if stage = .recvPoint then "peer closed during handshake"
        else "key confirmation failed: wrong code or tampering detected"))
      with strayRead := Function.update s.strayRead r true }
  | _, _ =>
    s.setHandshake r (.failed "key confirmation failed: wrong code or tampering detected")

end System

def Handshake.receiving : Handshake → Bool
  | .recvPoint | .recvMac => true
  | _ => false

variable (cfg : Config)

def step (s : System) : Label → Option System
  | .foreign k => some { s with backlog := s.backlog ++ [.foreign k] }
  | .accept =>
    match s.sender, s.backlog with
    | .accepting, c :: rest =>
      some ({ s with sender := .returned (.direct c), backlog := rest }.closeRelay .sender)
    | _, _ => none
  | .acceptTimeout =>
    if s.sender = .accepting ∧ s.backlog = [] then some { s with sender := .polling } else none
  | .pollRead =>
    match s.sender, s.inbox .sender with
    | .polling, f :: rest => some ((s.consume .sender rest).pollFrame cfg f)
    | _, _ => none
  | .pollNothing =>
    if s.sender = .polling then some { s with sender := .accepting } else none
  | .windowClosed =>
    if s.sender = .accepting then some { s with sender := .returned .relay } else none
  | .sendRequest =>
    if s.receiver = .begin then
      some ({ s with receiver := .awaiting }.transmit .receiver (.control ipsRequest))
    else none
  | .readResponse =>
    match s.receiver, s.inbox .receiver with
    | .awaiting, f :: rest => some ((s.consume .receiver rest).onResponse f)
    | _, _ => none
  | .responseTimeout =>
    if s.receiver = .awaiting then some { s with receiver := .returned .relay } else none
  | .dial outcome =>
    match s.receiver with
    | .dialing (_ :: rest) => some (s.dial rest outcome)
    | _ => none
  | .noCandidate =>
    if s.receiver = .dialing [] then some { s with receiver := .returned .relay } else none
  | .handshakeSend r =>
    if s.onRelay r then
      match s.handshake r with
      | .sendPoint => some ((s.setHandshake r .recvPoint).transmit r .point)
      | .sendMac => some ((s.setHandshake r .recvMac).transmit r .mac)
      | _ => none
    else none
  | .handshakeRecv r =>
    if s.onRelay r ∧ (s.handshake r).receiving then
      match s.inbox r with
      | f :: rest => some ((s.consume r rest).handshakeFrame r f)
      | [] => none
    else none
  | .hangUp r =>
    if s.onRelay r ∧ (s.handshake r).receiving ∧ s.relayClosed r.peer ∧ s.inbox r = [] then
      some (s.setHandshake r (.failed "peer closed during handshake"))
    else none

def start : System := {}

/-! ## What the two calls should agree on -/

/-- The two sides hold the pipe, or the two ends of one connection. -/
inductive Matching : Channel → Channel → Prop
  | relay : Matching .relay .relay
  | direct (k : Nat) : Matching (.direct (.dialed k)) (.direct (.dialed k))

structure Sound (s : System) : Prop where
  channels : ∀ a b, s.sender = .returned a → s.receiver = .returned b → Matching a b
  /-- the upgrade of neither party has taken a frame of the handshake -/
  noMisread : ∀ r, s.misread r = false
  /-- on the pipe, no message of the upgrade is read by the handshake, or left for it -/
  noStray : s.onRelay .sender = true → s.onRelay .receiver = true →
    ∀ r, s.strayRead r = false ∧ ∀ f ∈ s.inbox r, f.isHandshake = true

/-- The sender still looks at its listener. -/
def SenderPc.inWindow : SenderPc → Bool
  | .accepting | .polling => true
  | _ => false

/-- A connection that the receiver has not dialed. -/
def Conn.isForeign : Conn → Bool
  | .foreign _ => true
  | _ => false

/-- The response is always waited for. The window closes only once the request has been
    answered, and while nobody's connection but a stranger's is in the backlog. A dial
    reaches the sender in its window, or fails; one that is given up leaves its connection
    in the backlog only behind the window, and the receiver runs out of candidates only
    then. The sender takes no stranger's connection. -/
def timely (s : System) : Label → Bool
  | .responseTimeout => false
  | .windowClosed =>
    s.receiver ≠ .begin && s.inbox .sender = [] && s.backlog.all (·.isForeign)
  | .dial .toSender => s.sender.inWindow
  | .dial .elsewhere => false
  | .dial .abandoned => !s.sender.inWindow
  | .noCandidate => !s.sender.inWindow
  | .accept => !(s.backlog.head?.any (·.isForeign))
  | _ => true

variable {cfg} {s s' : System} {l : Label} {r : Role}

/-! ## The invariant

`Joint` has one clause for each place the receiver can be in; what the sender may be doing
then, and what may be on the pipe, are read off it. -/

/-- Only frames of the handshake. -/
def Pure (frames : List Frame) : Prop :=
  ∀ f ∈ frames, f.isHandshake = true

theorem pure_nil : Pure [] := nofun

theorem Pure.push {frames : List Frame} {f : Frame} (h : Pure frames) (hf : f.isHandshake = true) :
    Pure (frames ++ [f]) := by
  intro g hg
  rcases List.mem_append.mp hg with hg | hg
  · exact h g hg
  · rwa [List.mem_singleton.mp hg]

theorem Pure.tail {frames : List Frame} {f : Frame} (h : Pure (f :: frames)) : Pure frames :=
  fun g hg => h g (List.mem_cons_of_mem _ hg)

variable (cfg) in
/-- Where the sender is and what is on the pipe, by where the receiver is. -/
def Joint (sender : SenderPc) (toSender toReceiver : List Frame) : ReceiverPc → Prop
  | .begin => sender.inWindow = true ∧ toSender = [] ∧ toReceiver = []
  | .awaiting =>
    (sender.inWindow = true ∧ toSender = [.control ipsRequest] ∧ toReceiver = []) ∨
      (toSender = [] ∧ ∃ rest, toReceiver = .control (ipsResponse cfg) :: rest ∧ Pure rest ∧
        (sender.inWindow = true ∨ sender = .returned .relay))
  | .dialing _ | .failed _ =>
    (sender.inWindow = true ∨ sender = .returned .relay) ∧ toSender = [] ∧ Pure toReceiver
  | .returned .relay => sender = .returned .relay ∧ Pure toSender ∧ Pure toReceiver
  | .returned (.direct c) =>
    (∃ k, c = .dialed k) ∧
      ((sender.inWindow = true ∧ toSender = []) ∨ sender = .returned (.direct c))

/-- What the sender finds in its backlog while it is in its window: the connection of the
    receiver, once that has one, and strangers'. -/
def Backlogged (sender : SenderPc) (backlog : List Conn) (receiver : ReceiverPc) : Prop :=
  sender.inWindow = true →
    (∀ c ∈ backlog, c.isForeign = false → receiver = .returned (.direct c)) ∧
      ∀ c, receiver = .returned (.direct c) → c ∈ backlog

variable (cfg) in
structure Inv (s : System) : Prop where
  joint : Joint cfg s.sender (s.inbox .sender) (s.inbox .receiver) s.receiver
  backlogged : Backlogged s.sender s.backlog s.receiver
  noMisread : ∀ r, s.misread r = false
  noStray : ∀ r, s.strayRead r = false

theorem inv_start : Inv cfg start :=
  ⟨⟨rfl, rfl, rfl⟩, fun _ => ⟨nofun, nofun⟩, fun _ => rfl, fun _ => rfl⟩

/-- Nothing but the handshake waits for a party that runs it on the pipe. -/
theorem Inv.pure_of_onRelay (h : Inv cfg s) (hr : s.onRelay r = true) : Pure (s.inbox r) := by
  have hj := h.joint
  cases r with
  | receiver =>
    simp only [System.onRelay, decide_eq_true_eq] at hr
    rw [hr] at hj
    exact hj.2.2
  | sender =>
    simp only [System.onRelay, decide_eq_true_eq] at hr
    have hwin : s.sender.inWindow ≠ true := by rw [hr]; nofun
    match hrc : s.receiver, hj with
    | .begin, hj => exact absurd hj.1 hwin
    | .awaiting, .inl hj => exact absurd hj.1 hwin
    | .awaiting, .inr hj => rw [hj.1]; exact pure_nil
    | .dialing _, hj | .failed _, hj => rw [hj.2.1]; exact pure_nil
    | .returned .relay, hj => exact hj.2.1
    | .returned (.direct c), hj =>
      rcases hj.2 with hw | hd
      · exact absurd hw.1 hwin
      · rw [hr] at hd
        cases hd

theorem Inv.sound (h : Inv cfg s) : Sound s where
  channels := by
    intro a b ha hb
    have hj := h.joint
    rw [ha, hb] at hj
    cases b with
    | relay =>
      cases hj.1
      exact .relay
    | direct c =>
      obtain ⟨⟨k, rfl⟩, hw | hd⟩ := hj
      · cases hw.1
      · cases hd
        exact .direct k
  noMisread := h.noMisread
  noStray hs hr r := ⟨h.noStray r, h.pure_of_onRelay (by cases r <;> assumption)⟩

/-! ## The steps

One lemma for each label. Those of the receiver's dials and the sender's window are the
ones that need the condition. -/

/-- The sender moves inside its window and the pipe stays. -/
theorem Joint.inWindow {sender sender' : SenderPc} {a b : List Frame} {receiver : ReceiverPc}
    (h : Joint cfg sender a b receiver) (hw : sender.inWindow = true)
    (hw' : sender'.inWindow = true) : Joint cfg sender' a b receiver := by
  match receiver, h with
  | .begin, h => exact ⟨hw', h.2⟩
  | .awaiting, .inl h => exact .inl ⟨hw', h.2⟩
  | .awaiting, .inr ⟨ha, rest, hb, hr, _⟩ => exact .inr ⟨ha, rest, hb, hr, .inl hw'⟩
  | .dialing _, h | .failed _, h => exact ⟨.inl hw', h.2⟩
  | .returned .relay, h =>
    rw [h.1] at hw
    cases hw
  | .returned (.direct _), ⟨hc, hin⟩ =>
    rcases hin with ⟨-, ha⟩ | hd
    · exact ⟨hc, .inl ⟨hw', ha⟩⟩
    · rw [hd] at hw
      cases hw

/-- Behind its window the sender looks at its backlog no more. -/
theorem Backlogged.of_not_inWindow {sender : SenderPc} {backlog : List Conn}
    {receiver : ReceiverPc} (h : sender.inWindow = false) : Backlogged sender backlog receiver :=
  fun hw => absurd (hw.symm.trans h) nofun

/-- The receiver goes on without a connection. -/
theorem Backlogged.without {sender : SenderPc} {backlog : List Conn}
    {receiver receiver' : ReceiverPc} (h : Backlogged sender backlog receiver)
    (hr : ∀ c, receiver ≠ .returned (.direct c))
    (hr' : ∀ c, receiver' ≠ .returned (.direct c)) : Backlogged sender backlog receiver' :=
  fun hw => ⟨fun c hc hf => absurd ((h hw).1 c hc hf) (hr c), fun c hc => absurd hc (hr' c)⟩

namespace Inv

/-- A step that changes neither the two upgrades nor what is on the pipe. -/
theorem of_eq (h : Inv cfg s) (hs : s'.sender = s.sender) (hr : s'.receiver = s.receiver)
    (hb : s'.backlog = s.backlog) (hi : s'.inbox = s.inbox) (hm : s'.misread = s.misread)
    (ht : s'.strayRead = s.strayRead) : Inv cfg s' := by
  refine ⟨?_, ?_, hm ▸ h.noMisread, ht ▸ h.noStray⟩
  · rw [hs, hr, hi]
    exact h.joint
  · rw [hs, hr, hb]
    exact h.backlogged

theorem foreign (h : Inv cfg s) (k : Nat) :
    Inv cfg { s with backlog := s.backlog ++ [.foreign k] } := by
  refine ⟨h.joint, fun hw => ⟨fun c hc hf => ?_, fun c hc => ?_⟩, h.noMisread, h.noStray⟩
  · rcases List.mem_append.mp hc with hc | hc
    · exact (h.backlogged hw).1 c hc hf
    · rw [List.mem_singleton.mp hc] at hf
      cases hf
  · exact List.mem_append_left _ ((h.backlogged hw).2 c hc)

/-- The sender takes the first connection of its backlog: it is no stranger's, so the
    receiver has returned it. -/
theorem accept {c : Conn} {rest : List Conn} (h : Inv cfg s) (hs : s.sender = .accepting)
    (hb : s.backlog = c :: rest) (hc : c.isForeign = false) :
    Inv cfg ({ s with sender := .returned (.direct c), backlog := rest }.closeRelay .sender) := by
  have hr : s.receiver = .returned (.direct c) :=
    (h.backlogged (by rw [hs]; rfl)).1 c (by rw [hb]; exact List.mem_cons_self) hc
  have hj := h.joint
  rw [hr] at hj
  refine ⟨?_, .of_not_inWindow rfl, h.noMisread, h.noStray⟩
  show Joint cfg _ _ _ s.receiver
  rw [hr]
  exact ⟨hj.1, .inr rfl⟩

/-- The sender goes on in its window. -/
theorem waits {pc : SenderPc} (h : Inv cfg s) (hw : s.sender.inWindow = true)
    (hw' : pc.inWindow = true) : Inv cfg { s with sender := pc } :=
  ⟨h.joint.inWindow hw hw', fun _ => h.backlogged hw, h.noMisread, h.noStray⟩

/-- The sender reads a frame in its window: it is the request, since the receiver dials only
    when it has the answer and leaves its upgrade for the pipe only behind the window. -/
theorem pollRead {f : Frame} {rest : List Frame} (h : Inv cfg s) (hs : s.sender = .polling)
    (hf : s.inbox .sender = f :: rest) :
    Inv cfg ((s.consume .sender rest).pollFrame cfg f) := by
  have hw : s.sender.inWindow = true := by rw [hs]; rfl
  have hj := h.joint
  rw [hf] at hj
  cases hr : s.receiver with
  | awaiting =>
    rw [hr] at hj
    rcases hj with ⟨-, hone, hempty⟩ | ⟨hnil, -⟩
    · obtain ⟨rfl, rfl⟩ := List.cons.inj hone
      refine ⟨?_, fun _ => h.backlogged hw, h.noMisread, h.noStray⟩
      show Joint cfg .accepting _ _ s.receiver
      rw [hr]
      refine .inr ⟨?_, [], ?_, pure_nil, .inl rfl⟩ <;>
        simp [System.consume, System.pollFrame, System.transmit, ipsRequest, Role.peer, hempty]
    · cases hnil
  | begin | dialing _ | failed _ =>
    rw [hr] at hj
    exact nomatch hj.2.1
  | returned c =>
    rw [hr] at hj
    cases c with
    | relay =>
      rw [hj.1] at hw
      cases hw
    | direct c =>
      rcases hj.2 with ⟨-, hnil⟩ | hd
      · cases hnil
      · rw [hd] at hw
        cases hw

/-- The receiver reads the response. -/
theorem readResponse {f : Frame} {rest : List Frame} (h : Inv cfg s)
    (hr : s.receiver = .awaiting) (hf : s.inbox .receiver = f :: rest) :
    Inv cfg ((s.consume .receiver rest).onResponse f) := by
  have hj := h.joint
  rw [hr, hf] at hj
  rcases hj with ⟨-, -, hempty⟩ | ⟨hnil, rest', hone, hpure, hsender⟩
  · cases hempty
  · obtain ⟨rfl, rfl⟩ := List.cons.inj hone
    have hS : (s.consume .receiver rest).inbox .sender = [] := by
      simpa [System.consume] using hnil
    have hR : Pure ((s.consume .receiver rest).inbox .receiver) := by
      simpa [System.consume] using hpure
    have hb := h.backlogged
    rw [hr] at hb
    simp only [System.onResponse, ipsResponse, if_true]
    split
    · exact ⟨⟨hsender, hS, hR⟩, hb.without nofun nofun, h.noMisread, h.noStray⟩
    · exact ⟨⟨hsender, hS, hR⟩, hb.without nofun nofun, h.noMisread, h.noStray⟩

/-- A dial that connects puts its connection into the backlog, where the sender finds it in
    its window. One that is given up may do so as well, but behind the window. -/
theorem dial {e : Endpoint} {rest : List Endpoint} {outcome : DialOutcome} (h : Inv cfg s)
    (hr : s.receiver = .dialing (e :: rest))
    (hg : timely s (.dial outcome) = true) : Inv cfg (s.dial rest outcome) := by
  have hj := h.joint
  have hb := h.backlogged
  rw [hr] at hj hb
  cases outcome with
  | toSender =>
    refine ⟨⟨⟨_, rfl⟩, .inl ⟨hg, hj.2.1⟩⟩, fun hw => ⟨fun c hc hf => ?_, fun c hc => ?_⟩,
      h.noMisread, h.noStray⟩
    · rcases List.mem_append.mp hc with hc | hc
      · exact nomatch (hb hw).1 c hc hf
      · rw [List.mem_singleton.mp hc]
        rfl
    · obtain rfl := Channel.direct.inj (ReceiverPc.returned.inj hc)
      exact List.mem_append_right _ List.mem_cons_self
  | elsewhere => cases hg
  | failed => exact ⟨hj, hb.without nofun nofun, h.noMisread, h.noStray⟩
  | abandoned =>
    exact ⟨hj, .of_not_inWindow ((Bool.not_eq_true' _).mp hg), h.noMisread, h.noStray⟩

/-- The window closes on a request that is answered and on a backlog without the receiver's
    connection: so the receiver has none. -/
theorem windowClosed (h : Inv cfg s) (hs : s.sender = .accepting)
    (hg : timely s .windowClosed = true) : Inv cfg { s with sender := .returned .relay } := by
  simp only [timely, Bool.and_eq_true, decide_eq_true_eq, List.all_eq_true] at hg
  obtain ⟨⟨hbegin, hanswered⟩, hforeign⟩ := hg
  have hw : s.sender.inWindow = true := by rw [hs]; rfl
  have hj := h.joint
  refine ⟨?_, .of_not_inWindow rfl, h.noMisread, h.noStray⟩
  show Joint cfg _ _ _ s.receiver
  cases hr : s.receiver with
  | begin => exact absurd hr hbegin
  | awaiting =>
    rw [hr] at hj
    rcases hj with ⟨-, hone, -⟩ | ⟨hnil, rest, hone, hrest, -⟩
    · rw [hone] at hanswered
      cases hanswered
    · exact .inr ⟨hnil, rest, hone, hrest, .inr rfl⟩
  | dialing _ | failed _ =>
    rw [hr] at hj
    exact ⟨.inr rfl, hj.2⟩
  | returned c =>
    rw [hr] at hj
    cases c with
    | relay => exact ⟨rfl, hj.2⟩
    | direct c =>
      obtain ⟨k, rfl⟩ := hj.1
      have hmem : .dialed k ∈ s.backlog := (h.backlogged hw).2 _ hr
      cases hforeign _ hmem

/-- A frame of the handshake arrives behind what is on the pipe. -/
theorem push {f : Frame} {hs : Role → Handshake} (h : Inv cfg s) (hr : s.onRelay r = true)
    (hf : f.isHandshake = true) : Inv cfg ({ s with handshake := hs }.transmit r f) := by
  have hj := h.joint
  refine ⟨?_, h.backlogged, h.noMisread, h.noStray⟩
  cases r with
  | receiver =>
    simp only [System.onRelay, decide_eq_true_eq] at hr
    show Joint cfg _ _ _ s.receiver
    rw [hr] at hj ⊢
    simpa [System.transmit, Role.peer] using ⟨hj.1, hj.2.1.push hf, hj.2.2⟩
  | sender =>
    simp only [System.onRelay, decide_eq_true_eq] at hr
    show Joint cfg s.sender _ _ s.receiver
    rw [hr] at hj ⊢
    cases hrc : s.receiver with
    | begin =>
      rw [hrc] at hj
      cases hj.1
    | awaiting =>
      rw [hrc] at hj
      rcases hj with ⟨hw, -⟩ | ⟨hnil, rest, hone, hrest, hsender⟩
      · cases hw
      · refine .inr ⟨by simpa [System.transmit, Role.peer] using hnil, rest ++ [f], ?_,
          hrest.push hf, hsender⟩
        simp [System.transmit, Role.peer, hone]
    | dialing _ | failed _ =>
      rw [hrc] at hj
      simpa [System.transmit, Role.peer] using ⟨hj.1, hj.2.1, hj.2.2.push hf⟩
    | returned c =>
      rw [hrc] at hj
      cases c with
      | relay => simpa [System.transmit, Role.peer] using ⟨hj.1, hj.2.1, hj.2.2.push hf⟩
      | direct c =>
        rcases hj.2 with ⟨hw, -⟩ | hd
        · cases hw
        · cases hd

/-- The handshake of `r` takes the next frame. -/
theorem pop {f : Frame} {rest : List Frame} (h : Inv cfg s) (hr : s.onRelay r = true)
    (hf : s.inbox r = f :: rest) : Inv cfg (s.consume r rest) := by
  have hj := h.joint
  have hpure := h.pure_of_onRelay hr
  rw [hf] at hpure
  refine ⟨?_, h.backlogged, h.noMisread, h.noStray⟩
  show Joint cfg s.sender _ _ s.receiver
  cases r with
  | receiver =>
    simp only [System.onRelay, decide_eq_true_eq] at hr
    rw [hr] at hj ⊢
    simpa [System.consume] using ⟨hj.1, hj.2.1, hpure.tail⟩
  | sender =>
    simp only [System.onRelay, decide_eq_true_eq] at hr
    rw [hr] at hj ⊢
    -- a frame waits for the sender, so the receiver has returned the pipe as well
    cases hrc : s.receiver with
    | begin =>
      rw [hrc] at hj
      cases hj.1
    | awaiting =>
      rw [hrc] at hj
      rcases hj with ⟨hw, -⟩ | ⟨hnil, -⟩
      · cases hw
      · rw [hf] at hnil
        cases hnil
    | dialing _ | failed _ =>
      rw [hrc] at hj
      rw [hf] at hj
      exact nomatch hj.2.1
    | returned c =>
      rw [hrc] at hj
      cases c with
      | relay => simpa [System.consume] using ⟨hj.1, hpure.tail, hj.2.2⟩
      | direct c =>
        rcases hj.2 with ⟨hw, -⟩ | hd
        · cases hw
        · cases hd

theorem handshakeFrame {f : Frame} (h : Inv cfg s) (hf : f.isHandshake = true) :
    Inv cfg (s.handshakeFrame r f) := by
  unfold System.handshakeFrame
  split
  · exact h.of_eq rfl rfl rfl rfl rfl rfl
  · exact h.of_eq rfl rfl rfl rfl rfl rfl
  · cases hf
  · exact h.of_eq rfl rfl rfl rfl rfl rfl

theorem step (h : Inv cfg s) (hg : timely s l = true) (hs : step cfg s l = some s') :
    Inv cfg s' := by
  cases l with
  | foreign k =>
    obtain rfl := Option.some.inj hs
    exact h.foreign k
  | accept =>
    simp only [LanUpgrade.step] at hs
    split at hs
    · next c rest hsender hb =>
      obtain rfl := Option.some.inj hs
      simp only [timely, hb, List.head?_cons, Option.any_some, Bool.not_eq_true'] at hg
      exact h.accept hsender hb hg
    · cases hs
  | acceptTimeout =>
    simp only [LanUpgrade.step, Option.ite_none_right_eq_some, Option.some.injEq] at hs
    obtain ⟨⟨hsender, -⟩, rfl⟩ := hs
    exact h.waits (by rw [hsender]; rfl) rfl
  | pollRead =>
    simp only [LanUpgrade.step] at hs
    split at hs
    · next f rest hsender hf =>
      obtain rfl := Option.some.inj hs
      exact h.pollRead hsender hf
    · cases hs
  | pollNothing =>
    simp only [LanUpgrade.step, Option.ite_none_right_eq_some, Option.some.injEq] at hs
    obtain ⟨hsender, rfl⟩ := hs
    exact h.waits (by rw [hsender]; rfl) rfl
  | windowClosed =>
    simp only [LanUpgrade.step, Option.ite_none_right_eq_some, Option.some.injEq] at hs
    obtain ⟨hsender, rfl⟩ := hs
    exact h.windowClosed hsender hg
  | sendRequest =>
    simp only [LanUpgrade.step, Option.ite_none_right_eq_some, Option.some.injEq] at hs
    obtain ⟨hr, rfl⟩ := hs
    have hj := h.joint
    have hb := h.backlogged
    rw [hr] at hj hb
    obtain ⟨hw, hS, hR⟩ := hj
    refine ⟨.inl ⟨hw, ?_, ?_⟩, hb.without nofun nofun, h.noMisread, h.noStray⟩ <;>
      simp [System.transmit, Role.peer, hS, hR]
  | readResponse =>
    simp only [LanUpgrade.step] at hs
    split at hs
    · next f rest hr hf =>
      obtain rfl := Option.some.inj hs
      exact h.readResponse hr hf
    · cases hs
  | responseTimeout => cases hg
  | dial outcome =>
    simp only [LanUpgrade.step] at hs
    split at hs
    · next e rest hr =>
      obtain rfl := Option.some.inj hs
      exact h.dial hr hg
    · cases hs
  | noCandidate =>
    simp only [LanUpgrade.step, Option.ite_none_right_eq_some, Option.some.injEq] at hs
    obtain ⟨hr, rfl⟩ := hs
    have hj := h.joint
    have hb := h.backlogged
    rw [hr] at hj hb
    -- behind its window the sender has returned the pipe: it has taken no connection
    rcases hj.1 with hw | hsender
    · simp [timely, hw] at hg
    · exact ⟨⟨hsender, by rw [hj.2.1]; exact pure_nil, hj.2.2⟩, hb.without nofun nofun,
        h.noMisread, h.noStray⟩
  | handshakeSend r =>
    simp only [LanUpgrade.step, Option.ite_none_right_eq_some] at hs
    obtain ⟨hr, hs⟩ := hs
    split at hs
    · obtain rfl := Option.some.inj hs
      exact h.push hr rfl
    · obtain rfl := Option.some.inj hs
      exact h.push hr rfl
    · cases hs
  | handshakeRecv r =>
    simp only [LanUpgrade.step, Option.ite_none_right_eq_some] at hs
    obtain ⟨⟨hr, -⟩, hs⟩ := hs
    split at hs
    · next f rest hf =>
      obtain rfl := Option.some.inj hs
      exact (h.pop hr hf).handshakeFrame (h.pure_of_onRelay hr f (by simp [hf]))
    · cases hs
  | hangUp r =>
    simp only [LanUpgrade.step, Option.ite_none_right_eq_some, Option.some.injEq] at hs
    obtain ⟨-, rfl⟩ := hs
    exact h.of_eq rfl rfl rfl rfl rfl rfl

end Inv

/-- **LAN-upgrade agreement.** In every run whose steps are `timely`, the returned channels
    match and neither phase reads a frame of the other. -/
theorem upgrade_sound
    (h : Lts.ReachUnder (step cfg) (fun s l => timely s l = true) start s) : Sound s :=
  Inv.sound (h.invariant inv_start fun hI hg hs => hI.step hg hs)

def lanConfig : Config :=
  { listenPort := 9000, listenHost := "0.0.0.0", localAddrs := ["192.168.1.2"] }

/-- The request is answered and the receiver knows the sender's addresses. -/
def answeredRun : List Label :=
  [.sendRequest, .acceptTimeout, .pollRead, .readResponse]

/-- The dial reaches the sender in its window. -/
theorem upgrade_sound_direct :
    ∃ s, s.receiver = .returned (.direct (.dialed 0)) ∧
      s.sender = .returned (.direct (.dialed 0)) ∧ Sound s := by
  obtain ⟨s, hr, hs⟩ := Lts.ReachUnder.exists_of_run (step lanConfig)
    (fun s l => timely s l = true) start (answeredRun ++ [.dial .toSender, .accept])
    (fun s => s.receiver = .returned (.direct (.dialed 0)) &&
      s.sender = .returned (.direct (.dialed 0)))
    (by decide) (by decide)
  simp only [Bool.and_eq_true, decide_eq_true_eq] at hs
  exact ⟨s, hs.1, hs.2, upgrade_sound hr⟩

/-- The sender's window closes while the response is on its way; the dial then reaches the
    listener, which nobody looks at any more. -/
theorem upgrade_mismatch : ∃ s, Lts.Reach (step lanConfig) start s ∧ ¬ Sound s := by
  obtain ⟨s, hr, hs⟩ := Lts.Reach.exists_of_run (step lanConfig) start
    [.sendRequest, .acceptTimeout, .pollRead, .windowClosed, .readResponse, .dial .toSender]
    (fun s => s.sender = .returned .relay && s.receiver = .returned (.direct (.dialed 0)))
    (by decide)
  simp only [Bool.and_eq_true, decide_eq_true_eq] at hs
  exact ⟨s, hr, fun h => nomatch h.channels _ _ hs.1 hs.2⟩

/-- No dial connects and the receiver's handshake begins: the sender, still in its window,
    takes the first frame of it for a message. -/
example : ∃ s, Lts.Reach (step lanConfig) start s ∧ s.misread .sender = true :=
  Lts.Reach.exists_of_run (step lanConfig) start
    (answeredRun ++ [.dial .failed, .noCandidate, .handshakeSend .receiver, .acceptTimeout,
      .pollRead])
    (fun s => s.misread .sender) (by decide)

end Kiko.LanUpgrade
