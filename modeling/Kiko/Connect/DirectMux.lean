import Kiko.Lib.Transition
import Kiko.Core.Protocol

/-!
# Parallel direct connections (`connect/direct_session`)

After a direct handshake the two peers may open `connections - 1` auxiliary connections:
the receiver dials them and names each by its index, the sender accepts them
(`gather_direct_mux_aux_channels`). Each then tells the other on the primary connection
whether it is ready, and waits for the same word from its peer
(`negotiate_direct_mux_channels`).

The machine runs both calls side by side, together with the first frames of the transfer
that follows on the primary. Labels carry what the environment decides: where a dial
lands, what stands in the listener's backlog, and every timeout.

**What the calls agree on.** When both have returned, they agree on mux and on every
channel, and no status frame is left on the primary, exactly when neither wait for the
peer's status has timed out (`negotiate_agreed_iff`).

The two waits are independent: each party waits for the other's status as long as it
likes, and one that gives up goes on alone, without a word to the other. So the one that
was read by its peer may be in mux while the peer is not, and this is the whole
disagreement there can be. The invariant has two halves for that reason, one about the
connections and one about the frames, and the condition of the result speaks of the
timeouts only.
-/

set_option autoImplicit false

namespace Kiko.DirectMux

/-- What both calls are given. -/
structure Config where
  connections : Nat
  room : String
  parallel : 1 < connections
  fitsInt : connections < 2 ^ 31

/-- A TCP connection, by where it comes from: the primary, the receiver's dial for index
    `k` when it reached the sender's listener or when it reached somebody else, and a
    connection of anybody else to the listener, with the hello it sends, if any. -/
inductive Conn
  | primary
  | dialed (k : Nat)
  | elsewhere (k : Nat)
  | stray (hello : Option Message)
deriving DecidableEq, Repr

/-- What travels on the primary connection. -/
inductive Frame
  | control (m : Message)
  | transfer (payload : Bytes)
deriving DecidableEq, Repr

/-- `DirectMuxResult`; an invalid socket is `none`. -/
structure DirectMuxResult where
  channels : List (Option Conn)
  muxEnabled : Bool := false
  fallbackReason : String := ""
deriving DecidableEq, Repr

/-- What `gather_direct_mux_aux_channels` answers. -/
abbrev Gathered := Except KikoError (List (Option Conn))

variable (cfg : Config)

/-! ## The pure parts

Messages and verdicts as functions, so that the machine has only the order of things to
say. -/

/-- The receiver's hello on the auxiliary connection for index `k`. -/
def auxHello (k : Nat) : Message :=
  { type := "direct_aux", fields := [("room", cfg.room), ("conn_index", toString k)] }

/-- The sender's check of a hello: the index it announces. -/
def acceptHello (seen : List Bool) (hello : Message) : Except KikoError Nat :=
  if hello.type ≠ "direct_aux" ∨ hello.get "room" ≠ cfg.room then
    .error "invalid auxiliary direct connection"
  else match hello.getU64 "conn_index" 0 with
    | .error e => .error e
    | .ok index =>
      if index = 0 ∨ cfg.connections ≤ index ∨ seen[index]? = some true then
        .error "invalid auxiliary direct connection index"
      else .ok index

def localReady (gathered : Gathered) : Bool :=
  match gathered with
  | .ok aux => aux.length = cfg.connections - 1
  | .error _ => false

def localError (gathered : Gathered) : String :=
  match gathered with
  | .ok aux =>
    if aux.length = cfg.connections - 1 then ""
    else "auxiliary direct connection count mismatch"
  | .error e => e

/-- The `direct_mux_status` message. -/
def muxStatus (gathered : Gathered) : Message :=
  { type := "direct_mux_status",
    fields := [("room", cfg.room), ("conn_count", toString cfg.connections),
        ("ready", if localReady cfg gathered then "1" else "0")] ++
      (if localError cfg gathered ≠ "" then [("error", localError cfg gathered)] else []) }

/-- `peer_ready` and `peer_error`, by what the wait for the peer's status ended with. -/
def peerVerdict (heard : Except KikoError (Option Message)) : Bool × KikoError :=
  match heard with
  | .error e => (false, e)
  | .ok none => (false, "peer mux status missing")
  | .ok (some m) =>
    if m.type = "direct_mux_status" ∧ m.get "room" = cfg.room then
      match m.getU64 "conn_count" 0 with
      | .error e => (false, e)
      | .ok count =>
        if count = cfg.connections then (m.get "ready" = "1", m.get "error")
        else (false, "peer mux status missing")
    else (false, "peer mux status missing")

/-- The end of `negotiate_direct_mux_channels`. -/
def conclude (gathered : Gathered) (heard : Except KikoError (Option Message)) :
    DirectMuxResult :=
  match localReady cfg gathered && (peerVerdict cfg heard).1, gathered with
  | true, .ok aux => { channels := some .primary :: aux, muxEnabled := true }
  | _, _ =>
    let reason := if localError cfg gathered ≠ "" then localError cfg gathered
      else (peerVerdict cfg heard).2
    { channels := [some .primary],
      fallbackReason := if reason = "" then "peer declined direct mux" else reason }

/-! ## The machine

Both calls in one state. A connection has a name by where it comes from, so that a
connection the sender has accepted and one the receiver has dialed can be seen to be the
same. -/

inductive Pc
  /-- the sender's loop, `accepted` counting the primary -/
  | accepting (accepted : Nat) (seen : List Bool) (aux : List (Option Conn))
  /-- a connection is accepted, its hello is awaited -/
  | awaitHello (conn : Conn) (accepted : Nat) (seen : List Bool) (aux : List (Option Conn))
  /-- the receiver's loop, at index `k` -/
  | dialing (k : Nat) (aux : List (Option Conn))
  /-- the dial for `k` has connected, its hello is next -/
  | greeting (conn : Conn) (k : Nat) (aux : List (Option Conn))
  /-- the auxiliary set-up is over, the status is next -/
  | gathered (result : Gathered)
  /-- the peer's status is awaited -/
  | waiting (result : Gathered)
  /-- the call has returned, and the transfer runs on its channels -/
  | returned (result : Gathered) (heard : Except KikoError (Option Message))
deriving DecidableEq, Repr

/-- The set-up of the auxiliary connections is running. -/
def Pc.gathering : Pc → Bool
  | .accepting .. | .awaitHello .. | .dialing .. | .greeting .. => true
  | _ => false

structure Party where
  pc : Pc
  /-- what is on its way to it on the primary -/
  inbox : List Frame := []
  /-- what the transfer after the call has read -/
  delivered : List Frame := []
deriving DecidableEq, Repr

structure System where
  party : Role → Party
  backlog : List Conn := []
  /-- the hellos on the receiver's auxiliary connections to the sender -/
  hello : Nat → Option Message := fun _ => none

inductive Label
  /-- anybody else connects to the sender's listener (an abandoned dial says nothing) -/
  | stray (hello : Option Message)
  | accept
  | readHello
  /-- the receiver's dial connects, to the sender or to somebody else -/
  | connect (lands : Bool)
  | greet
  /-- the set-up throws: an accept, a hello or a dial times out or fails, a cancellation -/
  | gatherFails (role : Role) (error : KikoError)
  | sendStatus (role : Role)
  | readStatus (role : Role)
  | statusTimeout (role : Role)
  /-- the transfer after the call sends and reads on the primary -/
  | send (role : Role) (payload : Bytes)
  | recv (role : Role)
deriving DecidableEq, Repr

namespace System

def setParty (s : System) (r : Role) (p : Party) : System :=
  { s with party := Function.update s.party r p }

def setPc (s : System) (r : Role) (pc : Pc) : System :=
  s.setParty r { s.party r with pc := pc }

/-- A frame leaves `r` for its peer. -/
def transmit (s : System) (r : Role) (f : Frame) : System :=
  s.setParty r.peer { s.party r.peer with inbox := (s.party r.peer).inbox ++ [f] }

/-- The hello that arrives on an accepted connection. -/
def helloOn (s : System) : Conn → Option Message
  | .dialed k => s.hello k
  | .stray hello => hello
  | .primary | .elsewhere _ => none

end System

/-- The receiver's hello for `k` on `conn`; the sender can only see it on a connection to it. -/
def System.sayHello (s : System) (conn : Conn) (k : Nat) : Nat → Option Message :=
  if conn = .dialed k then Function.update s.hello k (some (auxHello cfg k)) else s.hello

/-- The sender's loop goes on after the hello of `conn`. -/
def afterHello (conn : Conn) (accepted : Nat) (seen : List Bool) (aux : List (Option Conn))
    (hello : Message) : Pc :=
  match acceptHello cfg seen hello with
  | .error e => .gathered (.error e)
  | .ok index =>
    let aux := aux.set (index - 1) (some conn)
    if accepted + 1 < cfg.connections then .accepting (accepted + 1) (seen.set index true) aux
    else .gathered (.ok aux)

/-- The receiver's loop goes on after the hello for `k`. -/
def afterGreet (conn : Conn) (k : Nat) (aux : List (Option Conn)) : Pc :=
  let aux := aux.set (k - 1) (some conn)
  if k + 1 < cfg.connections then .dialing (k + 1) aux else .gathered (.ok aux)

/-- `decode_message` on a frame of the primary. -/
def Frame.heard : Frame → Except KikoError (Option Message)
  | .control m => .ok (some m)
  | .transfer _ => .error "invalid control message json"

def step (s : System) : Label → Option System
  | .stray hello =>
    -- only the two peers of the room know its token
    if hello.any (fun m => m.type = "direct_aux" ∧ m.get "room" = cfg.room) then none
    else some { s with backlog := s.backlog ++ [.stray hello] }
  | .accept =>
    match (s.party .sender).pc, s.backlog with
    | .accepting accepted seen aux, conn :: rest =>
      some ({ s with backlog := rest }.setPc .sender (.awaitHello conn accepted seen aux))
    | _, _ => none
  | .readHello =>
    match (s.party .sender).pc with
    | .awaitHello conn accepted seen aux =>
      (s.helloOn conn).map fun hello =>
        s.setPc .sender (afterHello cfg conn accepted seen aux hello)
    | _ => none
  | .connect lands =>
    match (s.party .receiver).pc with
    | .dialing k aux =>
      let conn := if lands then Conn.dialed k else .elsewhere k
      some ({ s with backlog := if lands then s.backlog ++ [conn] else s.backlog }.setPc
        .receiver (.greeting conn k aux))
    | _ => none
  | .greet =>
    match (s.party .receiver).pc with
    | .greeting conn k aux =>
      some ({ s with hello := s.sayHello cfg conn k }.setPc .receiver
        (afterGreet cfg conn k aux))
    | _ => none
  | .gatherFails r error =>
    if (s.party r).pc.gathering then some (s.setPc r (.gathered (.error error))) else none
  | .sendStatus r =>
    match (s.party r).pc with
    | .gathered result =>
      some ((s.setPc r (.waiting result)).transmit r (.control (muxStatus cfg result)))
    | _ => none
  | .readStatus r =>
    match (s.party r).pc, (s.party r).inbox with
    | .waiting result, f :: rest =>
      some (s.setParty r { s.party r with pc := .returned result f.heard, inbox := rest })
    | _, _ => none
  | .statusTimeout r =>
    match (s.party r).pc with
    | .waiting result => some (s.setPc r (.returned result (.ok none)))
    | _ => none
  | .send r payload =>
    match (s.party r).pc with
    | .returned _ _ => some (s.transmit r (.transfer payload))
    | _ => none
  | .recv r =>
    match (s.party r).pc, (s.party r).inbox with
    | .returned _ _, f :: rest =>
      some (s.setParty r
        { s.party r with inbox := rest, delivered := (s.party r).delivered ++ [f] })
    | _, _ => none

def start : System where
  party
    | .sender =>
      { pc := .accepting 1 (true :: List.replicate (cfg.connections - 1) false)
          (List.replicate (cfg.connections - 1) none) }
    | .receiver => { pc := .dialing 1 (List.replicate (cfg.connections - 1) none) }

/-- The result of the call of `r`, when it has returned. -/
def System.result (s : System) (r : Role) : Option DirectMuxResult :=
  match (s.party r).pc with
  | .returned gathered heard => some (conclude cfg gathered heard)
  | _ => none

/-! ## What the two results should agree on

Agreement is about channels by their index, not about lists: the two sides keep theirs
in different orders until both are ready. -/

/-- The connection that is channel `k` of both sides. -/
def channel : Nat → Conn
  | 0 => .primary
  | k + 1 => .dialed (k + 1)

def Frame.isStatus : Frame → Bool
  | .control m => m.type = "direct_mux_status"
  | .transfer _ => false

/-- Both sides run mux, on the same connections, or neither does and the transfer of either
    side has read, and will read, no status frame. -/
structure Agreed (s : System) (a b : DirectMuxResult) : Prop where
  sameMux : a.muxEnabled = b.muxEnabled
  connected : a.muxEnabled = true → ∀ k < cfg.connections,
    a.channels[k]? = some (some (channel k)) ∧ b.channels[k]? = some (some (channel k))
  noStatusLeft : a.muxEnabled = false → ∀ r, ∀ f ∈ (s.party r).delivered ++ (s.party r).inbox, f.isStatus = false

variable {cfg} {s s' : System} {l : Label} {ls : List Label} {r r' : Role}

namespace System

@[simp] theorem setParty_self {p : Party} : (s.setParty r p).party r = p := by simp [setParty]

theorem setParty_of_ne {p : Party} (h : r' ≠ r) : (s.setParty r p).party r' = s.party r' := by
  simp [setParty, h]

@[simp] theorem setParty_peer {p : Party} : (s.setParty r p).party r.peer = s.party r.peer :=
  setParty_of_ne r.peer_ne

@[simp] theorem setParty_of_peer {p : Party} : (s.setParty r.peer p).party r = s.party r :=
  setParty_of_ne r.peer_ne.symm

@[simp] theorem setPc_self {pc : Pc} : (s.setPc r pc).party r = { s.party r with pc := pc } := by
  simp [setPc]

@[simp] theorem setParty_hello {p : Party} : (s.setParty r p).hello = s.hello := rfl
@[simp] theorem setParty_backlog {p : Party} : (s.setParty r p).backlog = s.backlog := rfl

end System

/-! ## The auxiliary connections

Strangers may connect, say anything and go away. A hello with the room and an index is
taken to come only from the receiver, who alone knows the room besides the sender. -/

@[simp] theorem auxHello_type {k : Nat} : (auxHello cfg k).type = "direct_aux" := rfl

@[simp] theorem auxHello_room {k : Nat} : (auxHello cfg k).get "room" = cfg.room := by
  simp [auxHello, Message.get]

theorem auxHello_index {k : Nat} (hk : k < cfg.connections) :
    (auxHello cfg k).getU64 "conn_index" 0 = .ok k := by
  have hfits := cfg.fitsInt
  refine Message.getU64_eq ?_ (by unfold u64Max; omega)
  simp [auxHello, Message.get, List.lookup]

variable (cfg) in
/-- Only a connection the receiver dialed can say an auxiliary hello of this room. -/
def Conn.Honest : Conn → Prop
  | .stray hello => ∀ m, hello = some m → ¬ (m.type = "direct_aux" ∧ m.get "room" = cfg.room)
  | _ => True

/-- Channel `k` of the sender is the connection the receiver dialed and greeted for `k`. -/
def Filled (hello : Nat → Option Message) (aux : List (Option Conn)) (k : Nat) : Prop :=
  aux[k - 1]? = some (some (.dialed k)) ∧ hello k ≠ none

variable (cfg) in
/-- The sender's loop after `accepted` connections. -/
structure Accepted (hello : Nat → Option Message) (accepted : Nat) (seen : List Bool)
    (aux : List (Option Conn)) : Prop where
  running : accepted < cfg.connections
  seenLength : seen.length = cfg.connections
  auxLength : aux.length = cfg.connections - 1
  zero : seen[0]? = some true
  count : seen.count true = accepted
  filled : ∀ k, 0 < k → seen[k]? = some true → Filled hello aux k

variable (cfg) in
/-- What the sender's call holds about the auxiliary connections. -/
def SenderOk (hello : Nat → Option Message) : Pc → Prop
  | .accepting accepted seen aux => Accepted cfg hello accepted seen aux
  | .awaitHello conn accepted seen aux => Accepted cfg hello accepted seen aux ∧ conn.Honest cfg
  | .gathered (.ok aux) | .waiting (.ok aux) | .returned (.ok aux) _ =>
    aux.length = cfg.connections - 1 ∧ ∀ k, 0 < k → k < cfg.connections → Filled hello aux k
  | .gathered (.error _) | .waiting (.error _) | .returned (.error _) _ => True
  | .dialing .. | .greeting .. => False

variable (cfg) in
/-- The receiver's channels: what it has greeted is where it should be. -/
def Dialed (hello : Nat → Option Message) (aux : List (Option Conn)) : Prop :=
  aux.length = cfg.connections - 1 ∧
    ∀ k, hello k ≠ none → aux[k - 1]? = some (some (.dialed k))

variable (cfg) in
def ReceiverOk (hello : Nat → Option Message) : Pc → Prop
  | .dialing k aux =>
    0 < k ∧ k < cfg.connections ∧ Dialed cfg hello aux ∧ ∀ j, hello j ≠ none → j < k
  | .greeting conn k aux =>
    0 < k ∧ k < cfg.connections ∧ Dialed cfg hello aux ∧ (∀ j, hello j ≠ none → j < k) ∧
      (conn = .dialed k ∨ conn = .elsewhere k)
  | .gathered (.ok aux) | .waiting (.ok aux) | .returned (.ok aux) _ => Dialed cfg hello aux
  | .gathered (.error _) | .waiting (.error _) | .returned (.error _) _ => True
  | .accepting .. | .awaitHello .. => False

variable (cfg) in
structure SetupInv (s : System) : Prop where
  sender : SenderOk cfg s.hello (s.party .sender).pc
  receiver : ReceiverOk cfg s.hello (s.party .receiver).pc
  backlog : ∀ conn ∈ s.backlog, conn.Honest cfg
  hello : ∀ k m, s.hello k = some m → m = auxHello cfg k ∧ 0 < k ∧ k < cfg.connections

theorem setupInv_start : SetupInv cfg (start cfg) where
  sender :=
    { running := cfg.parallel
      seenLength := by have := cfg.parallel; simp; omega
      auxLength := by simp
      zero := rfl
      count := by simp [List.count_replicate]
      filled := by
        intro k hk hseen
        obtain ⟨k, rfl⟩ := Nat.exists_eq_succ_of_ne_zero (Nat.pos_iff_ne_zero.mp hk)
        simp [List.getElem?_replicate] at hseen }
  receiver := ⟨Nat.one_pos, cfg.parallel, ⟨by simp, by simp [start]⟩, by simp [start]⟩
  backlog := by simp [start]
  hello := by simp [start]

/-- A hello that passes the sender's check came on the connection dialed for its index. -/
theorem acceptHello_dialed {conn : Conn} {seen : List Bool} {m : Message} {index : Nat}
    (h : SetupInv cfg s) (hconn : conn.Honest cfg) (hm : s.helloOn conn = some m)
    (hi : acceptHello cfg seen m = .ok index) :
    conn = .dialed index ∧ 0 < index ∧ index < cfg.connections ∧ seen[index]? ≠ some true := by
  unfold acceptHello at hi
  split at hi
  · cases hi
  · next hgreet =>
    split at hi
    · cases hi
    · next idx hidx =>
      split at hi
      · cases hi
      · next hvalid =>
        obtain rfl := Except.ok.inj hi
        simp only [not_or] at hgreet hvalid
        refine ⟨?_, Nat.pos_of_ne_zero hvalid.1, Nat.lt_of_not_le hvalid.2.1, hvalid.2.2⟩
        cases conn with
        | primary | elsewhere _ => cases hm
        | stray hello =>
          exact absurd ⟨not_not.mp hgreet.1, not_not.mp hgreet.2⟩ (hconn m hm)
        | dialed k =>
          obtain ⟨rfl, -, hk⟩ := h.hello k m hm
          rw [auxHello_index hk] at hidx
          rw [Except.ok.inj hidx]

/-- One more accepted connection. -/
theorem Accepted.next {hello : Nat → Option Message} {accepted index : Nat} {seen : List Bool}
    {aux : List (Option Conn)} (h : Accepted cfg hello accepted seen aux) (hpos : 0 < index)
    (hlt : index < cfg.connections) (hnew : seen[index]? ≠ some true) (hh : hello index ≠ none) :
    (seen.set index true).count true = accepted + 1 ∧
      (seen.set index true).length = cfg.connections ∧
      (∀ k, 0 < k → (seen.set index true)[k]? = some true →
        Filled hello (aux.set (index - 1) (some (.dialed index))) k) := by
  have hlen : index < seen.length := h.seenLength ▸ hlt
  have hfalse : seen[index] = false := by
    simpa [List.getElem?_eq_getElem hlen] using hnew
  refine ⟨?_, by simp [h.seenLength], ?_⟩
  · rw [List.count_set hlen, hfalse, h.count]
    simp
  · intro k hk hseen
    by_cases hki : k = index
    · subst hki
      refine ⟨?_, hh⟩
      rw [List.getElem?_set_self (by rw [h.auxLength]; omega)]
    · rw [List.getElem?_set_ne (by omega)] at hseen
      obtain ⟨haux, hkh⟩ := h.filled k hk hseen
      exact ⟨by rw [List.getElem?_set_ne (by omega)]; exact haux, hkh⟩

/-- All indexes are seen once the loop has counted to its bound. -/
theorem filled_of_count {hello : Nat → Option Message} {seen : List Bool}
    {aux : List (Option Conn)} (hlen : seen.length = cfg.connections)
    (hcount : seen.count true = cfg.connections)
    (hfilled : ∀ k, 0 < k → seen[k]? = some true → Filled hello aux k) :
    ∀ k, 0 < k → k < cfg.connections → Filled hello aux k := by
  intro k hk hlt
  have hall : ∀ b ∈ seen, true = b := List.count_eq_length.mp (hcount.trans hlen.symm)
  have hk' : k < seen.length := hlen ▸ hlt
  refine hfilled k hk ?_
  rw [List.getElem?_eq_getElem hk', ← hall _ (List.getElem_mem hk')]

/-- What the sender holds survives the receiver's further hellos. -/
theorem SenderOk.mono {hello hello' : Nat → Option Message} {pc : Pc}
    (h : SenderOk cfg hello pc) (hh : ∀ k, hello k ≠ none → hello' k ≠ none) :
    SenderOk cfg hello' pc := by
  have hfill : ∀ {aux k}, Filled hello aux k → Filled hello' aux k := fun hf => ⟨hf.1, hh _ hf.2⟩
  have hacc : ∀ {n seen aux}, Accepted cfg hello n seen aux → Accepted cfg hello' n seen aux :=
    fun ha => { ha with filled := fun k hk hs => hfill (ha.filled k hk hs) }
  match pc, h with
  | .accepting .., h => exact hacc h
  | .awaitHello .., h => exact ⟨hacc h.1, h.2⟩
  | .gathered (.ok _), h | .waiting (.ok _), h | .returned (.ok _) _, h =>
    exact ⟨h.1, fun k hk hlt => hfill (h.2 k hk hlt)⟩
  | .gathered (.error _), _ | .waiting (.error _), _ | .returned (.error _) _, _ => trivial

theorem sayHello_eq_some {conn : Conn} {k j : Nat} {m : Message} :
    s.sayHello cfg conn k j = some m ↔
      (j = k ∧ conn = .dialed k ∧ m = auxHello cfg j) ∨
        (¬ (j = k ∧ conn = .dialed k) ∧ s.hello j = some m) := by
  unfold System.sayHello
  by_cases hc : conn = .dialed k <;> by_cases hj : j = k
  · subst hj
    simp [hc, eq_comm]
  all_goals simp [hc, hj]

theorem sayHello_ne_none {conn : Conn} {k j : Nat} :
    s.sayHello cfg conn k j ≠ none ↔ (j = k ∧ conn = .dialed k) ∨ s.hello j ≠ none := by
  unfold System.sayHello
  by_cases hc : conn = .dialed k <;> by_cases hj : j = k
  · subst hj
    simp [hc]
  all_goals simp [hc, hj]

namespace SetupInv

/-- The sender moves, the auxiliary connections stay. -/
theorem setSender {p : Party} (h : SetupInv cfg s) (hp : SenderOk cfg s.hello p.pc) :
    SetupInv cfg (s.setParty .sender p) where
  sender := by simpa using hp
  receiver := by simpa [System.setParty_of_ne] using h.receiver
  backlog := h.backlog
  hello := h.hello

theorem setReceiver {p : Party} (h : SetupInv cfg s) (hp : ReceiverOk cfg s.hello p.pc) :
    SetupInv cfg (s.setParty .receiver p) where
  sender := by simpa [System.setParty_of_ne] using h.sender
  receiver := by simpa using hp
  backlog := h.backlog
  hello := h.hello

/-- A party moves past the auxiliary set-up, or only its pipe changes. -/
theorem setParty {p : Party} (h : SetupInv cfg s)
    (hs : ∀ hello, SenderOk cfg hello (s.party r).pc → SenderOk cfg hello p.pc)
    (hr : ∀ hello, ReceiverOk cfg hello (s.party r).pc → ReceiverOk cfg hello p.pc) :
    SetupInv cfg (s.setParty r p) := by
  cases r with
  | sender => exact h.setSender (hs _ h.sender)
  | receiver => exact h.setReceiver (hr _ h.receiver)

theorem transmit {f : Frame} (h : SetupInv cfg s) : SetupInv cfg (s.transmit r f) :=
  h.setParty (fun _ => id) (fun _ => id)

theorem withBacklog {backlog : List Conn} (h : SetupInv cfg s)
    (hb : ∀ conn ∈ backlog, conn.Honest cfg) : SetupInv cfg { s with backlog := backlog } :=
  { h with backlog := hb }

theorem readHello {conn : Conn} {accepted : Nat} {seen : List Bool} {aux : List (Option Conn)}
    {m : Message} (h : SetupInv cfg s)
    (hpc : (s.party .sender).pc = .awaitHello conn accepted seen aux)
    (hm : s.helloOn conn = some m) :
    SetupInv cfg (s.setPc .sender (afterHello cfg conn accepted seen aux m)) := by
  have hok := h.sender
  rw [hpc] at hok
  obtain ⟨hacc, hconn⟩ := hok
  refine h.setSender ?_
  unfold afterHello
  split
  · trivial
  · next index hi =>
    obtain ⟨rfl, hpos, hlt, hnew⟩ := acceptHello_dialed h hconn hm hi
    have hh : s.hello index ≠ none := by rw [show s.hello index = some m from hm]; simp
    obtain ⟨hcount, hlen, hfilled⟩ := hacc.next hpos hlt hnew hh
    have hauxLen : (aux.set (index - 1) (some (.dialed index))).length = cfg.connections - 1 := by
      simp [hacc.auxLength]
    dsimp only
    split
    · next hmore =>
      exact ⟨hmore, hlen, hauxLen, by rw [List.getElem?_set_ne (by omega)]; exact hacc.zero,
        hcount, hfilled⟩
    · next hdone =>
      have hrun := hacc.running
      exact ⟨hauxLen, filled_of_count hlen (by omega) hfilled⟩

theorem greet {conn : Conn} {k : Nat} {aux : List (Option Conn)} (h : SetupInv cfg s)
    (hpc : (s.party .receiver).pc = .greeting conn k aux) :
    SetupInv cfg ({ s with hello := s.sayHello cfg conn k }.setPc .receiver
      (afterGreet cfg conn k aux)) := by
  have hok := h.receiver
  rw [hpc] at hok
  obtain ⟨hpos, hlt, ⟨hlen, hdialed⟩, hbelow, -⟩ := hok
  have haux : Dialed cfg (s.sayHello cfg conn k) (aux.set (k - 1) (some conn)) := by
    refine ⟨by simp [hlen], fun j hj => ?_⟩
    rcases sayHello_ne_none.mp hj with ⟨rfl, rfl⟩ | hold
    · rw [List.getElem?_set_self (by omega)]
    · have hjk := hbelow j hold
      obtain ⟨m, hm⟩ := Option.ne_none_iff_exists'.mp hold
      have hj0 := (h.hello j m hm).2.1
      rw [List.getElem?_set_ne (by omega)]
      exact hdialed j hold
  have hbelow' : ∀ j, s.sayHello cfg conn k j ≠ none → j < k + 1 := by
    intro j hj
    rcases sayHello_ne_none.mp hj with ⟨rfl, -⟩ | hold
    · omega
    · exact Nat.lt_succ_of_lt (hbelow j hold)
  have hnext : ReceiverOk cfg (s.sayHello cfg conn k) (afterGreet cfg conn k aux) := by
    unfold afterGreet
    dsimp only
    split
    · next hmore => exact ⟨k.succ_pos, hmore, haux, hbelow'⟩
    · exact haux
  have hsaid : ∀ j m, s.sayHello cfg conn k j = some m →
      m = auxHello cfg j ∧ 0 < j ∧ j < cfg.connections := by
    intro j m hj
    rcases sayHello_eq_some.mp hj with ⟨rfl, -, rfl⟩ | ⟨-, hold⟩
    · exact ⟨rfl, hpos, hlt⟩
    · exact h.hello j m hold
  exact
    { sender := by
        simpa [System.setPc, System.setParty_of_ne] using
          h.sender.mono fun j hj => sayHello_ne_none.mpr (.inr hj)
      receiver := by simpa [System.setPc] using hnext
      backlog := h.backlog
      hello := hsaid }

theorem step (h : SetupInv cfg s) (hs : step cfg s l = some s') : SetupInv cfg s' := by
  cases l with
  | stray hello =>
    simp only [DirectMux.step, Option.ite_none_left_eq_some, Option.some.injEq] at hs
    obtain ⟨hno, rfl⟩ := hs
    refine h.withBacklog fun conn hc => ?_
    rcases List.mem_append.mp hc with hc | hc
    · exact h.backlog conn hc
    · obtain rfl := List.mem_singleton.mp hc
      rintro m rfl hgreet
      exact hno (by simpa using hgreet)
  | accept =>
    simp only [DirectMux.step] at hs
    split at hs
    · next accepted seen aux conn rest hpc hb =>
      obtain rfl := Option.some.inj hs
      have hacc := h.sender
      rw [hpc] at hacc
      have hrest : SetupInv cfg { s with backlog := rest } :=
        h.withBacklog fun c hc => h.backlog c (hb ▸ List.mem_cons_of_mem _ hc)
      exact hrest.setSender ⟨hacc, h.backlog conn (by simp [hb])⟩
    · cases hs
  | readHello =>
    simp only [DirectMux.step] at hs
    split at hs
    · next conn accepted seen aux hpc =>
      obtain ⟨m, hm, rfl⟩ := Option.map_eq_some_iff.mp hs
      exact h.readHello hpc hm
    · cases hs
  | connect lands =>
    simp only [DirectMux.step] at hs
    split at hs
    · next k aux hpc =>
      obtain rfl := Option.some.inj hs
      have hok := h.receiver
      rw [hpc] at hok
      obtain ⟨hpos, hlt, haux, hbelow⟩ := hok
      refine setReceiver (h.withBacklog fun conn hc => ?_)
        ⟨hpos, hlt, haux, hbelow, by cases lands <;> simp⟩
      cases lands with
      | false => exact h.backlog conn hc
      | true =>
        rcases List.mem_append.mp hc with hc | hc
        · exact h.backlog conn hc
        · obtain rfl := List.mem_singleton.mp hc
          trivial
    · cases hs
  | greet =>
    simp only [DirectMux.step] at hs
    split at hs
    · next conn k aux hpc =>
      obtain rfl := Option.some.inj hs
      exact h.greet hpc
    · cases hs
  | gatherFails r error =>
    simp only [DirectMux.step, Option.ite_none_right_eq_some, Option.some.injEq] at hs
    obtain ⟨-, rfl⟩ := hs
    exact h.setParty (fun _ _ => trivial) (fun _ _ => trivial)
  | sendStatus r =>
    simp only [DirectMux.step] at hs
    split at hs
    · next result hpc =>
      obtain rfl := Option.some.inj hs
      refine transmit (h.setParty (fun hello hok => ?_) (fun hello hok => ?_)) <;>
        · rw [hpc] at hok
          cases result <;> exact hok
    · cases hs
  | readStatus r =>
    simp only [DirectMux.step] at hs
    split at hs
    · next result f rest hpc _ =>
      obtain rfl := Option.some.inj hs
      refine h.setParty (fun hello hok => ?_) (fun hello hok => ?_) <;>
        · rw [hpc] at hok
          cases result <;> exact hok
    · cases hs
  | statusTimeout r =>
    simp only [DirectMux.step] at hs
    split at hs
    · next result hpc =>
      obtain rfl := Option.some.inj hs
      refine h.setParty (fun hello hok => ?_) (fun hello hok => ?_) <;>
        · rw [hpc] at hok
          cases result <;> exact hok
    · cases hs
  | send r payload =>
    simp only [DirectMux.step] at hs
    split at hs
    · obtain rfl := Option.some.inj hs
      exact h.transmit
    · cases hs
  | recv r =>
    simp only [DirectMux.step] at hs
    split at hs
    · obtain rfl := Option.some.inj hs
      exact h.setParty (fun _ => id) (fun _ => id)
    · cases hs

end SetupInv

/-! ## The status messages

What is on the primary connection, split at the status frame: the transfer's frames come
behind it, and a party that has stopped waiting leaves the status to the transfer. -/

/-- The set-up result a party has told its peer. -/
def Pc.told : Pc → Option Gathered
  | .waiting result | .returned result _ => some result
  | _ => none

/-- What the wait for the peer's status ended with. -/
def Pc.heard : Pc → Option (Except KikoError (Option Message))
  | .returned _ heard => some heard
  | _ => none

/-- The frames from its peer that a party has yet to read or has left to the transfer. -/
def Party.stream (p : Party) : List Frame :=
  p.delivered ++ p.inbox

/-- No status frame among them. -/
def Clean (frames : List Frame) : Prop :=
  ∀ f ∈ frames, f.isStatus = false

theorem Clean.push {frames : List Frame} {f : Frame} (h : Clean frames) (hf : f.isStatus = false) :
    Clean (frames ++ [f]) := by
  intro g hg
  rcases List.mem_append.mp hg with hg | hg
  · exact h g hg
  · rwa [List.mem_singleton.mp hg]

variable (cfg) in
/-- The stream of a party, by what its peer has `told`: the peer's status is its first frame,
    and is gone from it exactly when the party's own wait has read it. -/
def StreamOk (told : Option Gathered) (p : Party) : Prop :=
  match told with
  | none => p.stream = [] ∧ (p.pc.heard = none ∨ p.pc.heard = some (.ok none))
  | some result =>
    ((p.pc.heard = none ∨ p.pc.heard = some (.ok none)) ∧
        ∃ rest, p.stream = .control (muxStatus cfg result) :: rest ∧ Clean rest) ∨
      (p.pc.heard = some (.ok (some (muxStatus cfg result))) ∧ Clean p.stream)

variable (cfg) in
structure PartyOk (told : Option Gathered) (timedOut : Prop) (p : Party) : Prop where
  stream : StreamOk cfg told p
  fresh : p.pc.heard = none → p.delivered = []
  timeout : timedOut ↔ p.pc.heard = some (.ok none)

variable (cfg) in
def PipeInv (ls : List Label) (s : System) : Prop :=
  ∀ r, PartyOk cfg (s.party r.peer).pc.told (.statusTimeout r ∈ ls) (s.party r)

theorem pipeInv_start : PipeInv cfg [] (start cfg) := by
  intro r
  cases r <;> exact ⟨⟨rfl, .inl rfl⟩, fun _ => rfl, by simp [start, Pc.heard]⟩

namespace PartyOk

variable {told : Option Gathered} {timedOut timedOut' : Prop} {p p' : Party} {result : Gathered}

/-- A step that does not concern the primary connection. -/
theorem congr (h : PartyOk cfg told timedOut p) (hh : p'.pc.heard = p.pc.heard)
    (hi : p'.inbox = p.inbox) (hd : p'.delivered = p.delivered) (ht : timedOut' ↔ timedOut) :
    PartyOk cfg told timedOut' p' where
  stream := by
    have := h.stream
    simp only [StreamOk, Party.stream] at this ⊢
    rwa [hh, hi, hd]
  fresh hn := hd ▸ h.fresh (hh ▸ hn)
  timeout := by rw [ht, hh, h.timeout]

/-- The peer's status arrives. -/
theorem tell (h : PartyOk cfg none timedOut p) (ht : timedOut' ↔ timedOut) :
    PartyOk cfg (some result) timedOut'
      { p with inbox := p.inbox ++ [.control (muxStatus cfg result)] } where
  stream := by
    obtain ⟨hempty, hheard⟩ := h.stream
    refine .inl ⟨hheard, [], ?_, nofun⟩
    rw [Party.stream, ← List.append_assoc, show p.delivered ++ p.inbox = [] from hempty]
    rfl
  fresh := h.fresh
  timeout := ht.trans h.timeout

/-- A transfer frame of the peer arrives. -/
theorem arrive {payload : Bytes} (h : PartyOk cfg (some result) timedOut p)
    (ht : timedOut' ↔ timedOut) :
    PartyOk cfg (some result) timedOut'
      { p with inbox := p.inbox ++ [.transfer payload] } where
  stream := by
    simp only [StreamOk, Party.stream, ← List.append_assoc]
    rcases h.stream with ⟨hheard, rest, hs, hr⟩ | ⟨hheard, hs⟩
    · refine .inl ⟨hheard, rest ++ [.transfer payload], ?_, hr.push rfl⟩
      rw [show p.delivered ++ p.inbox = _ from hs, List.cons_append]
    · exact .inr ⟨hheard, hs.push rfl⟩
  fresh := h.fresh
  timeout := ht.trans h.timeout

/-- The wait reads the next frame: it is the peer's status. -/
theorem read {mine : Gathered} {f : Frame} {rest : List Frame} (h : PartyOk cfg told timedOut p)
    (hpc : p.pc = .waiting mine) (hi : p.inbox = f :: rest) (ht : timedOut' ↔ timedOut) :
    PartyOk cfg told timedOut' { p with pc := .returned mine f.heard, inbox := rest } := by
  have hnone : p.pc.heard = none := by rw [hpc]; rfl
  have hd := h.fresh hnone
  have hstream : p.stream = f :: rest := by rw [Party.stream, hd, hi, List.nil_append]
  have hto : ¬ timedOut := by rw [h.timeout, hnone]; nofun
  cases told with
  | none =>
    have hempty := h.stream.1
    rw [hstream] at hempty
    cases hempty
  | some result =>
    rcases h.stream with ⟨-, rest', hs, hr⟩ | ⟨hheard, -⟩
    · rw [hstream] at hs
      obtain ⟨rfl, rfl⟩ := List.cons.inj hs
      refine ⟨.inr ⟨rfl, ?_⟩, nofun, ?_⟩
      · simpa [Party.stream, hd] using hr
      · simp [ht, hto, Frame.heard, Pc.heard]
    · rw [hnone] at hheard
      cases hheard

/-- The wait times out. -/
theorem expire {mine : Gathered} (h : PartyOk cfg told timedOut p)
    (hpc : p.pc = .waiting mine) (ht : timedOut') :
    PartyOk cfg told timedOut' { p with pc := .returned mine (.ok none) } where
  stream := by
    have hnone : p.pc.heard = none := by rw [hpc]; rfl
    have hs := h.stream
    cases told with
    | none => exact ⟨hs.1, .inr rfl⟩
    | some result =>
      rcases hs with ⟨-, hs⟩ | ⟨hheard, -⟩
      · exact .inl ⟨.inr rfl, hs⟩
      · rw [hnone] at hheard
        cases hheard
  fresh := nofun
  timeout := by simp [ht, Pc.heard]

/-- The transfer reads a frame. -/
theorem consume {mine : Gathered} {heard : Except KikoError (Option Message)} {f : Frame}
    {rest : List Frame} (h : PartyOk cfg told timedOut p) (hpc : p.pc = .returned mine heard)
    (hi : p.inbox = f :: rest) (ht : timedOut' ↔ timedOut) :
    PartyOk cfg told timedOut' { p with inbox := rest, delivered := p.delivered ++ [f] } where
  stream := by
    have hs := h.stream
    simp only [StreamOk, Party.stream, hi] at hs ⊢
    rwa [List.append_assoc, List.singleton_append]
  fresh hn := by
    simp only [hpc] at hn
    cases hn
  timeout := ht.trans h.timeout

end PartyOk

theorem afterHello_told {conn : Conn} {accepted : Nat} {seen : List Bool}
    {aux : List (Option Conn)} {m : Message} :
    (afterHello cfg conn accepted seen aux m).told = none := by
  unfold afterHello
  split
  · rfl
  · dsimp only
    split <;> rfl

theorem afterHello_heard {conn : Conn} {accepted : Nat} {seen : List Bool}
    {aux : List (Option Conn)} {m : Message} :
    (afterHello cfg conn accepted seen aux m).heard = none := by
  unfold afterHello
  split
  · rfl
  · dsimp only
    split <;> rfl

theorem afterGreet_told {conn : Conn} {k : Nat} {aux : List (Option Conn)} :
    (afterGreet cfg conn k aux).told = none := by
  unfold afterGreet
  dsimp only
  split <;> rfl

theorem afterGreet_heard {conn : Conn} {k : Nat} {aux : List (Option Conn)} :
    (afterGreet cfg conn k aux).heard = none := by
  unfold afterGreet
  dsimp only
  split <;> rfl

/-- Another label does not add a timeout of `r`. -/
theorem timeout_concat (hl : l ≠ .statusTimeout r) :
    .statusTimeout r ∈ ls ++ [l] ↔ .statusTimeout r ∈ ls := by
  simp [hl.symm]

namespace PipeInv

/-- A step of the set-up moves one party, which tells and hears nothing. -/
theorem setPc {pc : Pc} (h : PipeInv cfg ls s) (hl : ∀ r, l ≠ .statusTimeout r)
    (ht : pc.told = (s.party r).pc.told) (hh : pc.heard = (s.party r).pc.heard) :
    PipeInv cfg (ls ++ [l]) (s.setPc r pc) := by
  refine Role.forall_of_peer (r := r) ?_ ?_
  · simp only [System.setPc, System.setParty_peer, System.setParty_self]
    exact (h r).congr hh rfl rfl (timeout_concat (hl r))
  · simp only [System.setPc, Role.peer_peer, System.setParty_peer, System.setParty_self, ht]
    have hp := h r.peer
    rw [Role.peer_peer] at hp
    exact hp.congr rfl rfl rfl (timeout_concat (hl _))

/-- The party that moves and its peer, each with what becomes of it. -/
theorem of_parties {ls' : List Label}
    (h : PartyOk cfg (s'.party r.peer).pc.told (.statusTimeout r ∈ ls') (s'.party r))
    (hp : PartyOk cfg (s'.party r).pc.told (.statusTimeout r.peer ∈ ls') (s'.party r.peer)) :
    PipeInv cfg ls' s' := by
  refine Role.forall_of_peer h ?_
  rwa [Role.peer_peer]

theorem peer (h : PipeInv cfg ls s) :
    PartyOk cfg (s.party r).pc.told (.statusTimeout r.peer ∈ ls) (s.party r.peer) := by
  have hp := h r.peer
  rwa [Role.peer_peer] at hp

/-- A party's own pipe changes, and what it has told its peer stays. -/
theorem setParty {p : Party} (h : PipeInv cfg ls s) (hl : l ≠ .statusTimeout r.peer)
    (ht : p.pc.told = (s.party r).pc.told)
    (hp : PartyOk cfg (s.party r.peer).pc.told (.statusTimeout r ∈ ls ++ [l]) p) :
    PipeInv cfg (ls ++ [l]) (s.setParty r p) := by
  refine of_parties (r := r) ?_ ?_
  · simpa using hp
  · simp only [System.setParty_peer, System.setParty_self, ht]
    exact h.peer.congr rfl rfl rfl (timeout_concat hl)

theorem sendStatus {result : Gathered} (h : PipeInv cfg ls s)
    (hpc : (s.party r).pc = .gathered result) :
    PipeInv cfg (ls ++ [.sendStatus r])
      ((s.setPc r (.waiting result)).transmit r (.control (muxStatus cfg result))) := by
  have hself := h r
  have hpeer := h.peer (r := r)
  rw [hpc] at hpeer
  refine of_parties (r := r) ?_ ?_
  · simp only [System.transmit, System.setPc, System.setParty_of_peer, System.setParty_self,
      System.setParty_peer]
    exact hself.congr (by rw [hpc]; rfl) rfl rfl (timeout_concat nofun)
  · simp only [System.transmit, System.setPc, System.setParty_of_peer, System.setParty_self,
      System.setParty_peer]
    exact hpeer.tell (timeout_concat nofun)

theorem send {mine : Gathered} {heard : Except KikoError (Option Message)} {payload : Bytes}
    (h : PipeInv cfg ls s) (hpc : (s.party r).pc = .returned mine heard) :
    PipeInv cfg (ls ++ [.send r payload]) (s.transmit r (.transfer payload)) := by
  have hpeer := h.peer (r := r)
  rw [hpc] at hpeer
  refine of_parties (r := r) ?_ ?_
  · simp only [System.transmit, System.setParty_of_peer, System.setParty_self]
    exact (h r).congr rfl rfl rfl (timeout_concat nofun)
  · simp only [System.transmit, System.setParty_of_peer, System.setParty_self, hpc]
    exact hpeer.arrive (timeout_concat nofun)

theorem step (h : PipeInv cfg ls s) (hs : step cfg s l = some s') :
    PipeInv cfg (ls ++ [l]) s' := by
  cases l with
  | stray hello =>
    simp only [DirectMux.step, Option.ite_none_left_eq_some, Option.some.injEq] at hs
    obtain ⟨-, rfl⟩ := hs
    exact fun r => (h r).congr rfl rfl rfl (timeout_concat nofun)
  | accept =>
    simp only [DirectMux.step] at hs
    split at hs
    · next hpc _ =>
      obtain rfl := Option.some.inj hs
      exact setPc (s := { s with backlog := _ }) h nofun (by simp [hpc, Pc.told])
        (by simp [hpc, Pc.heard])
    · cases hs
  | readHello =>
    simp only [DirectMux.step] at hs
    split at hs
    · next conn accepted seen aux hpc =>
      obtain ⟨m, -, rfl⟩ := Option.map_eq_some_iff.mp hs
      exact h.setPc nofun (by rw [hpc, afterHello_told]; rfl) (by rw [hpc, afterHello_heard]; rfl)
    · cases hs
  | connect lands =>
    simp only [DirectMux.step] at hs
    split at hs
    · next hpc =>
      obtain rfl := Option.some.inj hs
      exact setPc (s := { s with backlog := _ }) h nofun (by simp [hpc, Pc.told])
        (by simp [hpc, Pc.heard])
    · cases hs
  | greet =>
    simp only [DirectMux.step] at hs
    split at hs
    · next conn k aux hpc =>
      obtain rfl := Option.some.inj hs
      exact setPc (s := { s with hello := _ }) h nofun (by simp only [hpc, afterGreet_told]; rfl)
        (by simp only [hpc, afterGreet_heard]; rfl)
    · cases hs
  | gatherFails r error =>
    simp only [DirectMux.step, Option.ite_none_right_eq_some, Option.some.injEq] at hs
    obtain ⟨hg, rfl⟩ := hs
    refine h.setPc nofun ?_ ?_ <;> cases hpc : (s.party r).pc <;> simp_all [Pc.gathering] <;> rfl
  | sendStatus r =>
    simp only [DirectMux.step] at hs
    split at hs
    · next hpc =>
      obtain rfl := Option.some.inj hs
      exact h.sendStatus hpc
    · cases hs
  | readStatus r =>
    simp only [DirectMux.step] at hs
    split at hs
    · next hpc hi =>
      obtain rfl := Option.some.inj hs
      exact h.setParty nofun (by rw [hpc]; rfl) ((h r).read hpc hi (timeout_concat nofun))
    · cases hs
  | statusTimeout r =>
    simp only [DirectMux.step] at hs
    split at hs
    · next hpc =>
      obtain rfl := Option.some.inj hs
      exact h.setParty (by simp [r.peer_ne.symm]) (by rw [hpc]; rfl)
        ((h r).expire hpc (by simp))
    · cases hs
  | send r payload =>
    simp only [DirectMux.step] at hs
    split at hs
    · next hpc =>
      obtain rfl := Option.some.inj hs
      exact h.send hpc
    · cases hs
  | recv r =>
    simp only [DirectMux.step] at hs
    split at hs
    · next hpc hi =>
      obtain rfl := Option.some.inj hs
      exact h.setParty nofun rfl ((h r).consume hpc hi (timeout_concat nofun))
    · cases hs

end PipeInv

/-! ## Agreement -/

theorem muxStatus_verdict (gathered : Gathered) :
    (peerVerdict cfg (.ok (some (muxStatus cfg gathered)))).1 = localReady cfg gathered := by
  have hroom : (muxStatus cfg gathered).get "room" = cfg.room := by
    simp [muxStatus, Message.get]
  have hcount : (muxStatus cfg gathered).getU64 "conn_count" 0 = .ok cfg.connections := by
    have hfits := cfg.fitsInt
    refine Message.getU64_eq ?_ (by unfold u64Max; omega)
    simp [muxStatus, Message.get, List.lookup]
  have hready : (muxStatus cfg gathered).get "ready" =
      if localReady cfg gathered then "1" else "0" := by
    simp [muxStatus, Message.get, List.lookup]
  have htype : (muxStatus cfg gathered).type = "direct_mux_status" := rfl
  simp only [peerVerdict, htype, hroom, hcount, hready, and_self, if_true]
  cases localReady cfg gathered <;> decide

theorem conclude_muxEnabled {gathered : Gathered} {heard : Except KikoError (Option Message)} :
    (conclude cfg gathered heard).muxEnabled =
      (localReady cfg gathered && (peerVerdict cfg heard).1) := by
  unfold conclude
  cases gathered with
  | error e => simp [localReady]
  | ok aux => cases hr : localReady cfg (.ok aux) && (peerVerdict cfg heard).1 <;> simp

theorem conclude_channels {gathered : Gathered} {heard : Except KikoError (Option Message)}
    (h : (conclude cfg gathered heard).muxEnabled = true) :
    ∃ aux, gathered = .ok aux ∧ (conclude cfg gathered heard).channels = some .primary :: aux := by
  rw [conclude_muxEnabled] at h
  cases gathered with
  | error e => simp [localReady] at h
  | ok aux => exact ⟨aux, rfl, by simp [conclude, h]⟩

/-- A result that names mux on needs the peer's status to have been read. -/
theorem not_mux_of_timeout {gathered : Gathered} :
    (conclude cfg gathered (.ok none)).muxEnabled = false := by
  rw [conclude_muxEnabled]
  simp [peerVerdict]

theorem System.pc_of_result {a : DirectMuxResult} (h : s.result cfg r = some a) :
    ∃ gathered heard, (s.party r).pc = .returned gathered heard ∧
      a = conclude cfg gathered heard := by
  unfold System.result at h
  split at h
  · next gathered heard hpc => exact ⟨gathered, heard, hpc, (Option.some.inj h).symm⟩
  · cases h

/-- What the two waits have ended with, once both calls have returned. -/
theorem PartyOk.returned {told : Gathered} {timedOut : Prop} {p : Party} {mine : Gathered}
    {heard : Except KikoError (Option Message)} (h : PartyOk cfg (some told) timedOut p)
    (hpc : p.pc = .returned mine heard) :
    (timedOut ∧ heard = .ok none ∧ .control (muxStatus cfg told) ∈ p.stream) ∨
      (¬ timedOut ∧ heard = .ok (some (muxStatus cfg told)) ∧ Clean p.stream) := by
  have hto := h.timeout
  rcases h.stream with ⟨hheard, rest, hs, -⟩ | ⟨hheard, hs⟩ <;>
    simp only [hpc, Pc.heard, Option.some.injEq, reduceCtorEq, false_or] at hheard hto
  · exact .inl ⟨hto.mpr hheard, hheard, hs ▸ List.mem_cons_self⟩
  · refine .inr ⟨fun ht => ?_, hheard, hs⟩
    rw [hto.mp ht] at hheard
    cases hheard

/-- The two sides hold the ends of the same connections once both are ready. -/
theorem SetupInv.connected {auxS auxR : List (Option Conn)}
    {heardS heardR : Except KikoError (Option Message)} (h : SetupInv cfg s)
    (hS : (s.party .sender).pc = .returned (.ok auxS) heardS)
    (hR : (s.party .receiver).pc = .returned (.ok auxR) heardR) {k : Nat}
    (hk : k < cfg.connections) :
    (some .primary :: auxS)[k]? = some (some (channel k)) ∧
      (some .primary :: auxR)[k]? = some (some (channel k)) := by
  have hsender := h.sender
  have hreceiver := h.receiver
  rw [hS] at hsender
  rw [hR] at hreceiver
  cases k with
  | zero => exact ⟨rfl, rfl⟩
  | succ k =>
    obtain ⟨hfilled, hsaid⟩ := hsender.2 (k + 1) k.succ_pos hk
    exact ⟨by simpa [channel] using hfilled, by simpa [channel] using hreceiver.2 (k + 1) hsaid⟩

/-- **Mux agreement.** When both calls have returned, they agree on mux and its channels, and
    the transfer meets no status frame, exactly when neither wait for the peer's status has
    timed out. -/
theorem negotiate_agreed_iff {a b : DirectMuxResult}
    (h : Lts.run (step cfg) (start cfg) ls = some s) (ha : s.result cfg .sender = some a)
    (hb : s.result cfg .receiver = some b) :
    Agreed cfg s a b ↔ ∀ r, .statusTimeout r ∉ ls := by
  have hsetup : SetupInv cfg s :=
    (Lts.Reach.of_run ls h).invariant setupInv_start fun hI _ hs => hI.step hs
  have hpipe : PipeInv cfg ls s :=
    Lts.run_invariant h pipeInv_start fun hI hs => hI.step hs
  obtain ⟨gS, xS, hpcS, rfl⟩ := System.pc_of_result ha
  obtain ⟨gR, xR, hpcR, rfl⟩ := System.pc_of_result hb
  have hS := hpipe .sender
  have hR := hpipe .receiver
  simp only [Role.peer, hpcS, hpcR, Pc.told] at hS hR
  constructor
  · intro hagree
    -- a wait that timed out has its side without mux and the peer's status unread
    have hcontra : ∀ r (told : Gathered), .control (muxStatus cfg told) ∈ (s.party r).stream →
        (conclude cfg gS xS).muxEnabled = false → False := fun r told hmem hoff =>
      nomatch hagree.noStatusLeft hoff r _ hmem
    intro r hr
    cases r with
    | sender =>
      rcases hS.returned hpcS with ⟨-, rfl, hmem⟩ | ⟨hno, -⟩
      · exact hcontra _ _ hmem not_mux_of_timeout
      · exact hno hr
    | receiver =>
      rcases hR.returned hpcR with ⟨-, rfl, hmem⟩ | ⟨hno, -⟩
      · exact hcontra _ _ hmem (hagree.sameMux ▸ not_mux_of_timeout)
      · exact hno hr
  · intro hno
    rcases hS.returned hpcS with ⟨hto, -⟩ | ⟨-, rfl, hcleanS⟩
    · exact absurd hto (hno .sender)
    rcases hR.returned hpcR with ⟨hto, -⟩ | ⟨-, rfl, hcleanR⟩
    · exact absurd hto (hno .receiver)
    have hmux : (conclude cfg gS (.ok (some (muxStatus cfg gR)))).muxEnabled =
        (conclude cfg gR (.ok (some (muxStatus cfg gS)))).muxEnabled := by
      simp only [conclude_muxEnabled, muxStatus_verdict]
      exact Bool.and_comm _ _
    refine ⟨hmux, fun hon k hk => ?_, fun _ r => ?_⟩
    · obtain ⟨auxS, rfl, hchS⟩ := conclude_channels hon
      obtain ⟨auxR, rfl, hchR⟩ := conclude_channels (hmux ▸ hon)
      rw [hchS, hchR]
      exact hsetup.connected hpcS hpcR hk
    · cases r
      · exact hcleanS
      · exact hcleanR

/-- Two connections in a room. -/
def twoConnections : Config where
  connections := 2
  room := "room"
  parallel := by decide
  fitsInt := by decide

/-- The set-up of the one auxiliary connection, and the sender's status. -/
def setupRun : List Label :=
  [.connect true, .accept, .greet, .readHello, .sendStatus .sender, .sendStatus .receiver]

/-- The result of the calls that run mux on both connections. -/
def muxed : DirectMuxResult :=
  { channels := [some .primary, some (.dialed 1)], muxEnabled := true }

/-- Both read the other's status and run mux. -/
theorem negotiate_agreed_two :
    ∃ ls s, Lts.run (step twoConnections) (start twoConnections) ls = some s ∧
      Agreed twoConnections s muxed muxed := by
  obtain ⟨s, hr, hs⟩ := Lts.exists_run_eq (step twoConnections) (start twoConnections)
    (setupRun ++ [.readStatus .sender, .readStatus .receiver])
    (fun s => s.result twoConnections .sender == some muxed &&
      s.result twoConnections .receiver == some muxed) (by decide)
  simp only [Bool.and_eq_true, beq_iff_eq] at hs
  refine ⟨_, s, hr, (negotiate_agreed_iff hr hs.1 hs.2).mpr ?_⟩
  rintro (_ | _) <;> decide

/-- The receiver's wait times out although the sender has sent its status: the sender runs
    mux and the receiver does not. -/
theorem negotiate_disagree :
    ∃ ls s a b, Lts.run (step twoConnections) (start twoConnections) ls = some s ∧
      s.result twoConnections .sender = some a ∧ s.result twoConnections .receiver = some b ∧
      ¬ Agreed twoConnections s a b := by
  obtain ⟨s, hr, hs⟩ := Lts.exists_run_eq (step twoConnections) (start twoConnections)
    (setupRun ++ [.statusTimeout .receiver, .readStatus .sender])
    (fun s => s.result twoConnections .sender == some muxed &&
      s.result twoConnections .receiver ==
        some { channels := [some .primary], fallbackReason := "peer mux status missing" })
    (by decide)
  simp only [Bool.and_eq_true, beq_iff_eq] at hs
  exact ⟨_, s, _, _, hr, hs.1, hs.2, fun h => nomatch h.sameMux⟩

end Kiko.DirectMux
