import Kiko.Connect.RoutePlanner
import Kiko.Relay.Codec

/-!
# How many connections a transfer opens (`transfer/transfer`, `relay/relay_server`)

The sender settles the number: its configuration, what the round trip to the relay recommends,
and what a suggested plan says, in this order. It announces the number in its relay hello, makes
a new plan once the peer is known, merges the earlier suggestion into that and establishes the
route with the number of the merged plan. The receiver takes the number from the relay's peer
message and never from a plan of its own.

That the two ends establish the same number rests on one fact about the sender: the merge after
the rendezvous gives back what was announced (`SendPlan.afterRendezvous_connections`). The rest is
one field carried by two messages.

The number passes through many hands: configuration, recommendation, suggestion, plan, hello, the
relay's room, the message to the peer, the plan after the rendezvous. Each function is modelled
with all its clamps, because it is a clamp in the wrong place that would break the agreement,
where one side has the number before it and the other the number after.

What a suggested plan says is a parameter (`SendFindings.reply`), any answer at all or none. The
parser of that answer and its limits are in `Kiko.Connect.RoutePlanner`.
-/

set_option autoImplicit false

namespace Kiko.Transfer

open RelayRace RoutePlanner

/-! ## The number the sender settles on

In the order of `run_send_once`. A number below the range is raised to one and a number above it
is an error, both before anything is announced. -/

/-- `kMaxMuxConnections`. -/
def maxMuxConnections : Int := 32

def normalizeConnectionCount (connections : Int) : Except KikoError Int :=
  if connections < 1 then .ok 1
  else if maxMuxConnections < connections then
    .error ("connection count exceeds maximum " ++ toString maxMuxConnections)
  else .ok connections

def recommendConnections (relayRttMs : Int) (totalBytes : Nat) : Int :=
  if totalBytes < 4 * 1024 * 1024 then 1
  else if relayRttMs < 0 then 4
  else if 150 < relayRttMs then if 100 * 1024 * 1024 < totalBytes then 4 else 2
  else if 500 * 1024 * 1024 < totalBytes then 8
  else if 50 * 1024 * 1024 < totalBytes then 6
  else 4

/-- What the number of connections depends on in `SendConfig`. -/
structure SendConfig where
  connections : Int := 4
  autoConnections : Bool := false
  noDirect : Bool := false
  aiRoute : Bool := false
  aiRoutePlanOnly : Bool := false
  aiRouteConnectivityOnly : Bool := false

/-- What `PeerRouteSession::rendezvous` writes into a hello. -/
structure Advertised where
  room : String
  role : Role
  listen : Endpoint
  localCandidates : List String
  noDirect : Bool
  app : String
  stunNat : String

/-- What a sender finds outside: its files, the round trip to the external relay, the network
    before the rendezvous and after it, and the advisor's reply. -/
structure SendFindings where
  fileCount : Nat
  totalSize : Nat
  relayRttMs : Int
  preSnapshot : ConnectivitySnapshot
  preStun : Option StunProbeResult
  reply : Option Json.Value
  advertised : Advertised
  snapshot : ConnectivitySnapshot
  stun : Option StunProbeResult

/-- `connections` before a plan is made. -/
def baseConnections (config : SendConfig) (found : SendFindings) : Except KikoError Int := do
  let connections ← normalizeConnectionCount config.connections
  if config.autoConnections then
    normalizeConnectionCount (recommendConnections found.relayRttMs found.totalSize)
  else return connections

def SendConfig.aiRouteOptions (config : SendConfig) : AiRouteOptions :=
  ⟨config.aiRoute, config.aiRoutePlanOnly, config.aiRouteConnectivityOnly⟩

/-- `pre_peer_ai_plan`. A plan that is only shown is not kept. -/
def prePeerAiPlan (config : SendConfig) (found : SendFindings) (connections : Int) :
    Option RoutePlan :=
  if config.aiRoute && !config.aiRoutePlanOnly then
    some (resolveRoutePlan config.noDirect found.preSnapshot found.preStun connections
      config.aiRouteOptions found.reply)
  else none

/-- What a sender has settled before it meets its peer. -/
structure SendPlan where
  prePlan : Option RoutePlan
  connections : Int

def planBeforeRendezvous (config : SendConfig) (found : SendFindings) : Except KikoError SendPlan := do
  let connections ← baseConnections config found
  match prePeerAiPlan config found connections with
  | none => return ⟨none, connections⟩
  | some prePlan =>
    if config.aiRouteConnectivityOnly then return ⟨some prePlan, connections⟩
    else return ⟨some prePlan, ← normalizeConnectionCount prePlan.connections⟩

/-- The hello of `run_send_once` with what `rendezvous` adds to it. -/
def sendHello (found : SendFindings) (connections : Int) : RelayHello where
  room := found.advertised.room
  role := found.advertised.role
  connIndex := 0
  listen := found.advertised.listen
  punchPublic := ⟨"", 0⟩
  fileCount := found.fileCount
  totalSize := found.totalSize
  -- the cast of an `int` to 64 bits without a sign
  connCount := (connections % 2 ^ 64).toNat
  auxiliary := false
  noDirect := found.advertised.noDirect
  localCandidates := found.advertised.localCandidates
  app := found.advertised.app
  stunNat := found.advertised.stunNat
  relayPass := none
  extensionFields := []

/-- What `PeerRouteSession::establish` is called with. -/
structure EstablishCall where
  routePlan : RoutePlan
  connections : Int

/-- The plan and the number after the rendezvous. -/
def SendPlan.afterRendezvous (plan : SendPlan) (config : SendConfig) (found : SendFindings) :
    Except KikoError EstablishCall := do
  let routePlan := buildRoutePlan config.noDirect found.snapshot found.stun plan.connections
  match plan.prePlan with
  | none => return ⟨routePlan, plan.connections⟩
  | some prePlan =>
    let routePlan := mergeRoutePlanHint routePlan prePlan
    return ⟨routePlan, ← normalizeConnectionCount routePlan.connections⟩

/-- The hello a sender rendezvoused with, and how it established the route. -/
structure SendRun where
  hello : RelayHello
  call : EstablishCall

def runSendOnce (config : SendConfig) (found : SendFindings) : Except KikoError SendRun := do
  let plan ← planBeforeRendezvous config found
  let hello := sendHello found plan.connections
  let call ← plan.afterRendezvous config found
  return ⟨hello, call⟩

/-! ## The receiver

Its own configuration has a number too, and no effect on this one. -/

structure RecvConfig where
  noDirect : Bool := false
  aiRoute : Bool := false
  aiRoutePlanOnly : Bool := false

structure RecvFindings where
  snapshot : ConnectivitySnapshot
  stun : Option StunProbeResult
  reply : Option Json.Value

/-- `run_recv_once` from its rendezvous on. -/
def runRecvOnce (config : RecvConfig) (found : RecvFindings) (peer : RelayPeerInfo) :
    Except KikoError EstablishCall := do
  if maxMuxConnections.toNat < peer.connCount then throw "peer requested too many mux connections"
  let connections ← normalizeConnectionCount (Int32.ofNat peer.connCount).toInt
  return {
    routePlan := resolveRoutePlan config.noDirect found.snapshot found.stun connections
      ⟨config.aiRoute, config.aiRoutePlanOnly, false⟩ found.reply
    connections }

/-! ## Between them

The relay keeps the registration and makes the peer message from it. `Relayed` says that both
messages went through their codecs, as text. -/

/-- The `registration` of `try_connect_relay_and_register`. -/
def registration (hello : RelayHello) (relayPass : Option String) (punchMapping : Option Endpoint) :
    RelayHello :=
  { hello with
    relayPass := if (relayPass.getD "") ≠ "" then relayPass else hello.relayPass
    punchPublic := punchMapping.getD hello.punchPublic }

/-- What the messages of a pair are made from, of `RelayWaitingPeer`. -/
structure RelayWaitingPeer where
  publicEndpoint : Endpoint
  listenEndpoint : Endpoint
  localCandidates : List String
  noDirect : Bool
  fileCount : Nat
  totalSize : Nat
  connCount : Nat

/-- `self` in `handle_client`, of a client at `peerAddr`. -/
def waitingPeer (registration : RelayHello) (peerAddr : Endpoint) : RelayWaitingPeer where
  publicEndpoint :=
    if registration.punchPublic.host ≠ "" ∧ 0 < registration.punchPublic.port then
      registration.punchPublic
    else ⟨peerAddr.host,
      if registration.listen.port = 0 then peerAddr.port else registration.listen.port⟩
  listenEndpoint :=
    if registration.listen.host = "" then ⟨peerAddr.host, registration.listen.port⟩
    else registration.listen
  localCandidates := registration.localCandidates
  noDirect := registration.noDirect
  fileCount := registration.fileCount
  totalSize := registration.totalSize
  connCount := registration.connCount

def peerMessageFor (self peer : RelayWaitingPeer) (punchToken : String) : Except KikoError Message :=
  encodeRelayPeerInfo {
    peerPublic := peer.publicEndpoint
    peerListen := peer.listenEndpoint
    peerLocalCandidates := peer.localCandidates
    peerNoDirect := peer.noDirect
    selfPublic := self.publicEndpoint
    punchToken := punchToken
    routeCommitV2 := true
    fileCount := peer.fileCount
    totalSize := peer.totalSize
    connCount := peer.connCount }

/-- A relay takes a hello that was sent as one of its registrations, and tells the other client
    of the pair about it. -/
inductive Relayed (hello : RelayHello) : RelayPeerInfo → Prop
  | intro {relayPass : Option String} {punchMapping : Option Endpoint} {sent told : Message}
      {taken : RelayHello} {peerAddr : Endpoint} {self : RelayWaitingPeer} {punchToken : String}
      {peer : RelayPeerInfo}
      (send : encodeRelayHello (registration hello relayPass punchMapping) = .ok sent)
      (take : decodeRelayHello sent = .ok taken)
      (tell : peerMessageFor self (waitingPeer taken peerAddr) punchToken = .ok told)
      (read : decodeRelayPeerInfo told = .ok peer) : Relayed hello peer

/-! ## The sender stays with what it announced

The plan that is merged in has the announced number in either mode: where only connectivity may
change, because it was made with that number, and else because the number was taken from it. -/

section Sender

variable {config : SendConfig} {found : SendFindings}

def InRange (connections : Int) : Prop := 1 ≤ connections ∧ connections ≤ maxMuxConnections

instance (connections : Int) : Decidable (InRange connections) := inferInstanceAs (Decidable (_ ∧ _))

theorem normalizeConnectionCount_eq {n : Int} (h : InRange n) : normalizeConnectionCount n = .ok n := by
  rw [normalizeConnectionCount, if_neg (not_lt.mpr h.1), if_neg (not_lt.mpr h.2)]

theorem normalizeConnectionCount_ok {n m : Int} (h : normalizeConnectionCount n = .ok m) :
    InRange m := by
  unfold normalizeConnectionCount at h
  by_cases hlow : n < 1
  · rw [if_pos hlow] at h
    cases h
    decide
  rw [if_neg hlow] at h
  by_cases hhigh : maxMuxConnections < n
  · rw [if_pos hhigh] at h
    cases h
  · rw [if_neg hhigh] at h
    cases h
    exact ⟨not_lt.mp hlow, not_lt.mp hhigh⟩

theorem baseConnections_ok {connections : Int} (h : baseConnections config found = .ok connections) :
    InRange connections := by
  unfold baseConnections at h
  obtain ⟨given, hgiven, h⟩ := exists_of_bind_ok h
  by_cases hauto : config.autoConnections = true
  · rw [if_pos hauto] at h
    exact normalizeConnectionCount_ok h
  · rw [if_neg hauto] at h
    cases h
    exact normalizeConnectionCount_ok hgiven

/-- A number a receiver takes, and no other number in the plan that is merged in later. -/
structure SendPlan.Settled (plan : SendPlan) : Prop where
  range : InRange plan.connections
  prePlan : ∀ prePlan, plan.prePlan = some prePlan → prePlan.connections = plan.connections

theorem planBeforeRendezvous_settled {plan : SendPlan}
    (h : planBeforeRendezvous config found = .ok plan) : plan.Settled := by
  unfold planBeforeRendezvous at h
  obtain ⟨connections, hbase, h⟩ := exists_of_bind_ok h
  have hrange := baseConnections_ok hbase
  cases hpre : prePeerAiPlan config found connections with
  | none =>
    rw [hpre] at h
    cases h
    exact ⟨hrange, fun _ h => nomatch h⟩
  | some prePlan =>
    have hplan : resolveRoutePlan config.noDirect found.preSnapshot found.preStun connections
        config.aiRouteOptions found.reply = prePlan := by
      unfold prePeerAiPlan at hpre
      by_cases hai : (config.aiRoute && !config.aiRoutePlanOnly) = true
      · rw [if_pos hai] at hpre
        exact Option.some.inj hpre
      · rw [if_neg hai] at hpre
        cases hpre
    have hcount := resolveRoutePlan_connections config.noDirect found.preSnapshot found.preStun
      connections config.aiRouteOptions found.reply
    rw [hplan] at hcount
    simp only [hpre] at h
    by_cases honly : config.aiRouteConnectivityOnly = true
    · -- only connectivity may change, and so the plan has the number it was made with
      rw [if_pos honly] at h
      cases h
      obtain heq | ⟨hfalse, -⟩ := hcount
      · exact ⟨hrange, fun _ h => Option.some.inj h ▸ heq⟩
      · exact absurd (honly.symm.trans hfalse) (by decide)
    · rw [if_neg honly] at h
      have hsuggested : InRange prePlan.connections := by
        obtain heq | ⟨-, hlow, hhigh⟩ := hcount
        · rw [heq]
          exact hrange
        · exact ⟨hlow, hhigh⟩
      rw [normalizeConnectionCount_eq hsuggested, ok_bind] at h
      cases h
      exact ⟨hsuggested, fun _ h => Option.some.inj h ▸ rfl⟩

/-- **The plan after the rendezvous has the number that was announced before it.** -/
theorem SendPlan.Settled.afterRendezvous {plan : SendPlan} (h : plan.Settled) (config : SendConfig)
    (found : SendFindings) : ∃ routePlan, routePlan.connections = plan.connections ∧
      plan.afterRendezvous config found = .ok ⟨routePlan, plan.connections⟩ := by
  unfold SendPlan.afterRendezvous
  cases hpre : plan.prePlan with
  | none => exact ⟨_, buildRoutePlan_connections _ _ _ _, rfl⟩
  | some prePlan =>
    have hsame := h.prePlan prePlan hpre
    have hmerged := @mergeRoutePlanHint_connections
      (buildRoutePlan config.noDirect found.snapshot found.stun plan.connections) prePlan
      (hsame ▸ h.range.1)
    refine ⟨_, hmerged.trans hsame, ?_⟩
    simp only
    rw [hmerged, hsame, normalizeConnectionCount_eq h.range]
    rfl

theorem runSendOnce_ok {run : SendRun} (h : runSendOnce config found = .ok run) :
    InRange run.call.connections ∧ (run.hello.connCount : Int) = run.call.connections := by
  unfold runSendOnce at h
  obtain ⟨plan, hplan, h⟩ := exists_of_bind_ok h
  have hsettled := planBeforeRendezvous_settled hplan
  obtain ⟨routePlan, -, hafter⟩ := hsettled.afterRendezvous config found
  rw [hafter] at h
  cases h
  refine ⟨hsettled.range, ?_⟩
  have hlow : 1 ≤ plan.connections := hsettled.range.1
  have hhigh : plan.connections ≤ 32 := hsettled.range.2
  show (((plan.connections % 2 ^ 64).toNat : Nat) : Int) = plan.connections
  omega

end Sender

/-! ## The number in the messages

The hello leaves the number out when it is one, and its absence is read as one. -/

section Messages

variable {hello : RelayHello} {peer : RelayPeerInfo} {m : Message}

theorem encodeRelayHello_connCount (h : encodeRelayHello hello = .ok m) :
    m.getU64 "conn_count" 1 = .ok hello.connCount := by
  unfold encodeRelayHello at h
  by_cases hroom : hello.room = ""
  · rw [if_pos hroom] at h
    cases h
  rw [if_neg hroom] at h
  obtain ⟨_, hcount, h⟩ := exists_of_bind_ok h
  obtain rfl := Except.ok.inj h
  have hbounds := validateConnectionCount_bounds hcount
  -- a field that is carried along does not stand where this one is left out
  have hget := @get_assignSome "conn_count" "hello" _ _ (nodup_helloEntries hello)
    (KeyMap.lookup_filter (fun key => decide (key ∉ helloFields)) "conn_count" hello.extensionFields)
  exact getU64_of_optional (hget.trans getD_ite) (hbounds.2.trans (by decide)) fun h => not_not.mp h

theorem decodeRelayHello_connCount (h : decodeRelayHello m = .ok hello) :
    m.getU64 "conn_count" 1 = .ok hello.connCount := by
  unfold decodeRelayHello at h
  by_cases htype : m.type ≠ "hello"
  · rw [if_pos htype] at h
    cases h
  by_cases hroom : m.get "room" = ""
  · simp only [if_neg htype, hroom, if_true] at h
    cases h
  simp only [if_neg htype, hroom, if_false] at h
  obtain ⟨_, -, h⟩ := exists_of_bind_ok h
  obtain ⟨_, -, h⟩ := exists_of_bind_ok h
  obtain ⟨_, -, h⟩ := exists_of_bind_ok h
  obtain ⟨_, -, h⟩ := exists_of_bind_ok h
  obtain ⟨_, -, h⟩ := exists_of_bind_ok h
  obtain ⟨_, -, h⟩ := exists_of_bind_ok h
  obtain ⟨connCount, hconnCount, h⟩ := exists_of_bind_ok h
  obtain ⟨_, -, h⟩ := exists_of_bind_ok h
  obtain rfl := Except.ok.inj h
  exact hconnCount

theorem encodeRelayPeerInfo_connCount (h : encodeRelayPeerInfo peer = .ok m) :
    m.getU64 "conn_count" 1 = .ok peer.connCount := by
  unfold encodeRelayPeerInfo at h
  obtain ⟨_, hcount, h⟩ := exists_of_bind_ok h
  obtain rfl := Except.ok.inj h
  exact Message.getU64_eq (get_assignSome (nodup_peerEntries peer) rfl)
    ((validateConnectionCount_bounds hcount).2.trans (by decide))

theorem decodeRelayPeerInfo_connCount (h : decodeRelayPeerInfo m = .ok peer) :
    m.getU64 "conn_count" 1 = .ok peer.connCount := by
  unfold decodeRelayPeerInfo at h
  by_cases htype : m.type ≠ "peer"
  · rw [if_pos htype] at h
    cases h
  simp only [if_neg htype] at h
  obtain ⟨_, -, h⟩ := exists_of_bind_ok h
  obtain ⟨_, -, h⟩ := exists_of_bind_ok h
  obtain ⟨_, -, h⟩ := exists_of_bind_ok h
  obtain ⟨_, -, h⟩ := exists_of_bind_ok h
  obtain ⟨_, -, h⟩ := exists_of_bind_ok h
  obtain ⟨connCount, hconnCount, h⟩ := exists_of_bind_ok h
  obtain ⟨_, -, h⟩ := exists_of_bind_ok h
  obtain rfl := Except.ok.inj h
  exact hconnCount

theorem Relayed.connCount (h : Relayed hello peer) : peer.connCount = hello.connCount := by
  cases h with
  | intro send take tell read =>
    have htaken := (decodeRelayHello_connCount take).symm.trans (encodeRelayHello_connCount send)
    have htold := (decodeRelayPeerInfo_connCount read).symm.trans (encodeRelayPeerInfo_connCount tell)
    exact (Except.ok.inj htold).trans (Except.ok.inj htaken)

end Messages

/-- A receiver that is told a number in range establishes the route with it, whatever it is
    configured to and is suggested. -/
theorem runRecvOnce_ok {peer : RelayPeerInfo} (h : InRange peer.connCount) (config : RecvConfig)
    (found : RecvFindings) :
    ∃ call, runRecvOnce config found peer = .ok call ∧ call.connections = peer.connCount := by
  have hhigh : (peer.connCount : Int) ≤ 32 := h.2
  have hnat : ¬ maxMuxConnections.toNat < peer.connCount := by
    show ¬ 32 < peer.connCount
    omega
  have hcast : (Int32.ofNat peer.connCount).toInt = peer.connCount :=
    Int32.toInt_ofNat_of_lt (by omega)
  unfold runRecvOnce
  rw [if_neg hnat, hcast]
  simp only [normalizeConnectionCount_eq h, ok_bind]
  exact ⟨_, rfl, rfl⟩

/-- **Both ends establish the number that the sender announced**, and it is one from 1 to 32. -/
theorem connection_counts_agree {config : SendConfig} {found : SendFindings} {run : SendRun}
    (h : runSendOnce config found = .ok run) :
    (run.hello.connCount : Int) = run.call.connections ∧
      1 ≤ run.call.connections ∧ run.call.connections ≤ 32 ∧
      ∀ peer, Relayed run.hello peer → ∀ recvConfig recvFound, ∃ call,
        runRecvOnce recvConfig recvFound peer = .ok call ∧
          call.connections = run.call.connections := by
  obtain ⟨hrange, hannounced⟩ := runSendOnce_ok h
  refine ⟨hannounced, hrange.1, hrange.2, ?_⟩
  intro peer hrelayed recvConfig recvFound
  have hpeer : (peer.connCount : Int) = run.call.connections := by
    rw [hrelayed.connCount, hannounced]
  obtain ⟨call, hcall, hcount⟩ := runRecvOnce_ok (hpeer ▸ hrange) recvConfig recvFound
  exact ⟨call, hcall, hcount.trans hpeer⟩

/-- A hello that can be sent does reach the other client, from a peer whose address has a port. -/
theorem exists_relayed {hello : RelayHello} (ht : hello.Typed) (hs : hello.Sendable) :
    ∃ peer, Relayed hello peer := by
  have hsent := hs.encode
  have htake := decodeRelayHello_encodeRelayHello ht hs
  rw [hsent, ok_bind] at htake
  let self : RelayWaitingPeer := ⟨⟨"", 0⟩, ⟨"", 0⟩, [], false, 0, 0, 1⟩
  let info : RelayPeerInfo :=
    { peerPublic := (waitingPeer hello.cleared ⟨"", 0⟩).publicEndpoint
      peerListen := (waitingPeer hello.cleared ⟨"", 0⟩).listenEndpoint
      peerLocalCandidates := hello.localCandidates
      peerNoDirect := hello.noDirect
      selfPublic := ⟨"", 0⟩
      punchToken := ""
      routeCommitV2 := true
      fileCount := hello.fileCount
      totalSize := hello.totalSize
      connCount := hello.connCount }
  have htyped : info.Typed := by
    refine ⟨?_, ?_, Nat.zero_le _, ht.fileCount, ht.totalSize⟩
    · show Endpoint.port (if _ then hello.punchPublic else _) ≤ 65535
      split
      · exact ht.punchPublicPort
      · show (if hello.listen.port = 0 then 0 else hello.listen.port) ≤ 65535
        split
        · exact Nat.zero_le _
        · exact ht.listenPort
    · show Endpoint.port (if _ then (⟨"", hello.listen.port⟩ : Endpoint) else hello.listen) ≤ 65535
      split <;> exact ht.listenPort
  have hsendable : info.Sendable := ⟨hs.connCount, hs.candidates⟩
  have hread := decodeRelayPeerInfo_encodeRelayPeerInfo htyped hsendable
  rw [hsendable.encode, ok_bind] at hread
  exact ⟨info, @Relayed.intro hello none none _ _ hello.cleared ⟨"", 0⟩ self "" info hsent htake
    hsendable.encode hread⟩

/-- A sender of 600 MiB that is recommended 8 connections and then suggested 77. -/
def largeSend : SendFindings where
  fileCount := 1
  totalSize := 600 * 1024 * 1024
  relayRttMs := 20
  preSnapshot := {}
  preStun := none
  reply := some (.object [("connections", .number 77), ("skip_direct", .bool true)])
  advertised := ⟨"room", .sender, ⟨"", 9009⟩, ["10.0.0.2:9009"], false, "", ""⟩
  snapshot := { selfNat := .behindNat, peerNat := .behindNat }
  stun := none

/-- The largest number is announced and established, and the receiver takes it although it is
    suggested two. -/
theorem connection_counts_agree_largeSend : ∃ run peer call,
    runSendOnce { autoConnections := true, aiRoute := true } largeSend = .ok run ∧
      Relayed run.hello peer ∧
      runRecvOnce { aiRoute := true }
        { snapshot := {}, stun := none, reply := some (.object [("connections", .number 2)]) }
        peer = .ok call ∧
      run.hello.connCount = 32 ∧ call.connections = 32 := by
  obtain ⟨run, hrun, hhello, hcount⟩ : ∃ run, runSendOnce { autoConnections := true, aiRoute := true }
      largeSend = .ok run ∧ run.hello = sendHello largeSend 32 ∧ run.call.connections = 32 :=
    ⟨_, rfl, rfl, rfl⟩
  have htyped : (sendHello largeSend 32).Typed := by
    constructor
    case extension => exact List.Pairwise.nil
    all_goals decide
  have hsendable : (sendHello largeSend 32).Sendable := by
    constructor <;> decide
  obtain ⟨peer, hpeer⟩ := exists_relayed htyped hsendable
  rw [← hhello] at hpeer
  obtain ⟨-, -, -, hagree⟩ := connection_counts_agree hrun
  obtain ⟨call, hcall, hsame⟩ := hagree peer hpeer { aiRoute := true }
    { snapshot := {}, stun := none, reply := some (.object [("connections", .number 2)]) }
  exact ⟨run, peer, call, hrun, hpeer, hcall, congrArg RelayHello.connCount hhello,
    hsame.trans hcount⟩

end Kiko.Transfer
