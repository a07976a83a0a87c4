import Kiko.Core.Protocol

/-!
# The relay's route state (`relay/relay_route_state`)

What the relay remembers of each client while it waits for a route decision, and how two
such memories become a decision. The functions are translated as they stand.

It is the part of the relay that decides, and it is pure; who calls it, and when, is in
`Kiko.Connect.RouteSession`.
-/

set_option autoImplicit false

namespace Kiko

inductive RelayRouteChoice
  | waiting
  | standby
  | directOk
  | relayReady
  | invalid
deriving DecidableEq, Repr

/-- `RelayRouteDecision`; `relay_reason` is only there for the relay path. -/
inductive RelayRouteDecision
  | pending
  | direct
  | relay (reason : String)
  | invalid
deriving DecidableEq, Repr

/-- `relay_route_has_presence`. -/
def relayRouteHasPresence (choice : RelayRouteChoice) : Bool :=
  choice ≠ .waiting && choice ≠ .invalid

/-- `relay_route_choice_final`. -/
def relayRouteChoiceFinal (choice : RelayRouteChoice) : Bool :=
  choice = .directOk || choice = .relayReady || choice = .invalid

/-- `relay_route_choice_from`. -/
def relayRouteChoiceFrom (msg : Message) : RelayRouteChoice :=
  if msg.type = "relay_standby" then .standby
  else if msg.type = "direct_ok" then .directOk
  else if msg.type = "relay_ready" then .relayReady
  else .invalid

/-- `merge_relay_route_choice`. -/
def mergeRelayRouteChoice (state next : RelayRouteChoice) : RelayRouteChoice :=
  if state = .invalid || relayRouteChoiceFinal state then state
  else if next = .invalid || relayRouteChoiceFinal next || state = .waiting then next
  else state

/-- `relay_route_decision_for`. -/
def relayRouteDecisionFor (first second : RelayRouteChoice) (deadlineExpired : Bool) :
    RelayRouteDecision :=
  if first = .invalid || second = .invalid then .invalid
  else if first = .directOk && second = .directOk then .direct
  else
    let firstRelay := first = .relayReady
    let secondRelay := second = .relayReady
    if (firstRelay ∧ relayRouteHasPresence second) ∨ (secondRelay ∧ relayRouteHasPresence first) then
      if firstRelay ∧ secondRelay then .relay "relay"
      else if first = .directOk ∨ second = .directOk then .relay "mismatch"
      else .relay "standby"
    else if deadlineExpired && relayRouteHasPresence first && relayRouteHasPresence second then
      .relay "timeout"
    else .pending

end Kiko
