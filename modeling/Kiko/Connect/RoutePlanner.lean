import Kiko.Settings.Profile

/-!
# The route plan (`connect/route_planner`, `diagnostics/ai_advisor`)

A plan says how long a direct connection is tried, in which order its candidates are dialed, and
how many connections a transfer opens. Rules make it from a snapshot of the network; a plan that
a language model suggests is checked field by field (`validateAiRoutePlan`) and merged into it
(`mergeAiRoutePlan`). Times are in milliseconds.

Of the number of connections: the rules hand on what they were given, and whatever a suggestion
says, a merged plan has that or something from 1 to 32.

A suggestion comes from outside and is treated as such: each field is looked at by itself, with
a default for what is missing or of another type and a range for what is a number. The rules are
the source's, in its order, since later ones overwrite what earlier ones have set. Arithmetic is
exact here; where the counts of the profile can make an `int` overflow is the subject of
`Kiko.Connect.CandidateScoring`.
-/

set_option autoImplicit false

namespace Kiko
namespace RoutePlanner

open Json
open Settings (NetworkProfileEntry)

inductive NatType
  | open
  | behindNat
  | unknown
  deriving DecidableEq

inductive StunNatClass
  | unknown
  | open
  | cone
  | symmetric
  deriving DecidableEq

structure StunProbeResult where
  ok : Bool := false
  natClass : StunNatClass := .unknown

/-- What the rules read of `ConnectivitySnapshot`. -/
structure ConnectivitySnapshot where
  selfNat : NatType := .unknown
  peerNat : NatType := .unknown
  stunNat : StunNatClass := .unknown
  vpnDetected : Bool := false
  lanDiscoveredCount : Nat := 0
  noDirectConfig : Bool := false
  onlyLocal : Bool := false
  profile : NetworkProfileEntry := {}
  selfGlobalIpv6Count : Nat := 0
  peerGlobalIpv6Count : Nat := 0

structure DirectCandidateScoreHints where
  vpnDetected : Bool := false
  profileLastPath : String := ""
  profileDirectCandidateKind : String := ""
  profileCandidateFailuresByKind : List (String × Int) := []
  deriving DecidableEq

structure RoutePlan where
  skipDirect : Bool := false
  udpPunchEnabled : Bool := false
  directTimeout : Int := 2500
  directConnect : Int := 450
  samePortTimeout : Int := 500
  samePortConnect : Int := 160
  connections : Int := 4
  directCandidateOrder : List String := []
  relayOrder : List String := []
  candidateScoreHints : DirectCandidateScoreHints := {}
  reason : String := ""
  deriving DecidableEq

/-! ## The rules

Each rule is a function from plan to plan with its own condition, and a plan is made by their
composition. -/

def kRelayStandbyDirectWindow : Int := 500

def kRelayStandbyConnectWindow : Int := 220

def isDirectCandidateOrderKind (kind : String) : Bool :=
  kind ∈ ["manual", "discovered", "lan", "listen", "ipv6_global", "public"]

def routeReasonAllowsProfileShortening (plan : RoutePlan) : Bool :=
  !plan.skipDirect &&
    plan.reason ∈ ["default", "stun_cone_direct_probe", "ipv6_global_direct"]

def failureCountForKind (snapshot : ConnectivitySnapshot) (kind : String) : Int :=
  (snapshot.profile.candidateFailuresByKind.lookup kind).getD 0

def normalizedDirectKind (kind : String) : String :=
  if kind = "public-same-port" then "public"
  else if isDirectCandidateOrderKind kind then kind else ""

def pushUniqueKind (kinds : List String) (kind : String) : List String :=
  if kind = "" ∨ kind ∈ kinds then kinds else kinds ++ [kind]

def prependCandidateOrder (plan : RoutePlan) (preferred : List String) : RoutePlan :=
  { plan with
    directCandidateOrder := (preferred ++ plan.directCandidateOrder).foldl pushUniqueKind [] }

def preferLocalBeforePublic (plan : RoutePlan) : RoutePlan :=
  prependCandidateOrder plan ["lan", "listen", "manual", "discovered", "ipv6_global", "public"]

def preferGlobalIpv6 (plan : RoutePlan) : RoutePlan :=
  prependCandidateOrder plan ["manual", "discovered", "lan", "listen", "ipv6_global", "public"]

def fillCandidateScoreHints (plan : RoutePlan) (snapshot : ConnectivitySnapshot) : RoutePlan :=
  { plan with
    candidateScoreHints :=
      { vpnDetected := snapshot.vpnDetected
        profileLastPath := snapshot.profile.lastPath
        profileDirectCandidateKind := snapshot.profile.lastDirectCandidateKind
        profileCandidateFailuresByKind := snapshot.profile.candidateFailuresByKind } }

def applySamePortHistory (plan : RoutePlan) (snapshot : ConnectivitySnapshot) : RoutePlan :=
  if plan.skipDirect then plan
  else if 0 < snapshot.profile.samePortSuccesses ∧ snapshot.profile.samePortFailureStreak = 0 then
    { plan with
      samePortTimeout := max plan.samePortTimeout 650
      samePortConnect := max plan.samePortConnect 180 }
  else if 4 ≤ snapshot.profile.samePortFailureStreak then
    { plan with samePortTimeout := 180, samePortConnect := 100 }
  else plan

/-- What two failures or more of one kind of candidate do to a plan. -/
def shortenForFailures (failures : Int) (reason : String) (plan : RoutePlan) : RoutePlan :=
  if 2 ≤ failures ∧ routeReasonAllowsProfileShortening plan then
    let plan := if 900 < plan.directTimeout then
        { plan with directTimeout := 900, directConnect := 250 }
      else plan
    preferLocalBeforePublic { plan with reason }
  else plan

def applyProfileRouteHistory (plan : RoutePlan) (snapshot : ConnectivitySnapshot) : RoutePlan :=
  let plan := applySamePortHistory plan snapshot
  let plan := if snapshot.profile.lastDirectCandidateKind ≠ "" then
      prependCandidateOrder plan [normalizedDirectKind snapshot.profile.lastDirectCandidateKind]
    else plan
  if snapshot.profile.lastPath = "direct" then plan
  else
    let plan := shortenForFailures (failureCountForKind snapshot "ipv6_global")
      "profile_ipv6_failures_short_direct" plan
    let plan := shortenForFailures
      (failureCountForKind snapshot "public" + failureCountForKind snapshot "public-same-port")
      "profile_public_failures_short_direct" plan
    if snapshot.profile.lastPath = "relay" ∧ 2 ≤ snapshot.profile.pathStreak ∧ plan.skipDirect = false ∧
        plan.reason ∈ ["default", "profile_public_failures_short_direct"] then
      { plan with
        directTimeout := 600, directConnect := 220, reason := "profile_relay_history_short_direct" }
    else plan

/-- What the rules make of a probe that came back. -/
def applyStunProbe (stun : Option StunProbeResult) (plan : RoutePlan) : RoutePlan :=
  match stun with
  | some ⟨true, .symmetric⟩ =>
    { plan with
      directTimeout := kRelayStandbyDirectWindow
      directConnect := kRelayStandbyConnectWindow
      reason := "stun_symmetric_short_direct" }
  | some ⟨true, .open⟩ => { plan with directTimeout := 3500, reason := "stun_open" }
  | _ => plan

def buildBaseRoutePlan (snapshot : ConnectivitySnapshot) (stun : Option StunProbeResult)
    (forceNoDirect : Bool) (defaultConnections : Int) : RoutePlan :=
  let plan := fillCandidateScoreHints
    { connections := defaultConnections, reason := "default" } snapshot
  if forceNoDirect || snapshot.noDirectConfig then
    { plan with skipDirect := true, directTimeout := 0, reason := "no_direct" }
  else
    let plan := if snapshot.onlyLocal then { plan with reason := "only_local" } else plan
    let plan := if snapshot.vpnDetected ∧ 0 < snapshot.lanDiscoveredCount then
        { plan with directTimeout := 1000, directConnect := 250, reason := "vpn_lan_short_direct" }
      else plan
    let plan := applyStunProbe stun plan
    let bothGlobalIpv6 := 0 < snapshot.selfGlobalIpv6Count && 0 < snapshot.peerGlobalIpv6Count
    let plan := if bothGlobalIpv6 then
        preferGlobalIpv6
          { plan with directTimeout := 3500, directConnect := 450, reason := "ipv6_global_direct" }
      else plan
    let plan := if !bothGlobalIpv6 && snapshot.selfNat = .behindNat && snapshot.peerNat = .behindNat then
        { plan with
          directTimeout := min plan.directTimeout kRelayStandbyDirectWindow
          directConnect := kRelayStandbyConnectWindow
          reason := if plan.reason = "default" then "double_nat_short_punch" else plan.reason }
      else plan
    -- `skip_direct` is not set on this way
    let nat := match stun with
      | some ⟨true, natClass⟩ => natClass
      | _ => snapshot.stunNat
    if nat = .cone ∧ plan.reason = "default" then { plan with reason := "stun_cone_direct_probe" }
    else plan

def buildRoutePlan (noDirect : Bool) (snapshot : ConnectivitySnapshot)
    (stun : Option StunProbeResult) (connections : Int) : RoutePlan :=
  applyProfileRouteHistory (buildBaseRoutePlan snapshot stun noDirect connections) snapshot

/-! ## A plan that was suggested

Only the fields that the suggestion has are merged, and where only connectivity may be changed,
not the number of connections. -/

/-- `j.contains(key)` and the value there. -/
def member (j : Value) (key : String) : Option Value :=
  match j with
  | .object fields => fields.lookup key
  | _ => none

/-- `j[key].get<std::int64_t>()` of a field that is an integer; one of 64 bits without a sign is
    cast. -/
def integerMember (j : Value) (key : String) : Option Int :=
  match member j key with
  | some (.number n) => some (Int64.ofInt n).toInt
  | _ => none

def clamp (n low high : Int) : Int := if n < low then low else if high < n then high else n

def booleanMember (j : Value) (key : String) : Option Bool :=
  match member j key with
  | some (.bool b) => some b
  | _ => none

/-- The strings of an array. -/
def stringItems (j : Value) (key : String) : List String :=
  match member j key with
  | some (.array items) => items.filterMap fun item =>
    match item with
    | .string s => some s
    | _ => none
  | _ => []

def validRelayKind (kind : String) : Bool := kind ∈ ["embedded", "lan", "external"]

def validateAiRoutePlan (j : Value) : RoutePlan :=
  let plan : RoutePlan := {}
  { plan with
    skipDirect := (booleanMember j "skip_direct").getD plan.skipDirect
    udpPunchEnabled := (booleanMember j "udp_punch_enabled").getD plan.udpPunchEnabled
    directTimeout := ((integerMember j "direct_timeout_ms").map (clamp · 0 10000)).getD plan.directTimeout
    directConnect := ((integerMember j "direct_connect_ms").map (clamp · 0 5000)).getD plan.directConnect
    connections := ((integerMember j "connections").map (clamp · 1 32)).getD plan.connections
    directCandidateOrder := (stringItems j "direct_candidate_order").foldl
      (fun order kind =>
        if isDirectCandidateOrderKind kind ∧ kind ∉ order then order ++ [kind] else order) []
    relayOrder := (stringItems j "relay_order").filter validRelayKind
    reason := match member j "reason" with
      | some (.string reason) => if reason.utf8ByteSize ≤ 64 then reason else plan.reason
      | _ => plan.reason }

/-- `!raw_keys || raw_keys->contains(key)` -/
def given (rawKeys : Option Value) (key : String) : Bool :=
  match rawKeys with
  | none => true
  | some j => (member j key).isSome

def mergeAiRoutePlan (rules aiPlan : RoutePlan) (rawKeys : Option Value) : RoutePlan :=
  let merged := rules
  let merged := if given rawKeys "direct_timeout_ms" ∧ 0 < aiPlan.directTimeout then
      { merged with directTimeout := aiPlan.directTimeout }
    else merged
  let merged := if !merged.skipDirect ∧ aiPlan.skipDirect ∧ 500 < merged.directTimeout then
      { merged with directTimeout := 500 }
    else merged
  let merged := if given rawKeys "direct_connect_ms" ∧ 0 < aiPlan.directConnect then
      { merged with directConnect := aiPlan.directConnect }
    else merged
  let merged := if given rawKeys "connections" ∧ 1 ≤ aiPlan.connections then
      { merged with connections := aiPlan.connections }
    else merged
  let merged := if given rawKeys "direct_candidate_order" then
      { merged with directCandidateOrder := aiPlan.directCandidateOrder }
    else merged
  let merged := if given rawKeys "relay_order" then { merged with relayOrder := aiPlan.relayOrder }
    else merged
  if aiPlan.reason ≠ "" then { merged with reason := "ai:" ++ aiPlan.reason } else merged

/-- What `resolve_route_plan` is told beside the snapshot. -/
structure AiRouteOptions where
  aiRoute : Bool
  planOnly : Bool
  connectivityOnly : Bool

/-- The reply is the JSON value that the advisor answered with, when it is configured and has
    answered with one. -/
def resolveRoutePlan (noDirect : Bool) (snapshot : ConnectivitySnapshot)
    (stun : Option StunProbeResult) (connections : Int) (options : AiRouteOptions)
    (reply : Option Value) : RoutePlan :=
  let plan := buildRoutePlan noDirect snapshot stun connections
  if !options.aiRoute && !options.planOnly then plan
  else
    match reply with
    | none => plan
    | some raw =>
      if options.planOnly then plan
      else
        let merged := mergeAiRoutePlan plan (validateAiRoutePlan raw) (some raw)
        if options.connectivityOnly then { merged with connections := plan.connections } else merged

def mergeRoutePlanHint (rules hint : RoutePlan) : RoutePlan := mergeAiRoutePlan rules hint none

/-! ## The number of connections

A lemma for each rule that says the rule leaves the number alone, and one for the merge that
says where it does not. -/

section Connections

@[simp] theorem prependCandidateOrder_connections (plan : RoutePlan) (preferred : List String) :
    (prependCandidateOrder plan preferred).connections = plan.connections := rfl

theorem applySamePortHistory_connections (plan : RoutePlan) (snapshot : ConnectivitySnapshot) :
    (applySamePortHistory plan snapshot).connections = plan.connections := by
  simp only [applySamePortHistory, apply_ite RoutePlan.connections, ite_self]

theorem shortenForFailures_connections (failures : Int) (reason : String) (plan : RoutePlan) :
    (shortenForFailures failures reason plan).connections = plan.connections := by
  simp only [shortenForFailures, preferLocalBeforePublic, prependCandidateOrder_connections,
    apply_ite RoutePlan.connections, ite_self]

theorem applyProfileRouteHistory_connections (plan : RoutePlan) (snapshot : ConnectivitySnapshot) :
    (applyProfileRouteHistory plan snapshot).connections = plan.connections := by
  simp only [applyProfileRouteHistory, apply_ite RoutePlan.connections,
    shortenForFailures_connections, prependCandidateOrder_connections,
    applySamePortHistory_connections, ite_self]

theorem buildBaseRoutePlan_connections (snapshot : ConnectivitySnapshot)
    (stun : Option StunProbeResult) (forceNoDirect : Bool) (connections : Int) :
    (buildBaseRoutePlan snapshot stun forceNoDirect connections).connections = connections := by
  have hstun : ∀ plan, (applyStunProbe stun plan).connections = plan.connections := by
    intro plan
    unfold applyStunProbe
    split <;> rfl
  unfold buildBaseRoutePlan
  simp only [apply_ite RoutePlan.connections, fillCandidateScoreHints, preferGlobalIpv6,
    prependCandidateOrder_connections, hstun, ite_self]

theorem buildRoutePlan_connections (noDirect : Bool) (snapshot : ConnectivitySnapshot)
    (stun : Option StunProbeResult) (connections : Int) :
    (buildRoutePlan noDirect snapshot stun connections).connections = connections := by
  rw [buildRoutePlan, applyProfileRouteHistory_connections, buildBaseRoutePlan_connections]

theorem clamp_range {n low high : Int} (h : low ≤ high) :
    low ≤ clamp n low high ∧ clamp n low high ≤ high := by
  unfold clamp
  split
  · exact ⟨le_refl _, h⟩
  · split
    · exact ⟨h, le_refl _⟩
    · exact ⟨not_lt.mp ‹_›, not_lt.mp ‹_›⟩

/-- A suggestion that names no number has the default. -/
theorem validateAiRoutePlan_connections (j : Value) :
    1 ≤ (validateAiRoutePlan j).connections ∧ (validateAiRoutePlan j).connections ≤ 32 := by
  have hvalue : (validateAiRoutePlan j).connections =
      ((integerMember j "connections").map (clamp · 1 32)).getD 4 := rfl
  rw [hvalue]
  cases integerMember j "connections" with
  | none => exact ⟨by decide, by decide⟩
  | some n => exact clamp_range (by decide)

theorem mergeAiRoutePlan_connections (rules aiPlan : RoutePlan) (rawKeys : Option Value) :
    (mergeAiRoutePlan rules aiPlan rawKeys).connections =
      if given rawKeys "connections" ∧ 1 ≤ aiPlan.connections then aiPlan.connections
      else rules.connections := by
  simp only [mergeAiRoutePlan, apply_ite RoutePlan.connections, ite_self]

/-- Without a reply and where only connectivity may be changed, the number is the one given;
    otherwise it is that or one from 1 to 32. -/
theorem resolveRoutePlan_connections (noDirect : Bool) (snapshot : ConnectivitySnapshot)
    (stun : Option StunProbeResult) (connections : Int) (options : AiRouteOptions)
    (reply : Option Value) :
    (resolveRoutePlan noDirect snapshot stun connections options reply).connections = connections ∨
      options.connectivityOnly = false ∧
        1 ≤ (resolveRoutePlan noDirect snapshot stun connections options reply).connections ∧
        (resolveRoutePlan noDirect snapshot stun connections options reply).connections ≤ 32 := by
  have hrules := buildRoutePlan_connections noDirect snapshot stun connections
  unfold resolveRoutePlan
  simp only
  by_cases hoff : (!options.aiRoute && !options.planOnly) = true
  · rw [if_pos hoff]
    exact .inl hrules
  rw [if_neg hoff]
  cases reply with
  | none => exact .inl hrules
  | some raw =>
    simp only
    by_cases hplan : options.planOnly = true
    · rw [if_pos hplan]
      exact .inl hrules
    rw [if_neg hplan]
    by_cases hconnectivity : options.connectivityOnly = true
    · rw [if_pos hconnectivity]
      exact .inl hrules
    rw [if_neg hconnectivity, mergeAiRoutePlan_connections]
    split
    · exact .inr ⟨by simpa using hconnectivity, validateAiRoutePlan_connections raw⟩
    · exact .inl hrules

/-- The plan of the hint has the last word, when it has a number. -/
theorem mergeRoutePlanHint_connections {rules hint : RoutePlan} (h : 1 ≤ hint.connections) :
    (mergeRoutePlanHint rules hint).connections = hint.connections := by
  rw [mergeRoutePlanHint, mergeAiRoutePlan_connections]
  exact if_pos ⟨rfl, h⟩

end Connections

end RoutePlanner
end Kiko
