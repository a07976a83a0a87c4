import Kiko.Connect.RoutePlanner
import Kiko.Lib.CheckedInt
import Kiko.Settings.ProfileCounts

/-!
# Scores from the network's history (`connect/route_planner`)

Before they are dialed the direct candidates are scored: a kind the plan lists comes first, one
that worked the last time goes up, one that failed before goes down, by five for each failure and
by 30 at most. The counts of failures come from the profile file, where any number up to
`std::numeric_limits<int>::max()` can stand.

The penalty is `std::min(30, count * 5)`, and the product is taken first: it is an `int` for
counts up to 429496729 only. The public counts are added as `int`s as well. Everything here is in
checked arithmetic, where a sum that is no `int` has no value, and `history_sound_iff` says for
which inputs all of it has one.

Undefined behaviour is modelled as no result at all and never as a value that wraps: a compiler
may do what it likes with a sum that does not fit, so nothing may be concluded from what one
compiler does. The scoring is a sequence of conditional additions, and the condition for it to be
defined is assembled the same way, one guard for each step (`Adjusts`). What comes out is exact,
because each guard is.
-/

set_option autoImplicit false

namespace Kiko
namespace RoutePlanner

open CheckedInt Json Settings

/-! ## Candidates -/

structure DirectCandidate where
  endpoint : Endpoint
  kind : String := "unknown"
  priority : CInt := ⟨0, by decide⟩
  connectTimeout : Int := 0
  reasons : List String := []

def addDirectCandidateReason (candidate : DirectCandidate) (reason : String) : DirectCandidate :=
  if reason = "" ∨ reason ∈ candidate.reasons then candidate
  else { candidate with reasons := candidate.reasons ++ [reason] }

/-- `candidate.priority += amount`, and the reason for it. -/
def adjust (candidate : DirectCandidate) (amount : Int) (reason : String) :
    Option DirectCandidate :=
  (check (candidate.priority.val + amount)).bind fun priority =>
    some (addDirectCandidateReason { candidate with priority } reason)

/-- `static_cast<int>` of a `std::size_t`. -/
def castInt (n : Nat) : Int := (n : Int).bmod (2 ^ 32)

/-- The lambda `rank`: the place of the kind, or the number of kinds. -/
def rank (kindOrder : List String) (kind : String) : Int :=
  castInt (kindOrder.findIdx (· == kind))

/-! ## `apply_direct_candidate_scoring` -/

def scoreRouteOrder (kindOrder : List String) (candidate : DirectCandidate) :
    Option DirectCandidate :=
  if kindOrder ≠ [] then
    let r := rank kindOrder candidate.kind
    if r < castInt kindOrder.length then
      (check (r * 100)).bind fun product =>
      (check (1000 - product.val)).bind fun bonus =>
        adjust candidate bonus.val "route_order_hint"
    else some candidate
  else some candidate

def scoreSuccess (hints : DirectCandidateScoreHints) (candidate : DirectCandidate) :
    Option DirectCandidate :=
  if hints.profileDirectCandidateKind ≠ "" ∧ hints.profileLastPath = "direct" ∧
      candidate.kind = hints.profileDirectCandidateKind then
    adjust candidate 25 "profile_direct_success"
  else some candidate

/-- `std::min(30, failure->second * 5)`. -/
def penalty (failures : Int) : Option Int :=
  (check (failures * 5)).map fun product => min 30 product.val

def scoreFailures (hints : DirectCandidateScoreHints) (candidate : DirectCandidate) :
    Option DirectCandidate :=
  match hints.profileCandidateFailuresByKind.lookup candidate.kind with
  | some failures =>
    (penalty failures).bind fun penalty => adjust candidate (-penalty) "profile_previous_failure"
  | none => some candidate

def scoreVpn (hints : DirectCandidateScoreHints) (candidate : DirectCandidate) :
    Option DirectCandidate :=
  if hints.vpnDetected ∧ (candidate.kind = "discovered" ∨ candidate.kind = "lan") then
    adjust candidate (-10) "vpn_lan_caution"
  else some candidate

/-- The body of the loop. -/
def scoreCandidate (hints : DirectCandidateScoreHints) (kindOrder : List String)
    (candidate : DirectCandidate) : Option DirectCandidate :=
  (scoreRouteOrder kindOrder candidate).bind fun candidate =>
  (scoreSuccess hints candidate).bind fun candidate =>
  (scoreFailures hints candidate).bind fun candidate =>
    scoreVpn hints candidate

def applyDirectCandidateScoring (candidates : List DirectCandidate)
    (hints : DirectCandidateScoreHints) (kindOrder : List String) : Option (List DirectCandidate) :=
  if candidates = [] then some candidates
  else candidates.mapM (scoreCandidate hints kindOrder)

/-! ## `apply_profile_route_history` -/

/-- The plan when the rule about public failures looks at it. -/
def beforePublicRule (plan : RoutePlan) (snapshot : ConnectivitySnapshot) : RoutePlan :=
  let plan := applySamePortHistory plan snapshot
  let plan := if snapshot.profile.lastDirectCandidateKind ≠ "" then
      prependCandidateOrder plan [normalizedDirectKind snapshot.profile.lastDirectCandidateKind]
    else plan
  shortenForFailures (failureCountForKind snapshot "ipv6_global")
    "profile_ipv6_failures_short_direct" plan

/-- The last rule. -/
def relayHistoryRule (plan : RoutePlan) (snapshot : ConnectivitySnapshot) : RoutePlan :=
  if snapshot.profile.lastPath = "relay" ∧ 2 ≤ snapshot.profile.pathStreak ∧ plan.skipDirect = false ∧
      plan.reason ∈ ["default", "profile_public_failures_short_direct"] then
    { plan with
      directTimeout := 600, directConnect := 220, reason := "profile_relay_history_short_direct" }
  else plan

/-- `apply_profile_route_history`, with the sum of the public failures as an `int`. -/
def applyProfileRouteHistoryInt (plan : RoutePlan) (snapshot : ConnectivitySnapshot) :
    Option RoutePlan :=
  if snapshot.profile.lastPath = "direct" then some (applyProfileRouteHistory plan snapshot)
  else
    (check (failureCountForKind snapshot "public" +
      failureCountForKind snapshot "public-same-port")).bind fun publicFailures =>
        some (relayHistoryRule (shortenForFailures publicFailures.val
          "profile_public_failures_short_direct" (beforePublicRule plan snapshot)) snapshot)

/-! ## What is asked

That the results are defined comes first. Beyond that, a penalty is to be between 0 and 30 and to
grow with the failures, and two public failures are to shorten the window. -/

/-- Up to this many failures the penalty is an `int`, between 0 and 30, and does not go down as
    the failures go up. -/
def PenaltySound (failures : Int) : Prop :=
  ∀ fewer more, 0 ≤ fewer → fewer ≤ more → more ≤ failures →
    ∃ p p', penalty fewer = some p ∧ penalty more = some p' ∧ 0 ≤ p ∧ p ≤ p' ∧ p' ≤ 30

/-- The scoring is defined, and each penalty in it is as it should be. -/
def ScoringSound (candidates : List DirectCandidate) (hints : DirectCandidateScoreHints)
    (kindOrder : List String) : Prop :=
  (applyDirectCandidateScoring candidates hints kindOrder).isSome ∧
  ∀ candidate ∈ candidates, ∀ failures,
    hints.profileCandidateFailuresByKind.lookup candidate.kind = some failures →
      PenaltySound failures

/-- The rules about the history are defined, and two public failures shorten the window where
    the plan's reason lets them. -/
def HistorySound (plan : RoutePlan) (snapshot : ConnectivitySnapshot) : Prop :=
  ∃ plan', applyProfileRouteHistoryInt plan snapshot = some plan' ∧
    (snapshot.profile.lastPath ≠ "direct" →
      2 ≤ failureCountForKind snapshot "public" + failureCountForKind snapshot "public-same-port" →
      routeReasonAllowsProfileShortening (beforePublicRule plan snapshot) →
      plan'.directTimeout ≤ 900)

/-! ## The condition

On the counts of the profile and on the priorities, with the bonus of each kind taken into
account: a priority near the end of its type has less room than one near zero. -/

/-- The kind is one the order lists: the test before the bonus. -/
def Ranked (kindOrder : List String) (kind : String) : Prop :=
  kindOrder ≠ [] ∧ rank kindOrder kind < castInt kindOrder.length

instance (kindOrder : List String) (kind : String) : Decidable (Ranked kindOrder kind) :=
  inferInstanceAs (Decidable (_ ∧ _))

def routeBonus (kindOrder : List String) (kind : String) : Int :=
  if Ranked kindOrder kind then 1000 - rank kindOrder kind * 100 else 0

def successBonus (hints : DirectCandidateScoreHints) (kind : String) : Int :=
  if hints.profileDirectCandidateKind ≠ "" ∧ hints.profileLastPath = "direct" ∧
    kind = hints.profileDirectCandidateKind then 25 else 0

/-- The failures recorded for a kind; none where the profile does not name it. -/
def failuresOf (hints : DirectCandidateScoreHints) (kind : String) : Int :=
  (hints.profileCandidateFailuresByKind.lookup kind).getD 0

def vpnCaution (hints : DirectCandidateScoreHints) (kind : String) : Int :=
  if hints.vpnDetected ∧ (kind = "discovered" ∨ kind = "lan") then 10 else 0

/-- A candidate's kind and its priority leave room for the scores. -/
structure Room (hints : DirectCandidateScoreHints) (kindOrder : List String)
    (candidate : DirectCandidate) : Prop where
  /-- five times the failures are an `int` -/
  failures : 5 * failuresOf hints candidate.kind ≤ intMax
  /-- and so is a hundred times the rank, and what it leaves of 1000 -/
  rank : Ranked kindOrder candidate.kind →
    -21474826 ≤ rank kindOrder candidate.kind ∧ rank kindOrder candidate.kind ≤ 21474836
  above : candidate.priority.val ≤
    intMax - routeBonus kindOrder candidate.kind - successBonus hints candidate.kind
  below : -2147483648 - routeBonus kindOrder candidate.kind ≤ candidate.priority.val
  belowPenalty : -2147483648 - routeBonus kindOrder candidate.kind - successBonus hints candidate.kind +
      min 30 (5 * failuresOf hints candidate.kind) + vpnCaution hints candidate.kind ≤
    candidate.priority.val

/-- The counts and the priorities for which nothing overflows. -/
structure HistoryFits (snapshot : ConnectivitySnapshot) (hints : DirectCandidateScoreHints)
    (candidates : List DirectCandidate) (kindOrder : List String) : Prop where
  publicFailures : snapshot.profile.lastPath = "direct" ∨
    failureCountForKind snapshot "public" + failureCountForKind snapshot "public-same-port" ≤ intMax
  candidate : ∀ candidate ∈ candidates, Room hints kindOrder candidate

/-! ## The steps of the scoring

Each step moves the priority by an amount, adds a reason, and is defined where its guard holds.
They compose, and a step that is skipped is the step by zero. -/

section Scoring

variable {hints : DirectCandidateScoreHints} {kindOrder : List String}
  {candidate candidate' : DirectCandidate} {amount : Int} {reason : String}

/-- What a step may change: the priority, by `amount`, and the reasons. -/
structure Moved (candidate candidate' : DirectCandidate) (amount : Int) : Prop where
  kind : candidate'.kind = candidate.kind
  priority : candidate'.priority.val = candidate.priority.val + amount

theorem Moved.refl (candidate : DirectCandidate) : Moved candidate candidate 0 :=
  ⟨rfl, (Int.add_zero _).symm⟩

theorem moved_addReason : (addDirectCandidateReason candidate reason).kind = candidate.kind ∧
    (addDirectCandidateReason candidate reason).priority = candidate.priority := by
  unfold addDirectCandidateReason
  split
  · exact ⟨rfl, rfl⟩
  · exact ⟨rfl, rfl⟩

/-- A step of the scoring: it is defined where `guard` holds of the kind and the priority, and the
    priority then goes up by `amount`. -/
structure Adjusts (step : DirectCandidate → Option DirectCandidate) (guard : String → Int → Prop)
    (amount : String → Int) : Prop where
  defined : ∀ candidate, (step candidate).isSome ↔ guard candidate.kind candidate.priority.val
  moved : ∀ candidate candidate', step candidate = some candidate' →
    Moved candidate candidate' (amount candidate.kind)

/-- One step and the next. -/
theorem Adjusts.bind {step step' : DirectCandidate → Option DirectCandidate}
    {guard guard' : String → Int → Prop} {amount amount' : String → Int}
    (h : Adjusts step guard amount) (h' : Adjusts step' guard' amount') :
    Adjusts (fun candidate => (step candidate).bind step')
      (fun kind p => guard kind p ∧ guard' kind (p + amount kind))
      (fun kind => amount kind + amount' kind) := by
  constructor
  · intro candidate
    rw [bind_isSome, ← h.defined]
    constructor
    · rintro ⟨next, hnext, hrest⟩
      have hmoved := h.moved candidate next hnext
      rw [h'.defined, hmoved.kind, hmoved.priority] at hrest
      exact ⟨Option.isSome_iff_exists.mpr ⟨next, hnext⟩, hrest⟩
    · rintro ⟨hstep, hrest⟩
      obtain ⟨next, hnext⟩ := Option.isSome_iff_exists.mp hstep
      have hmoved := h.moved candidate next hnext
      refine ⟨next, hnext, ?_⟩
      rw [h'.defined, hmoved.kind, hmoved.priority]
      exact hrest
  · intro candidate candidate' hboth
    obtain ⟨next, hnext, hrest⟩ := Option.bind_eq_some_iff.mp hboth
    have hmoved := h.moved candidate next hnext
    have hmoved' := h'.moved next candidate' hrest
    refine ⟨hmoved'.kind.trans hmoved.kind, ?_⟩
    rw [hmoved'.priority, hmoved.priority, hmoved.kind, Int.add_assoc]

theorem adjust_isSome :
    (adjust candidate amount reason).isSome ↔ Fits (candidate.priority.val + amount) := by
  unfold adjust
  rw [check_bind_isSome]
  exact ⟨fun ⟨h, _⟩ => h, fun h => ⟨h, rfl⟩⟩

theorem moved_of_adjust (h : adjust candidate amount reason = some candidate') :
    Moved candidate candidate' amount := by
  obtain ⟨priority, hpriority, hsome⟩ := Option.bind_eq_some_iff.mp h
  obtain rfl := Option.some.inj hsome
  refine ⟨moved_addReason.1, ?_⟩
  rw [moved_addReason.2]
  exact val_of_check hpriority

theorem fits_add_zero (candidate : DirectCandidate) : Fits (candidate.priority.val + 0) := by
  rw [Int.add_zero]
  exact candidate.priority.property

/-- A score that only some kinds get. -/
theorem adjusts_ite (taken : String → Prop) [DecidablePred taken] (amount : Int) (reason : String) :
    Adjusts (fun candidate => if taken candidate.kind then adjust candidate amount reason
        else some candidate)
      (fun kind p => Fits (p + if taken kind then amount else 0))
      (fun kind => if taken kind then amount else 0) := by
  constructor
  · intro candidate
    by_cases htaken : taken candidate.kind
    · simp only [if_pos htaken]
      exact adjust_isSome
    · simp only [if_neg htaken]
      exact iff_of_true rfl (fits_add_zero candidate)
  · intro candidate candidate' hstep
    by_cases htaken : taken candidate.kind
    · simp only [if_pos htaken] at hstep ⊢
      exact moved_of_adjust hstep
    · simp only [if_neg htaken] at hstep ⊢
      obtain rfl := Option.some.inj hstep
      exact .refl _

theorem adjusts_success (hints : DirectCandidateScoreHints) :
    Adjusts (scoreSuccess hints) (fun kind p => Fits (p + successBonus hints kind))
      (successBonus hints) :=
  adjusts_ite (fun kind => hints.profileDirectCandidateKind ≠ "" ∧ hints.profileLastPath = "direct" ∧
    kind = hints.profileDirectCandidateKind) 25 _

theorem adjusts_vpn (hints : DirectCandidateScoreHints) :
    Adjusts (scoreVpn hints) (fun kind p => Fits (p + -vpnCaution hints kind))
      (fun kind => -vpnCaution hints kind) := by
  have hamount : ∀ kind, (if hints.vpnDetected ∧ (kind = "discovered" ∨ kind = "lan") then (-10 : Int)
      else 0) = -vpnCaution hints kind := by
    intro kind
    unfold vpnCaution
    split <;> rfl
  have h := adjusts_ite (fun kind => hints.vpnDetected ∧ (kind = "discovered" ∨ kind = "lan")) (-10)
    "vpn_lan_caution"
  simp only [hamount] at h
  exact h

/-- The product and the difference of the route bonus are `int`s. -/
def RankFits (kindOrder : List String) (kind : String) : Prop :=
  Ranked kindOrder kind →
    Fits (rank kindOrder kind * 100) ∧ Fits (1000 - rank kindOrder kind * 100)

theorem adjusts_routeOrder (kindOrder : List String) :
    Adjusts (scoreRouteOrder kindOrder)
      (fun kind p => RankFits kindOrder kind ∧ Fits (p + routeBonus kindOrder kind))
      (routeBonus kindOrder) := by
  have hstep : ∀ candidate, scoreRouteOrder kindOrder candidate =
      if Ranked kindOrder candidate.kind then
        (check (rank kindOrder candidate.kind * 100)).bind fun product =>
        (check (1000 - product.val)).bind fun bonus =>
          adjust candidate bonus.val "route_order_hint"
      else some candidate := by
    intro candidate
    unfold scoreRouteOrder
    by_cases horder : kindOrder ≠ []
    · rw [if_pos horder]
      by_cases hlt : rank kindOrder candidate.kind < castInt kindOrder.length
      · exact (if_pos hlt).trans (if_pos ⟨horder, hlt⟩).symm
      · exact (if_neg hlt).trans (if_neg fun h => hlt h.2).symm
    · exact (if_neg horder).trans (if_neg fun h => horder h.1).symm
  constructor
  · intro candidate
    rw [hstep]
    unfold RankFits routeBonus
    by_cases hranked : Ranked kindOrder candidate.kind
    · simp only [if_pos hranked, check_bind_isSome, adjust_isSome]
      constructor
      · rintro ⟨hproduct, hbonus, hfits⟩
        exact ⟨fun _ => ⟨hproduct, hbonus⟩, hfits⟩
      · rintro ⟨hrank, hfits⟩
        exact ⟨(hrank hranked).1, (hrank hranked).2, hfits⟩
    · simp only [if_neg hranked]
      exact iff_of_true rfl ⟨fun h => absurd h hranked, fits_add_zero candidate⟩
  · intro candidate candidate' h
    rw [hstep] at h
    unfold routeBonus
    by_cases hranked : Ranked kindOrder candidate.kind
    · rw [if_pos hranked] at h ⊢
      obtain ⟨product, hproduct, h⟩ := Option.bind_eq_some_iff.mp h
      obtain ⟨bonus, hbonus, h⟩ := Option.bind_eq_some_iff.mp h
      rw [← val_of_check hproduct, ← val_of_check hbonus]
      exact moved_of_adjust h
    · rw [if_neg hranked] at h ⊢
      obtain rfl := Option.some.inj h
      exact .refl _

theorem penalty_of_fits {failures : Int} (h : Fits (failures * 5)) :
    penalty failures = some (min 30 (5 * failures)) := by
  unfold penalty
  rw [check_of_fits h, Int.mul_comm 5]
  rfl

theorem penalty_of_not_fits {failures : Int} (h : ¬ Fits (failures * 5)) :
    penalty failures = none := by
  unfold penalty
  rw [check_of_not_fits h]
  rfl

theorem adjusts_failures (hints : DirectCandidateScoreHints) :
    Adjusts (scoreFailures hints)
      (fun kind p => Fits (failuresOf hints kind * 5) ∧
        Fits (p + -min 30 (5 * failuresOf hints kind)))
      (fun kind => -min 30 (5 * failuresOf hints kind)) := by
  constructor
  · intro candidate
    unfold scoreFailures failuresOf
    cases hints.profileCandidateFailuresByKind.lookup candidate.kind with
    | none => exact iff_of_true rfl ⟨by decide, fits_add_zero candidate⟩
    | some failures =>
      show ((penalty failures).bind _).isSome ↔ Fits (failures * 5) ∧
        Fits (candidate.priority.val + -min 30 (5 * failures))
      by_cases hproduct : Fits (failures * 5)
      · rw [penalty_of_fits hproduct, Option.bind_some, adjust_isSome]
        exact (and_iff_right hproduct).symm
      · rw [penalty_of_not_fits hproduct]
        exact iff_of_false (fun h => nomatch h) (fun h => hproduct h.1)
  · intro candidate candidate' h
    unfold scoreFailures at h
    unfold failuresOf
    cases hlookup : hints.profileCandidateFailuresByKind.lookup candidate.kind with
    | none =>
      rw [hlookup] at h
      obtain rfl := Option.some.inj h
      exact .refl _
    | some failures =>
      rw [hlookup] at h
      obtain ⟨amount, hpenalty, h⟩ := Option.bind_eq_some_iff.mp h
      show Moved candidate candidate' (-min 30 (5 * failures))
      by_cases hproduct : Fits (failures * 5)
      · rw [penalty_of_fits hproduct] at hpenalty
        obtain rfl := Option.some.inj hpenalty
        exact moved_of_adjust h
      · rw [penalty_of_not_fits hproduct] at hpenalty
        cases hpenalty

theorem rankFits_iff {kind : String} : RankFits kindOrder kind ↔
    (Ranked kindOrder kind →
      -21474826 ≤ rank kindOrder kind ∧ rank kindOrder kind ≤ 21474836) := by
  unfold RankFits Fits
  exact imp_congr_right fun _ => by omega

theorem successBonus_nonneg (kind : String) : 0 ≤ successBonus hints kind := by
  unfold successBonus
  split <;> decide

theorem vpnCaution_nonneg (kind : String) : 0 ≤ vpnCaution hints kind := by
  unfold vpnCaution
  split <;> decide

/-- **The scores of a candidate.** Each running priority has to be an `int`, and the room that its
kind and its priority leave says whether they all are. -/
theorem scoreCandidate_isSome (hfailures : 0 ≤ failuresOf hints candidate.kind) :
    (scoreCandidate hints kindOrder candidate).isSome ↔ Room hints kindOrder candidate := by
  have hsteps := ((adjusts_routeOrder kindOrder).bind ((adjusts_success hints).bind
    ((adjusts_failures hints).bind (adjusts_vpn hints)))).defined candidate
  have hsuccess := @successBonus_nonneg hints candidate.kind
  have hcaution := @vpnCaution_nonneg hints candidate.kind
  refine hsteps.trans ?_
  rw [rankFits_iff]
  unfold Fits
  constructor
  · rintro ⟨⟨hrank, hroute⟩, hafter, ⟨hproduct, hpenalty⟩, hlast⟩
    constructor
    · unfold intMax
      omega
    · exact hrank
    · unfold intMax
      omega
    · omega
    · omega
  · rintro ⟨hproduct, hrank, habove, hbelow, hpenalty⟩
    unfold intMax at hproduct habove
    refine ⟨⟨hrank, ?_⟩, ?_, ⟨?_, ?_⟩, ?_⟩ <;> omega

theorem applyDirectCandidateScoring_isSome {candidates : List DirectCandidate} :
    (applyDirectCandidateScoring candidates hints kindOrder).isSome ↔
      ∀ candidate ∈ candidates, (scoreCandidate hints kindOrder candidate).isSome := by
  unfold applyDirectCandidateScoring
  split
  next hnil =>
    rw [hnil]
    exact iff_of_true rfl fun _ h => absurd h List.not_mem_nil
  · exact mapM_isSome

/-! ## Penalties -/

theorem penaltySound_iff {failures : Int} (hfailures : 0 ≤ failures) :
    PenaltySound failures ↔ 5 * failures ≤ intMax := by
  unfold intMax
  constructor
  · intro h
    obtain ⟨p, -, hp, -⟩ := h failures failures hfailures le_rfl le_rfl
    by_contra hover
    have hnot : ¬ Fits (failures * 5) := by
      unfold Fits
      omega
    rw [penalty_of_not_fits hnot] at hp
    cases hp
  · intro h fewer more hfewer hle hmore
    have hfits : ∀ n, 0 ≤ n → n ≤ failures → Fits (n * 5) := by
      intro n hn hn'
      unfold Fits
      omega
    refine ⟨_, _, penalty_of_fits (hfits fewer hfewer (hle.trans hmore)),
      penalty_of_fits (hfits more (hfewer.trans hle) hmore), ?_, ?_, ?_⟩ <;> omega

/-- **When the scoring is sound.** -/
theorem scoringSound_iff {candidates : List DirectCandidate}
    (hcounts : ∀ kind, 0 ≤ failuresOf hints kind) :
    ScoringSound candidates hints kindOrder ↔
      ∀ candidate ∈ candidates, Room hints kindOrder candidate := by
  unfold ScoringSound
  rw [applyDirectCandidateScoring_isSome]
  constructor
  · rintro ⟨hdefined, -⟩ candidate hmem
    exact (scoreCandidate_isSome (hcounts _)).mp (hdefined candidate hmem)
  · intro hroom
    refine ⟨fun candidate hmem => (scoreCandidate_isSome (hcounts _)).mpr (hroom candidate hmem), ?_⟩
    intro candidate hmem failures hlookup
    have hof : failuresOf hints candidate.kind = failures := by
      unfold failuresOf
      rw [hlookup]
      rfl
    have hnonneg := hcounts candidate.kind
    have hfive := (hroom candidate hmem).failures
    rw [hof] at hnonneg hfive
    exact (penaltySound_iff hnonneg).mpr hfive

end Scoring

/-! ## The history -/

section History

variable {plan : RoutePlan} {snapshot : ConnectivitySnapshot}

/-- In checked arithmetic the rules do what they do in exact arithmetic, or nothing. -/
theorem applyProfileRouteHistoryInt_eq (plan : RoutePlan) (snapshot : ConnectivitySnapshot) :
    applyProfileRouteHistoryInt plan snapshot =
      if snapshot.profile.lastPath = "direct" ∨ Fits (failureCountForKind snapshot "public" +
          failureCountForKind snapshot "public-same-port") then
        some (applyProfileRouteHistory plan snapshot)
      else none := by
  unfold applyProfileRouteHistoryInt
  by_cases hdirect : snapshot.profile.lastPath = "direct"
  · rw [if_pos hdirect, if_pos (.inl hdirect)]
  · rw [if_neg hdirect]
    by_cases hfits : Fits (failureCountForKind snapshot "public" +
        failureCountForKind snapshot "public-same-port")
    · rw [check_of_fits hfits, if_pos (.inr hfits)]
      unfold applyProfileRouteHistory
      simp only [if_neg hdirect]
      rfl
    · rw [check_of_not_fits hfits, if_neg fun h => h.elim hdirect hfits]
      rfl

theorem shortenForFailures_directTimeout {failures : Int} (reason : String) (htwo : 2 ≤ failures)
    (hallows : routeReasonAllowsProfileShortening plan) :
    (shortenForFailures failures reason plan).directTimeout ≤ 900 := by
  unfold shortenForFailures
  rw [if_pos ⟨htwo, hallows⟩]
  by_cases hlong : 900 < plan.directTimeout
  · simp only [if_pos hlong]
    exact le_rfl
  · simp only [if_neg hlong]
    exact Int.not_lt.mp hlong

theorem relayHistoryRule_directTimeout (h : plan.directTimeout ≤ 900) :
    (relayHistoryRule plan snapshot).directTimeout ≤ 900 := by
  unfold relayHistoryRule
  split
  · show (600 : Int) ≤ 900
    decide
  · exact h

/-- **When the rules are sound.** -/
theorem historySound_iff (hcounts : ∀ kind, 0 ≤ failureCountForKind snapshot kind) :
    HistorySound plan snapshot ↔ snapshot.profile.lastPath = "direct" ∨
      failureCountForKind snapshot "public" + failureCountForKind snapshot "public-same-port" ≤
        intMax := by
  have hpublic := hcounts "public"
  have hsamePort := hcounts "public-same-port"
  have hfits : Fits (failureCountForKind snapshot "public" +
      failureCountForKind snapshot "public-same-port") ↔ failureCountForKind snapshot "public" +
        failureCountForKind snapshot "public-same-port" ≤ intMax := by
    unfold Fits intMax
    omega
  unfold HistorySound
  constructor
  · rintro ⟨plan', hplan, -⟩
    rw [applyProfileRouteHistoryInt_eq] at hplan
    by_contra hnot
    rw [if_neg fun h => hnot (h.imp_right hfits.mp)] at hplan
    cases hplan
  · intro h
    by_cases hdirect : snapshot.profile.lastPath = "direct"
    · refine ⟨_, if_pos hdirect, ?_⟩
      intro hother
      exact absurd hdirect hother
    · have hsum := hfits.mpr (h.resolve_left hdirect)
      refine ⟨_, (if_neg hdirect).trans (by rw [check_of_fits hsum]; rfl), ?_⟩
      intro _ htwo hallows
      exact relayHistoryRule_directTimeout (shortenForFailures_directTimeout _ htwo hallows)

end History

/-! ## Profiles as they are loaded

`load_profile` gives no negative count and none beyond an `int`, so these need no guard;
everything in between it takes. -/

/-- No count that is loaded is negative or more than an `int`. -/
theorem parseFailuresByKind_range {value : Json.Value} {kind : String} {count : Int}
    (h : (kind, count) ∈ parseFailuresByKind value) : 0 ≤ count ∧ count ≤ intMax := by
  unfold parseFailuresByKind at h
  split at h
  next fields =>
    obtain hmem | hmem := KeyMap.mem_assignAll h
    · obtain ⟨⟨key, v⟩, -, hentry⟩ := List.mem_filterMap.mp hmem
      by_cases hkey : key = ""
      · simp only [if_pos hkey] at hentry
        cases hentry
      · simp only [if_neg hkey] at hentry
        obtain ⟨parsed, hparsed, hcount⟩ := Option.bind_eq_some_iff.mp hentry
        have hnonneg := parseNonnegativeInteger_nonneg hparsed
        -- the count as it is clamped
        have hclamp : 0 ≤ (if intMax < parsed then intMax else parsed) ∧
            (if intMax < parsed then intMax else parsed) ≤ intMax := by
          split
          · exact ⟨by decide, le_rfl⟩
          next hle => exact ⟨hnonneg, Int.not_lt.mp hle⟩
        generalize (if intMax < parsed then intMax else parsed) = clamped at hcount hclamp
        by_cases hpos : 0 < clamped
        · rw [if_pos hpos] at hcount
          cases hcount
          exact hclamp
        · rw [if_neg hpos] at hcount
          cases hcount
    · exact absurd hmem List.not_mem_nil
  · exact absurd h List.not_mem_nil

theorem loadProfile_failures {lib : FileLibrary} {f : ReadFaults} {path fingerprint : String}
    {d : Disk} {entry : NetworkProfileEntry}
    (h : loadProfile lib f path fingerprint d = some entry) (kind : String) :
    0 ≤ (entry.candidateFailuresByKind.lookup kind).getD 0 := by
  unfold loadProfile at h
  split at h
  · obtain ⟨fields, -, rfl⟩ := Option.map_eq_some_iff.mp h
    show 0 ≤ ((((fields.lookup "candidate_failures_by_kind").map parseFailuresByKind).getD []).lookup
      kind).getD 0
    cases hvalue : fields.lookup "candidate_failures_by_kind" with
    | none => exact le_rfl
    | some value =>
      show 0 ≤ ((parseFailuresByKind value).lookup kind).getD 0
      cases hlookup : (parseFailuresByKind value).lookup kind with
      | none => exact le_rfl
      | some count =>
        obtain ⟨before, behind, heq, -⟩ := List.lookup_eq_some_iff.mp hlookup
        have hmem : (kind, count) ∈ parseFailuresByKind value := by
          rw [heq]
          exact List.mem_append_right _ List.mem_cons_self
        exact (parseFailuresByKind_range hmem).1
  · cases h

/-- The hints of a plan made from the snapshot. -/
def scoreHints (snapshot : ConnectivitySnapshot) : DirectCandidateScoreHints :=
  (fillCandidateScoreHints {} snapshot).candidateScoreHints

/-- **When history can be used.** With a profile that `load_profile` gave, the scoring and the
rules about the history are defined and do what they should for exactly the counts, ranks and
priorities of `HistoryFits`. -/
theorem history_sound_iff {lib : FileLibrary} {f : ReadFaults} {path fingerprint : String} {d : Disk}
    {snapshot : ConnectivitySnapshot}
    (hload : loadProfile lib f path fingerprint d = some snapshot.profile) (plan : RoutePlan)
    (candidates : List DirectCandidate) (kindOrder : List String) :
    ScoringSound candidates (scoreHints snapshot) kindOrder ∧ HistorySound plan snapshot ↔
      HistoryFits snapshot (scoreHints snapshot) candidates kindOrder := by
  have hof : ∀ kind, 0 ≤ failuresOf (scoreHints snapshot) kind := loadProfile_failures hload
  have hcounts : ∀ kind, 0 ≤ failureCountForKind snapshot kind := loadProfile_failures hload
  rw [scoringSound_iff hof, historySound_iff hcounts]
  exact ⟨fun ⟨hcandidates, hpublic⟩ => ⟨hpublic, hcandidates⟩,
    fun ⟨hpublic, hcandidates⟩ => ⟨hcandidates, hpublic⟩⟩

/-! ### A profile with many failures -/

/-- The entry of a network in which public candidates never worked. -/
def staleEntry : Fields :=
  [("candidate_failures_by_kind",
    .object [("public", .number 2147483647), ("public-same-port", .number 1)])]

def staleFile : Disk := (sampleProfile [("192.168.1.7", .object staleEntry)]).now

def staleSnapshot : ConnectivitySnapshot := { profile := readEntry staleEntry }

/-- The public candidate of a peer. -/
def publicCandidate : DirectCandidate :=
  { endpoint := ⟨"203.0.113.7", 5000⟩, kind := "public", priority := ⟨20, by decide⟩ }

theorem loadProfile_staleFile :
    loadProfile compactFile {} "profile.json" "192.168.1.7" staleFile = some staleSnapshot.profile :=
  (sampleProfile_holds (plain_of_isPlain _ (by decide))).loadProfile_eq _

theorem history_sound_iff_stale :
    loadProfile compactFile {} "profile.json" "192.168.1.7" staleFile = some staleSnapshot.profile ∧
    (ScoringSound [publicCandidate] (scoreHints staleSnapshot) ["lan"] ∧ HistorySound {} staleSnapshot ↔
      HistoryFits staleSnapshot (scoreHints staleSnapshot) [publicCandidate] ["lan"]) :=
  ⟨loadProfile_staleFile, history_sound_iff loadProfile_staleFile {} [publicCandidate] ["lan"]⟩

/-- Five times the one count is no `int`, and neither is the sum of both. -/
theorem stale_history_overflows :
    loadProfile compactFile {} "profile.json" "192.168.1.7" staleFile = some staleSnapshot.profile ∧
    ¬ ScoringSound [publicCandidate] (scoreHints staleSnapshot) ["lan"] ∧
    ¬ HistorySound {} staleSnapshot := by
  refine ⟨loadProfile_staleFile, ?_, ?_⟩
  · rintro ⟨hdefined, -⟩
    have hnone : (applyDirectCandidateScoring [publicCandidate] (scoreHints staleSnapshot)
        ["lan"]).isSome = false := by decide +kernel
    rw [hnone] at hdefined
    cases hdefined
  · rintro ⟨plan', hplan, -⟩
    have hnone : (applyProfileRouteHistoryInt {} staleSnapshot).isSome = false := by decide +kernel
    rw [hplan] at hnone
    cases hnone

/-- The last count whose penalty is an `int`, and what a product that wraps makes of the next. -/
example : penalty 429496729 = some 30 ∧ penalty 429496730 = none ∧
    min 30 ((429496730 * 5 : Int).bmod (2 ^ 32)) = -2147483646 := by decide

end RoutePlanner
end Kiko
