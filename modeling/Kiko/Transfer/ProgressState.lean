import Kiko.Core.Protocol
import Kiko.Transfer.ReceivePaths

/-!
# What a front end shows of a transfer (`core/progress_state`, `core/progress`)

A transfer reports to a `ProgressReporter`; `ProgressStateReporter` projects each report into a
`TransferProgressState`, which the terminal and the web console draw. A report is a
`ProgressEvent` here, and `TransferProgressState.on` is the projection.

The clocks (`started`, `ended`) are left out, and so is the wake-up of the screen.

The projection is total: any report can come in any state, also after the transfer is over, and
the source says for each what it then does. Which reports do come, and in what order, is a
matter of the loops and of `Kiko.Transfer.Progress`.
-/

set_option autoImplicit false

namespace Kiko.Transfer

inductive RoutePhase
  | rendezvous
  | relayStandby
  | directProbing
  | relayCommitted
  | securing
deriving DecidableEq, Repr

structure RoutePhaseDetail where
  message : String := ""
  reason : String := ""
  relayFallbackReady : Bool := false
deriving DecidableEq, Repr

structure RouteOutcome where
  controlPath : String := "relay"
  dataPath : String := "relay"
  reason : String := ""
  directAttempted : Bool := false
  directCandidateKind : String := ""
  directCandidateEndpoint : String := ""
  directCandidateFamily : String := ""
  directCandidateScope : String := ""
  directElapsedMs : Int := -1
  directFailureSummary : String := ""
deriving DecidableEq, Repr

structure RouteTiming where
  rendezvousMs : Int := -1
  directProbeMs : Int := -1
  relayCommitMs : Int := -1
  securingMs : Int := -1
deriving DecidableEq, Repr

/-! ## The texts -/

/-- `format_route_phase_label`. -/
def formatRoutePhaseLabel (phase : RoutePhase) (detail : RoutePhaseDetail) : String :=
  match phase with
  | .rendezvous => "rendezvous"
  | .relayStandby => "relay fallback ready"
  | .directProbing => if detail.relayFallbackReady then "direct connect (relay ready)" else "direct connect"
  | .relayCommitted => "relay selected"
  | .securing => "securing"

/-- `format_route_outcome_label`. -/
def formatRouteOutcomeLabel (outcome : RouteOutcome) : String :=
  let label := "control=" ++ outcome.controlPath ++ " data=" ++ outcome.dataPath ++
    if outcome.reason = "" then "" else " (" ++ outcome.reason ++ ")"
  if outcome.dataPath = "direct" ∧ outcome.directCandidateKind ≠ "" then
    label ++ " via " ++ outcome.directCandidateKind ++
      (if outcome.directCandidateEndpoint = "" then "" else " " ++ outcome.directCandidateEndpoint) ++
      (if outcome.directCandidateFamily ≠ "" ∧ outcome.directCandidateScope ≠ "" then
        " " ++ outcome.directCandidateFamily ++ "/" ++ outcome.directCandidateScope else "") ++
      if 0 ≤ outcome.directElapsedMs then " " ++ toString outcome.directElapsedMs ++ "ms" else ""
  else if outcome.dataPath = "relay" ∧ outcome.directAttempted = false then
    label ++ " direct=not_attempted"
  else if outcome.dataPath = "relay" ∧ outcome.directFailureSummary ≠ "" then
    label ++ " direct=" ++ outcome.directFailureSummary
  else label

/-- `append_timing_field`. -/
def appendTimingField (line name : String) (valueMs : Int) : String :=
  if valueMs < 0 then line
  else (if line = "" then "" else line ++ " ") ++ name ++ "=" ++ toString valueMs ++ "ms"

/-- `format_route_timing_label`. -/
def formatRouteTimingLabel (timing : RouteTiming) : String :=
  let line := appendTimingField "" "rendezvous" timing.rendezvousMs
  let line := appendTimingField line "direct_probe" timing.directProbeMs
  let line := appendTimingField line "relay_commit" timing.relayCommitMs
  appendTimingField line "securing" timing.securingMs

/-- `format_receive_plan_summary`. -/
def formatReceivePlanSummary (summary : ReceivePlanSummary) : String :=
  let count (name : String) (n : Nat) : String :=
    if 0 < n then ", " ++ name ++ "=" ++ toString n else ""
  "receive plan: " ++ toString summary.itemCount ++ " item(s), " ++ toString summary.totalBytes ++ " bytes" ++
    count "skip" summary.skipCount ++ count "rename" summary.renameCount ++
    count "overwrite" summary.overwriteCount ++
    (if 0 < summary.resumeCount then
      ", resume=" ++ toString summary.resumeCount ++ " (" ++ toString summary.resumeBytes ++ " bytes)" else "") ++
    count "skipped-bytes" summary.skipBytes

/-- `format_transfer_retry_summary`. -/
def formatTransferRetrySummary (nextAttempt maxAttempts : Int) (reason : String) : String :=
  "connection lost, retrying " ++ toString nextAttempt ++ "/" ++ toString maxAttempts ++
    "; resume will continue verified partial files; reason: " ++ reason

/-- `format_transfer_retry_delay_summary`. -/
def formatTransferRetryDelaySummary (nextAttempt maxAttempts delayMs : Int) : String :=
  "reconnect in " ++ toString delayMs ++ "ms before attempt " ++ toString nextAttempt ++ "/" ++
    toString maxAttempts

/-! ## The state -/

structure TransferProgressState where
  activity : String := "starting..."
  code : String := ""
  currentFile : String := ""
  currentDone : Nat := 0
  currentSize : Nat := 0
  overallDone : Nat := 0
  overallTotal : Nat := 0
  filesDone : Nat := 0
  filesTotal : Nat := 0
  routePhase : String := ""
  routeSummary : String := ""
  routeTiming : String := ""
  receivePlan : ReceivePlanSummary := {}
  hasReceivePlan : Bool := false
  handshake : Bool := false
  finished : Bool := false
  failed : Bool := false
  canceled : Bool := false
  error : String := ""
  logs : List String := []
  maxLogLines : Nat
deriving DecidableEq, Repr

/-- What a transfer reports. -/
inductive ProgressEvent
  | status (message : String)
  | connectivityReport (report : String)
  | routePhase (phase : RoutePhase) (detail : RoutePhaseDetail)
  | routeOutcome (outcome : RouteOutcome)
  | routeTiming (timing : RouteTiming)
  | handshakeOk
  | codeReady (code : String)
  | transferOverview (fileCount totalBytes : Nat)
  | receivePlan (summary : ReceivePlanSummary)
  | fileStart (path : String) (size : Nat)
  | fileAdvance (bytesDelta : Nat)
  | fileResume (path : String) (offset size : Nat)
  | fileComplete (path : String) (size : Nat) (verified : Bool)
  | transferComplete (fileCount totalBytes : Nat)
  | transferRetry (nextAttempt maxAttempts : Int) (reason : String)
  | transferRetryDelay (nextAttempt maxAttempts delayMs : Int)
deriving DecidableEq, Repr

namespace TransferProgressState

/-- `reset_transfer_attempt`. -/
def resetTransferAttempt (s : TransferProgressState) : TransferProgressState :=
  { s with
    currentFile := ""
    currentDone := 0
    currentSize := 0
    overallDone := 0
    filesDone := 0
    handshake := false
    finished := false
    failed := false
    canceled := false
    error := "" }

/-- `reset`; a new state is one. -/
def reset (s : TransferProgressState) : TransferProgressState := { maxLogLines := s.maxLogLines }

/-- `append_log`: the lines of the text, of which the last `maxLogLines` are kept. -/
def appendLog (s : TransferProgressState) (text : String) : TransferProgressState :=
  let logs := s.logs ++ (text.splitOn "\n").filter (· ≠ "")
  { s with
    logs := if 0 < s.maxLogLines ∧ s.maxLogLines < logs.length then logs.drop (logs.length - s.maxLogLines)
      else logs }

def status (s : TransferProgressState) (message : String) : TransferProgressState :=
  { s.appendLog message with activity := message }

def connectivityReport (s : TransferProgressState) (report : String) : TransferProgressState :=
  { s.appendLog report with activity := "connectivity probe finished" }

def routePhaseChanged (s : TransferProgressState) (phase : RoutePhase) (detail : RoutePhaseDetail) :
    TransferProgressState :=
  let label := formatRoutePhaseLabel phase detail
  { s with
    routePhase := label
    activity := if detail.message = "" then label else detail.message }.appendLog
      ("route phase: " ++ label ++ (if detail.reason = "" then "" else " (" ++ detail.reason ++ ")") ++
        if detail.relayFallbackReady then " relay-ready" else "")

def routeSelected (s : TransferProgressState) (outcome : RouteOutcome) : TransferProgressState :=
  let activity := if outcome.dataPath = "direct" then "direct TCP selected" else "relay TCP selected"
  { s with
    routeSummary := formatRouteOutcomeLabel outcome
    activity := activity
    routePhase := activity }.appendLog ("route outcome: " ++ formatRouteOutcomeLabel outcome)

def routeTimingRecorded (s : TransferProgressState) (timing : RouteTiming) : TransferProgressState :=
  let summary := formatRouteTimingLabel timing
  if summary = "" then s else { s with routeTiming := summary }.appendLog ("route timing: " ++ summary)

def handshakeCompleted (s : TransferProgressState) : TransferProgressState :=
  { s with handshake := true, activity := "encrypted channel ready" }.appendLog
    "handshake ok (PAKE + XChaCha20-Poly1305)"

def pairingCodeReady (s : TransferProgressState) (code : String) : TransferProgressState :=
  { s with code := code }

def transferOverviewReceived (s : TransferProgressState) (fileCount totalBytes : Nat) : TransferProgressState :=
  { s with
    filesTotal := fileCount
    overallTotal := totalBytes
    activity := "transferring " ++ toString fileCount ++ " file(s)" }

def receivePlanReady (s : TransferProgressState) (summary : ReceivePlanSummary) : TransferProgressState :=
  { s with
    receivePlan := summary
    hasReceivePlan := true
    overallTotal := summary.totalBytes
    activity := formatReceivePlanSummary summary }.appendLog (formatReceivePlanSummary summary)

def fileStarted (s : TransferProgressState) (path : String) (size : Nat) : TransferProgressState :=
  { s with currentFile := path, currentSize := size, currentDone := 0 }

/-- `file_advanced`: a transfer that is over advances no more. -/
def fileAdvanced (s : TransferProgressState) (bytesDelta : Nat) : TransferProgressState :=
  if s.finished ∨ s.failed ∨ s.canceled then s
  else { s with
    currentDone := addU64 s.currentDone bytesDelta
    overallDone := addU64 s.overallDone bytesDelta }

def fileResumed (s : TransferProgressState) (path : String) (offset size : Nat) : TransferProgressState :=
  { s with activity := "resuming " ++ path }.appendLog
    ("resume: " ++ path ++ " from " ++ toString offset ++ "/" ++ toString size ++ " bytes")

def fileCompleted (s : TransferProgressState) : TransferProgressState :=
  { s with filesDone := s.filesDone + 1 }

def transferCompleted (s : TransferProgressState) (fileCount totalBytes : Nat) : TransferProgressState :=
  { s with
    filesTotal := fileCount
    filesDone := fileCount
    overallDone := totalBytes
    overallTotal := if s.overallTotal = 0 then totalBytes else s.overallTotal
    finished := true
    failed := false
    canceled := false
    activity := "transfer complete" }

def transferRetrying (s : TransferProgressState) (nextAttempt maxAttempts : Int) (reason : String) :
    TransferProgressState :=
  { s.resetTransferAttempt with
    routePhase := "reconnecting"
    activity := "reconnecting " ++ toString nextAttempt ++ "/" ++ toString maxAttempts }.appendLog
      (formatTransferRetrySummary nextAttempt maxAttempts reason)

def transferRetryWaiting (s : TransferProgressState) (nextAttempt maxAttempts delayMs : Int) :
    TransferProgressState :=
  if delayMs ≤ 0 then s
  else { s with
    activity := "waiting to reconnect " ++ toString nextAttempt ++ "/" ++ toString maxAttempts }.appendLog
      (formatTransferRetryDelaySummary nextAttempt maxAttempts delayMs)

/-- A report is projected into the state. -/
def on (s : TransferProgressState) : ProgressEvent → TransferProgressState
  | .status message => s.status message
  | .connectivityReport report => s.connectivityReport report
  | .routePhase phase detail => s.routePhaseChanged phase detail
  | .routeOutcome outcome => s.routeSelected outcome
  | .routeTiming timing => s.routeTimingRecorded timing
  | .handshakeOk => s.handshakeCompleted
  | .codeReady code => s.pairingCodeReady code
  | .transferOverview fileCount totalBytes => s.transferOverviewReceived fileCount totalBytes
  | .receivePlan summary => s.receivePlanReady summary
  | .fileStart path size => s.fileStarted path size
  | .fileAdvance bytesDelta => s.fileAdvanced bytesDelta
  | .fileResume path offset size => s.fileResumed path offset size
  | .fileComplete _ _ _ => s.fileCompleted
  | .transferComplete fileCount totalBytes => s.transferCompleted fileCount totalBytes
  | .transferRetry nextAttempt maxAttempts reason => s.transferRetrying nextAttempt maxAttempts reason
  | .transferRetryDelay nextAttempt maxAttempts delayMs => s.transferRetryWaiting nextAttempt maxAttempts delayMs

/-- Reports, one after the other. -/
def onAll (s : TransferProgressState) (events : List ProgressEvent) : TransferProgressState :=
  events.foldl on s

end TransferProgressState

end Kiko.Transfer
