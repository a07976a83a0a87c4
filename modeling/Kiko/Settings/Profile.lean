import Kiko.Lib.JsonFile
import Kiko.Settings.AtomicFile

/-!
# The network profile (`connect/profile`)

The profile file is a JSON object with an entry for each network, under the network's
fingerprint. `saveProfileSuccess` reads the file, updates one entry and writes the whole file;
`loadProfile` reads one entry. Either takes a field it cannot use for missing.
-/

set_option autoImplicit false

namespace Kiko
namespace Settings

open Json

abbrev Fields := List (String × Value)

/-- `std::numeric_limits<int>::max()` -/
def intMax : Int := 2 ^ 31 - 1

/-- `std::numeric_limits<std::int64_t>::max()` -/
def int64Max : Int := 2 ^ 63 - 1

structure OutboundHistory where
  path : String := ""
  bindInterface : String := ""
  reason : String := ""
  rttByPath : List (String × Int) := []
  deriving DecidableEq

structure NetworkProfileEntry where
  lastPath : String := ""
  successCount : Int := 0
  pathStreak : Int := 0
  outboundHistory : OutboundHistory := {}
  lastDirectCandidateKind : String := ""
  lastDirectRttMs : Int := -1
  candidateFailuresByKind : List (String × Int) := []
  samePortAttempts : Int := 0
  samePortSuccesses : Int := 0
  samePortFailureStreak : Int := 0
  samePortLastElapsedMs : Int := -1
  deriving DecidableEq

structure PunchStats where
  successfulCandidateKind : String := ""
  successfulElapsedMs : Int64 := -1
  candidateFailuresByKind : List (String × Int32) := []
  samePortAttempts : Int32 := 0
  samePortSuccesses : Int32 := 0
  samePortFailures : Int32 := 0
  samePortLastElapsedMs : Int64 := -1

/-- What the outbound selection hands over: as `OutboundHistory`, in the types it has there. -/
structure Outbound where
  path : String := ""
  bindInterface : String := ""
  reason : String := ""
  rttByPath : List (String × Int64) := []

structure ProfileSuccess where
  path : String
  punch : Option PunchStats := none
  outbound : Option Outbound := none

/-! ## Fields

A field that is there in the wrong type counts as missing, for reading and for counting; it is
overwritten when there is something to write. -/

def parseNonnegativeInteger : Value → Option Int
  | .number n => if n < 0 then none else some n
  | _ => none

def profileIntField (object : Fields) (key : String) (fallback : Int := 0) : Int :=
  match (object.lookup key).bind parseNonnegativeInteger with
  | none => fallback
  | some value => if intMax < value then intMax else value

def profileI64Field (object : Fields) (key : String) (fallback : Int := -1) : Int :=
  match (object.lookup key).bind parseNonnegativeInteger with
  | none => fallback
  | some value => if int64Max < value then int64Max else value

def profileStringField (object : Fields) (key : String) : String :=
  match object.lookup key with
  | some (.string s) => s
  | _ => ""

def saturatingProfileAdd (value delta : Int) : Int :=
  let value := max 0 value
  let delta := max 0 delta
  if intMax - value < delta then intMax else value + delta

def parseFailuresByKind : Value → List (String × Int)
  | .object fields =>
    KeyMap.assignAll
      (fields.filterMap fun (key, value) =>
        if key = "" then none
        else (parseNonnegativeInteger value).bind fun parsed =>
          let count := if intMax < parsed then intMax else parsed
          if 0 < count then some (key, count) else none) []
  | _ => []

def parseRttByPath : Value → List (String × Int)
  | .object fields =>
    KeyMap.assignAll
      (fields.filterMap fun (key, value) =>
        if key = "" then none
        else (parseNonnegativeInteger value).map fun parsed =>
          (key, if int64Max < parsed then int64Max else parsed)) []
  | _ => []

def failuresByKindJson (failures : List (String × Int32)) : Value :=
  .object (KeyMap.assignAll
    (failures.filterMap fun (kind, count) =>
      if kind ≠ "" ∧ 0 < count.toInt then some (kind, .number count.toInt) else none) [])

def rttByPathJson (rtts : List (String × Int64)) : Value :=
  .object (KeyMap.assignAll
    (rtts.filterMap fun (path, rtt) =>
      if path ≠ "" ∧ 0 ≤ rtt.toInt then some (path, .number rtt.toInt) else none) [])

/-! ## `save_profile_success`

What is recorded depends on the path that was taken and on what the punch statistics say. Each
part is a function on the fields of one entry, in the order of the source. -/

/-- `if (c) entry[key] = value;` -/
def putIf (c : Prop) [Decidable c] (key : String) (value : Value) (entry : Fields) : Fields :=
  if c then KeyMap.assign key value entry else entry

/-- The path and the two counts. -/
def recordPath (path : String) (entry : Fields) : Fields :=
  let prev := profileIntField entry "success_count"
  let prevPath := profileStringField entry "last_path"
  let prevStreak := profileIntField entry "path_streak" (if prevPath = path then prev else 0)
  let entry := KeyMap.assign "last_path" (.string path) entry
  let entry := KeyMap.assign "success_count" (.number (saturatingProfileAdd prev 1)) entry
  KeyMap.assign "path_streak"
    (.number (if prevPath = path then saturatingProfileAdd prevStreak 1 else 1)) entry

def recordOutbound (outbound : Outbound) (entry : Fields) : Fields :=
  let entry := putIf (outbound.path ≠ "") "last_relay_path" (.string outbound.path) entry
  let entry :=
    if outbound.bindInterface ≠ "" then
      KeyMap.assign "last_relay_interface" (.string outbound.bindInterface) entry
    else entry.filter fun field => field.1 ≠ "last_relay_interface"
  let entry := putIf (outbound.reason ≠ "") "last_relay_reason" (.string outbound.reason) entry
  putIf (outbound.rttByPath ≠ []) "relay_rtt_by_path" (rttByPathJson outbound.rttByPath) entry

/-- Whether a direct connection was made that says which candidate works. -/
def PunchStats.NamesCandidate (stats : PunchStats) (path : String) : Prop :=
  path = "direct" ∧ stats.successfulCandidateKind ≠ "" ∧ stats.successfulCandidateKind ≠ "accept"

instance (stats : PunchStats) (path : String) : Decidable (stats.NamesCandidate path) :=
  inferInstanceAs (Decidable (_ ∧ _ ∧ _))

def recordCandidates (path : String) (stats : PunchStats) (entry : Fields) : Fields :=
  let entry := putIf (stats.NamesCandidate path) "last_direct_candidate_kind"
    (.string stats.successfulCandidateKind) entry
  let entry := putIf (stats.NamesCandidate path ∧ 0 ≤ stats.successfulElapsedMs.toInt)
    "last_direct_rtt_ms" (.number stats.successfulElapsedMs.toInt) entry
  putIf (stats.candidateFailuresByKind ≠ []) "candidate_failures_by_kind"
    (failuresByKindJson stats.candidateFailuresByKind) entry

def recordSamePort (stats : PunchStats) (entry : Fields) : Fields :=
  if 0 < stats.samePortAttempts.toInt then
    let entry := KeyMap.assign "same_port_attempts"
      (.number (saturatingProfileAdd (profileIntField entry "same_port_attempts")
        stats.samePortAttempts.toInt)) entry
    let entry := KeyMap.assign "same_port_successes"
      (.number (saturatingProfileAdd (profileIntField entry "same_port_successes")
        stats.samePortSuccesses.toInt)) entry
    let entry := KeyMap.assign "same_port_failure_streak"
      (.number (if 0 < stats.samePortSuccesses.toInt then 0
        else saturatingProfileAdd (profileIntField entry "same_port_failure_streak")
          stats.samePortFailures.toInt)) entry
    putIf (0 ≤ stats.samePortLastElapsedMs.toInt) "same_port_last_elapsed_ms"
      (.number stats.samePortLastElapsedMs.toInt) entry
  else entry

/-- The entry with a success recorded. -/
def recordSuccess (success : ProfileSuccess) (entry : Fields) : Fields :=
  let entry := recordPath success.path entry
  let entry := success.outbound.elim entry fun outbound => recordOutbound outbound entry
  success.punch.elim entry fun stats =>
    recordSamePort stats (recordCandidates success.path stats entry)

inductive ProfileRead
  | missing
  | loaded (root : Fields)
  | invalid (error : String)
  | unreadable (error : String)

/-- What a file that was read to its end is as a profile. -/
def parseProfile (lib : FileLibrary) (bytes : Bytes) : Except String Fields :=
  match lib.parse bytes with
  | .error error => .error error
  | .ok (.object root) => .ok root
  | .ok _ => .error "root must be a JSON object"

def loadProfileRoot (lib : FileLibrary) (f : ReadFaults) (path : String) (d : Disk) : ProfileRead :=
  match readFile f path d with
  | .missing => .missing
  | .unreadable error => .unreadable error
  | .broken error => .invalid error
  | .content bytes =>
    match parseProfile lib bytes with
    | .error error => .invalid error
    | .ok root => .loaded root

/-- The entry of a network, when it has one that is an object. -/
def entryOf (root : Fields) (fingerprint : String) : Option Fields :=
  match root.lookup fingerprint with
  | some (.object entry) => some entry
  | _ => none

def profileText (lib : FileLibrary) (root : Fields) : Bytes := lib.dump (.object root) ++ [10]

/-- The second half: the entry is updated and the file written. What the source returns as one
    optional text is told apart here: `.error` where it is an error, `.ok` with a warning. -/
def storeEntry (lib : FileLibrary) (f : WriteFaults) (path fingerprint : String)
    (success : ProfileSuccess) (root : Fields) (warning : Option String) (w : World) :
    Except String (Option String) × World :=
  let warning :=
    if (root.lookup fingerprint).isSome ∧ entryOf root fingerprint = none then
      warning.or (some ("malformed network profile entry reset for " ++ fingerprint))
    else warning
  let entry := recordSuccess success ((entryOf root fingerprint).getD [])
  let root := KeyMap.assign fingerprint (.object entry) root
  match atomicWriteTextFile f path (profileText lib root) w with
  | (some error, w) => (.error ("failed to save network profile: " ++ error), w)
  | (none, w) => (.ok warning, w)

def saveProfileSuccess (lib : FileLibrary) (f : SaveFaults) (path fingerprint : String)
    (success : ProfileSuccess) (w : World) : Except String (Option String) × World :=
  match loadProfileRoot lib f.read path w.now with
  | .invalid _ =>
    match moveFileToRecoveryBackup f.backup path "corrupt" w with
    | (.error error, w) => (.error ("refusing to overwrite malformed network profile: " ++ error), w)
    | (.ok backup, w) =>
      storeEntry lib f.write path fingerprint success []
        (some ("malformed network profile preserved at " ++ backup.text)) w
  | .unreadable error =>
    (.error ("refusing to overwrite unreadable network profile " ++ path ++ ": " ++ error), w)
  | .missing => storeEntry lib f.write path fingerprint success [] none w
  | .loaded root => storeEntry lib f.write path fingerprint success root none w

/-! ## `load_profile` -/

/-- What is read of an entry. -/
def readEntry (profile : Fields) : NetworkProfileEntry :=
  let lastPath := profileStringField profile "last_path"
  let successCount := profileIntField profile "success_count"
  { lastPath, successCount
    pathStreak := profileIntField profile "path_streak" (if lastPath = "" then 0 else successCount)
    outboundHistory :=
      { path := profileStringField profile "last_relay_path"
        bindInterface := profileStringField profile "last_relay_interface"
        reason := profileStringField profile "last_relay_reason"
        rttByPath := ((profile.lookup "relay_rtt_by_path").map parseRttByPath).getD [] }
    lastDirectCandidateKind := profileStringField profile "last_direct_candidate_kind"
    lastDirectRttMs := profileI64Field profile "last_direct_rtt_ms"
    candidateFailuresByKind :=
      ((profile.lookup "candidate_failures_by_kind").map parseFailuresByKind).getD []
    samePortAttempts := profileIntField profile "same_port_attempts"
    samePortSuccesses := profileIntField profile "same_port_successes"
    samePortFailureStreak := profileIntField profile "same_port_failure_streak"
    samePortLastElapsedMs := profileI64Field profile "same_port_last_elapsed_ms" }

def loadProfile (lib : FileLibrary) (f : ReadFaults) (path fingerprint : String) (d : Disk) :
    Option NetworkProfileEntry :=
  match loadProfileRoot lib f path d with
  | .loaded root => (entryOf root fingerprint).map readEntry
  | _ => none

end Settings
end Kiko
