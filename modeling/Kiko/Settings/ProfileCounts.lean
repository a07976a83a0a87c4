import Kiko.Lib.Transition
import Kiko.Settings.Profile

/-!
# What saved successes make of the network profile

`NetworkProfileEntry.after` says what a saved success makes of what `loadProfile` returns. The
file follows it, call after call, and nothing else in it changes (`save_profile_local`). There is
one exception: where the path saved is empty, a streak that is not in the file is not counted as
it would have been loaded.

The file is the only memory there is, and every call reads and writes the whole of it. So what
has to be shown of one call is a commutation, reading after a save is `after` what was read
before it, and that the entries of other networks, and what nobody knows of in this one, are as
they were.
-/

set_option autoImplicit false

namespace Kiko
namespace Settings

open Json

/-! ## What a success makes of an entry

Stated on what `loadProfile` returns and without a look at the JSON. Counts stop at the greatest
`int`, and an empty value leaves what was there. -/

/-- A count that grew, at most `intMax`. -/
def counted (count delta : Int) : Int := min (count + max 0 delta) intMax

namespace NetworkProfileEntry

variable (entry : NetworkProfileEntry) (success : ProfileSuccess)

/-- What an outbound selection leaves in the history: each part it has anything to say of. -/
def historyAfter : OutboundHistory :=
  match success.outbound with
  | none => entry.outboundHistory
  | some outbound =>
    { path := if outbound.path ≠ "" then outbound.path else entry.outboundHistory.path
      bindInterface := outbound.bindInterface
      reason := if outbound.reason ≠ "" then outbound.reason else entry.outboundHistory.reason
      rttByPath :=
        if outbound.rttByPath ≠ [] then parseRttByPath (rttByPathJson outbound.rttByPath)
        else entry.outboundHistory.rttByPath }

/-- The punch statistics that say something of the same-port attempts. -/
def samePort : Option PunchStats := success.punch.filter fun stats => 0 < stats.samePortAttempts.toInt

/-- The entry after a success was saved. -/
def after : NetworkProfileEntry where
  lastPath := success.path
  successCount := counted entry.successCount 1
  pathStreak := if entry.lastPath = success.path then counted entry.pathStreak 1 else 1
  outboundHistory := entry.historyAfter success
  lastDirectCandidateKind :=
    match success.punch with
    | some stats =>
      if stats.NamesCandidate success.path then stats.successfulCandidateKind
      else entry.lastDirectCandidateKind
    | none => entry.lastDirectCandidateKind
  lastDirectRttMs :=
    match success.punch with
    | some stats =>
      if stats.NamesCandidate success.path ∧ 0 ≤ stats.successfulElapsedMs.toInt then
        stats.successfulElapsedMs.toInt
      else entry.lastDirectRttMs
    | none => entry.lastDirectRttMs
  candidateFailuresByKind :=
    match success.punch with
    | some stats =>
      if stats.candidateFailuresByKind ≠ [] then
        parseFailuresByKind (failuresByKindJson stats.candidateFailuresByKind)
      else entry.candidateFailuresByKind
    | none => entry.candidateFailuresByKind
  samePortAttempts :=
    match samePort success with
    | some stats => counted entry.samePortAttempts stats.samePortAttempts.toInt
    | none => entry.samePortAttempts
  samePortSuccesses :=
    match samePort success with
    | some stats => counted entry.samePortSuccesses stats.samePortSuccesses.toInt
    | none => entry.samePortSuccesses
  samePortFailureStreak :=
    match samePort success with
    | some stats =>
      if 0 < stats.samePortSuccesses.toInt then 0
      else counted entry.samePortFailureStreak stats.samePortFailures.toInt
    | none => entry.samePortFailureStreak
  samePortLastElapsedMs :=
    match samePort success with
    | some stats =>
      if 0 ≤ stats.samePortLastElapsedMs.toInt then stats.samePortLastElapsedMs.toInt
      else entry.samePortLastElapsedMs
    | none => entry.samePortLastElapsedMs

end NetworkProfileEntry

section Entries

variable {entry : Fields} {key : String} {success : ProfileSuccess} {n fallback : Int}

theorem lookup_putIf (c : Prop) [Decidable c] (key k : String) (value : Value) (entry : Fields) :
    (putIf c key value entry).lookup k = if k = key ∧ c then some value else entry.lookup k := by
  unfold putIf
  by_cases hc : c
  · rw [if_pos hc, KeyMap.lookup_assign]
    simp [hc]
  · rw [if_neg hc]
    simp [hc]

/-- A field that holds a count is read as it is. -/
theorem profileIntField_number (h : entry.lookup key = some (.number n)) (hn : 0 ≤ n)
    (hmax : n ≤ intMax) : profileIntField entry key fallback = n := by
  rw [profileIntField, h, Option.bind_some, parseNonnegativeInteger, if_neg hn.not_gt]
  exact if_neg hmax.not_gt

theorem profileI64Field_number (h : entry.lookup key = some (.number n)) (hn : 0 ≤ n)
    (hmax : n ≤ int64Max) : profileI64Field entry key fallback = n := by
  rw [profileI64Field, h, Option.bind_some, parseNonnegativeInteger, if_neg hn.not_gt]
  exact if_neg hmax.not_gt

theorem parseNonnegativeInteger_nonneg {value : Value} (h : parseNonnegativeInteger value = some n) :
    0 ≤ n := by
  cases value with
  | number m =>
    rw [parseNonnegativeInteger] at h
    split at h
    · cases h
    · cases h
      omega
  | _ => cases h

/-- No field is read as a negative count or as more than an `int`. -/
theorem profileIntField_range (entry : Fields) (key : String) (hn : 0 ≤ fallback)
    (hmax : fallback ≤ intMax) :
    0 ≤ profileIntField entry key fallback ∧ profileIntField entry key fallback ≤ intMax := by
  unfold profileIntField
  cases h : (entry.lookup key).bind parseNonnegativeInteger with
  | none => exact ⟨hn, hmax⟩
  | some value =>
    obtain ⟨v, -, hv⟩ := Option.bind_eq_some_iff.mp h
    have hpos := parseNonnegativeInteger_nonneg hv
    simp only
    split
    · exact ⟨by decide, le_refl _⟩
    · exact ⟨hpos, by omega⟩

theorem saturatingProfileAdd_eq {count : Int} (hcount : 0 ≤ count) (delta : Int) :
    saturatingProfileAdd count delta = counted count delta := by
  unfold saturatingProfileAdd counted
  rw [max_eq_right hcount]
  change (if intMax - count < max 0 delta then intMax else count + max 0 delta) = _
  split
  · rw [min_eq_right (by omega)]
  · rw [min_eq_left (by omega)]

theorem counted_range {count : Int} (hcount : 0 ≤ count) (delta : Int) :
    0 ≤ counted count delta ∧ counted count delta ≤ intMax := by
  refine ⟨le_min ?_ (by decide), min_le_right _ _⟩
  have := le_max_left 0 delta
  omega

/-- Every count of an entry as it is read. -/
theorem readEntry_counts (entry : Fields) :
    (0 ≤ (readEntry entry).successCount ∧ (readEntry entry).successCount ≤ intMax) ∧
    (0 ≤ (readEntry entry).pathStreak ∧ (readEntry entry).pathStreak ≤ intMax) ∧
    (0 ≤ (readEntry entry).samePortAttempts ∧ (readEntry entry).samePortAttempts ≤ intMax) ∧
    (0 ≤ (readEntry entry).samePortSuccesses ∧ (readEntry entry).samePortSuccesses ≤ intMax) ∧
    (0 ≤ (readEntry entry).samePortFailureStreak ∧
      (readEntry entry).samePortFailureStreak ≤ intMax) := by
  have hzero : (0 : Int) ≤ 0 ∧ (0 : Int) ≤ intMax := ⟨le_refl _, by decide⟩
  have hcount := profileIntField_range entry "success_count" hzero.1 hzero.2
  refine ⟨hcount, ?_, profileIntField_range _ _ hzero.1 hzero.2,
    profileIntField_range _ _ hzero.1 hzero.2, profileIntField_range _ _ hzero.1 hzero.2⟩
  simp only [readEntry]
  split
  · exact profileIntField_range _ _ hzero.1 hzero.2
  · exact profileIntField_range _ _ hcount.1 hcount.2

theorem profileStringField_string {text : String} (h : entry.lookup key = some (.string text)) :
    profileStringField entry key = text := by
  rw [profileStringField, h]

/-! ### Each part of the update changes its own fields -/

/-- Nothing but the fields `keys` differs. -/
def Differs (keys : List String) (entry entry' : Fields) : Prop :=
  ∀ k, k ∉ keys → entry'.lookup k = entry.lookup k

variable {entry' : Fields} {keys : List String}

theorem Differs.int (h : Differs keys entry entry') (hk : key ∉ keys) (fallback : Int) :
    profileIntField entry' key fallback = profileIntField entry key fallback := by
  rw [profileIntField, h key hk, profileIntField]

theorem Differs.i64 (h : Differs keys entry entry') (hk : key ∉ keys) (fallback : Int) :
    profileI64Field entry' key fallback = profileI64Field entry key fallback := by
  rw [profileI64Field, h key hk, profileI64Field]

theorem Differs.string (h : Differs keys entry entry') (hk : key ∉ keys) :
    profileStringField entry' key = profileStringField entry key := by
  rw [profileStringField, h key hk, profileStringField]

theorem differs_assign (key : String) (value : Value) (entry : Fields) :
    Differs [key] entry (KeyMap.assign key value entry) := by
  intro k hk
  exact KeyMap.lookup_assign_of_ne (by simpa using hk) _ _

theorem differs_putIf (c : Prop) [Decidable c] (key : String) (value : Value) (entry : Fields) :
    Differs [key] entry (putIf c key value entry) := by
  unfold putIf
  split
  · exact differs_assign key value entry
  · exact fun _ _ => rfl

theorem Differs.trans {entry'' : Fields} {keys' : List String} (h : Differs keys entry entry')
    (h' : Differs keys' entry' entry'') : Differs (keys ++ keys') entry entry'' := by
  intro k hk
  obtain ⟨hk₁, hk₂⟩ := not_or.mp (mt List.mem_append.mpr hk)
  rw [h' k hk₂, h k hk₁]

def pathKeys : List String := ["last_path", "success_count", "path_streak"]

def outboundKeys : List String :=
  ["last_relay_path", "last_relay_interface", "last_relay_reason", "relay_rtt_by_path"]

def candidateKeys : List String :=
  ["last_direct_candidate_kind", "last_direct_rtt_ms", "candidate_failures_by_kind"]

def samePortKeys : List String :=
  ["same_port_attempts", "same_port_successes", "same_port_failure_streak",
    "same_port_last_elapsed_ms"]

theorem differs_recordPath (path : String) (entry : Fields) :
    Differs pathKeys entry (recordPath path entry) :=
  ((differs_assign _ _ _).trans (differs_assign _ _ _)).trans (differs_assign _ _ _)

theorem differs_recordOutbound (outbound : Outbound) (entry : Fields) :
    Differs outboundKeys entry (recordOutbound outbound entry) := by
  have hinterface : ∀ entry : Fields, Differs ["last_relay_interface"] entry
      (if outbound.bindInterface ≠ "" then
        KeyMap.assign "last_relay_interface" (.string outbound.bindInterface) entry
      else entry.filter fun field => field.1 ≠ "last_relay_interface") := by
    intro entry
    split
    · exact differs_assign _ _ _
    · intro k hk
      rw [KeyMap.lookup_filter (fun key => key ≠ "last_relay_interface")]
      simpa using fun h => absurd h (by simpa using hk)
  exact (((differs_putIf _ _ _ _).trans (hinterface _)).trans (differs_putIf _ _ _ _)).trans
    (differs_putIf _ _ _ _)

theorem differs_recordCandidates (path : String) (stats : PunchStats) (entry : Fields) :
    Differs candidateKeys entry (recordCandidates path stats entry) :=
  ((differs_putIf _ _ _ _).trans (differs_putIf _ _ _ _)).trans (differs_putIf _ _ _ _)

theorem differs_recordSamePort (stats : PunchStats) (entry : Fields) :
    Differs samePortKeys entry (recordSamePort stats entry) := by
  unfold recordSamePort
  split
  · exact (((differs_assign _ _ _).trans (differs_assign _ _ _)).trans (differs_assign _ _ _)).trans
      (differs_putIf _ _ _ _)
  · exact fun _ _ => rfl

theorem readEntry_recordPath (path : String) (entry : Fields) :
    readEntry (recordPath path entry) =
      { readEntry entry with
        lastPath := path
        successCount := counted (readEntry entry).successCount 1
        pathStreak :=
          if (readEntry entry).lastPath = path then
            counted (profileIntField entry "path_streak" (readEntry entry).successCount) 1
          else 1 } := by
  have hprev := profileIntField_range entry "success_count" (le_refl 0) (by decide)
  have hstreak := profileIntField_range entry "path_streak" hprev.1 hprev.2
  have hcount := counted_range hprev.1 1
  have hpath : profileStringField (recordPath path entry) "last_path" = path := by
    apply profileStringField_string
    simp [recordPath, KeyMap.lookup_assign]
  have hsaved : profileIntField (recordPath path entry) "success_count" =
      counted (profileIntField entry "success_count") 1 := by
    refine profileIntField_number ?_ hcount.1 hcount.2
    simp [recordPath, KeyMap.lookup_assign, saturatingProfileAdd_eq hprev.1]
  have hsavedStreak : ∀ fallback, profileIntField (recordPath path entry) "path_streak" fallback =
      if profileStringField entry "last_path" = path then
        counted (profileIntField entry "path_streak" (profileIntField entry "success_count")) 1
      else 1 := by
    intro fallback
    by_cases heq : profileStringField entry "last_path" = path
    · rw [if_pos heq]
      refine profileIntField_number ?_ (counted_range hstreak.1 1).1 (counted_range hstreak.1 1).2
      simp [recordPath, heq, saturatingProfileAdd_eq hstreak.1]
    · rw [if_neg heq]
      refine profileIntField_number ?_ (by decide) (by decide)
      simp [recordPath, heq]
  have hkeep := differs_recordPath path entry
  simp (disch := decide) only [readEntry, hpath, hsaved, hsavedStreak, hkeep.int, hkeep.i64,
    hkeep.string, hkeep _]
  rfl

theorem readEntry_recordOutbound (outbound : Outbound) (entry : Fields) :
    readEntry (recordOutbound outbound entry) =
      { readEntry entry with
        outboundHistory :=
          (readEntry entry).historyAfter { path := "", outbound := some outbound } } := by
  have hkeep := differs_recordOutbound outbound entry
  have hlook : ∀ k, (recordOutbound outbound entry).lookup k =
      if k = "relay_rtt_by_path" ∧ outbound.rttByPath ≠ [] then
        some (rttByPathJson outbound.rttByPath)
      else if k = "last_relay_reason" ∧ outbound.reason ≠ "" then some (.string outbound.reason)
      else if k = "last_relay_interface" then
        if outbound.bindInterface ≠ "" then some (.string outbound.bindInterface) else none
      else if k = "last_relay_path" ∧ outbound.path ≠ "" then some (.string outbound.path)
      else entry.lookup k := by
    intro k
    simp only [recordOutbound, lookup_putIf]
    by_cases hbind : outbound.bindInterface ≠ ""
    · simp only [if_pos hbind, KeyMap.lookup_assign, lookup_putIf]
    · simp only [if_neg hbind, KeyMap.lookup_filter (fun key => key ≠ "last_relay_interface"),
        lookup_putIf]
      by_cases hk : k = "last_relay_interface" <;> simp [hk]
  have hpath : profileStringField (recordOutbound outbound entry) "last_relay_path" =
      if outbound.path ≠ "" then outbound.path else profileStringField entry "last_relay_path" := by
    by_cases h : outbound.path = "" <;> simp [profileStringField, hlook, h]
  have hbind : profileStringField (recordOutbound outbound entry) "last_relay_interface" =
      outbound.bindInterface := by
    by_cases h : outbound.bindInterface = "" <;> simp [profileStringField, hlook, h]
  have hreason : profileStringField (recordOutbound outbound entry) "last_relay_reason" =
      if outbound.reason ≠ "" then outbound.reason
      else profileStringField entry "last_relay_reason" := by
    by_cases h : outbound.reason = "" <;> simp [profileStringField, hlook, h]
  have hrtt : (((recordOutbound outbound entry).lookup "relay_rtt_by_path").map parseRttByPath).getD [] =
      if outbound.rttByPath ≠ [] then parseRttByPath (rttByPathJson outbound.rttByPath)
      else ((entry.lookup "relay_rtt_by_path").map parseRttByPath).getD [] := by
    by_cases h : outbound.rttByPath = [] <;> simp [hlook, h]
  simp (disch := decide) only [readEntry, NetworkProfileEntry.historyAfter, hpath, hbind, hreason,
    hrtt, hkeep.int, hkeep.i64, hkeep.string, hkeep _]

theorem readEntry_recordCandidates (path : String) (stats : PunchStats) (entry : Fields) :
    readEntry (recordCandidates path stats entry) =
      { readEntry entry with
        lastDirectCandidateKind :=
          if stats.NamesCandidate path then stats.successfulCandidateKind
          else (readEntry entry).lastDirectCandidateKind
        lastDirectRttMs :=
          if stats.NamesCandidate path ∧ 0 ≤ stats.successfulElapsedMs.toInt then
            stats.successfulElapsedMs.toInt
          else (readEntry entry).lastDirectRttMs
        candidateFailuresByKind :=
          if stats.candidateFailuresByKind ≠ [] then
            parseFailuresByKind (failuresByKindJson stats.candidateFailuresByKind)
          else (readEntry entry).candidateFailuresByKind } := by
  have hkeep := differs_recordCandidates path stats entry
  have hkind : profileStringField (recordCandidates path stats entry) "last_direct_candidate_kind" =
      if stats.NamesCandidate path then stats.successfulCandidateKind
      else profileStringField entry "last_direct_candidate_kind" := by
    by_cases h : stats.NamesCandidate path <;>
      simp [profileStringField, recordCandidates, lookup_putIf, h]
  have hrtt : profileI64Field (recordCandidates path stats entry) "last_direct_rtt_ms" =
      if stats.NamesCandidate path ∧ 0 ≤ stats.successfulElapsedMs.toInt then
        stats.successfulElapsedMs.toInt
      else profileI64Field entry "last_direct_rtt_ms" := by
    by_cases h : stats.NamesCandidate path ∧ 0 ≤ stats.successfulElapsedMs.toInt
    · rw [if_pos h]
      refine profileI64Field_number ?_ h.2 (Int64.toInt_le _)
      simp [recordCandidates, lookup_putIf, h]
    · rw [if_neg h]
      simp [profileI64Field, recordCandidates, lookup_putIf, h]
  have hfailures :
      (((recordCandidates path stats entry).lookup "candidate_failures_by_kind").map
          parseFailuresByKind).getD [] =
        if stats.candidateFailuresByKind ≠ [] then
          parseFailuresByKind (failuresByKindJson stats.candidateFailuresByKind)
        else ((entry.lookup "candidate_failures_by_kind").map parseFailuresByKind).getD [] := by
    by_cases h : stats.candidateFailuresByKind = [] <;> simp [recordCandidates, lookup_putIf, h]
  simp (disch := decide) only [readEntry, hkind, hrtt, hfailures, hkeep.int, hkeep.i64,
    hkeep.string, hkeep _]

theorem readEntry_recordSamePort (stats : PunchStats) (entry : Fields)
    (h : 0 < stats.samePortAttempts.toInt) :
    readEntry (recordSamePort stats entry) =
      { readEntry entry with
        samePortAttempts := counted (readEntry entry).samePortAttempts stats.samePortAttempts.toInt
        samePortSuccesses :=
          counted (readEntry entry).samePortSuccesses stats.samePortSuccesses.toInt
        samePortFailureStreak :=
          if 0 < stats.samePortSuccesses.toInt then 0
          else counted (readEntry entry).samePortFailureStreak stats.samePortFailures.toInt
        samePortLastElapsedMs :=
          if 0 ≤ stats.samePortLastElapsedMs.toInt then stats.samePortLastElapsedMs.toInt
          else (readEntry entry).samePortLastElapsedMs } := by
  have hkeep := differs_recordSamePort stats entry
  have hrange : ∀ key, 0 ≤ profileIntField entry key ∧ profileIntField entry key ≤ intMax :=
    fun key => profileIntField_range entry key (le_refl 0) (by decide)
  -- the saturating sum is `counted`, since both counts are no more than an `int`
  have hadd : ∀ key delta, saturatingProfileAdd (profileIntField entry key) delta =
      counted (profileIntField entry key) delta := fun key => saturatingProfileAdd_eq (hrange key).1
  -- each key is looked up in the assignments made last, and then in those before
  have hlook : ∀ k, (recordSamePort stats entry).lookup k =
      if k = "same_port_last_elapsed_ms" ∧ 0 ≤ stats.samePortLastElapsedMs.toInt then
        some (.number stats.samePortLastElapsedMs.toInt)
      else if k = "same_port_failure_streak" then
        some (.number (if 0 < stats.samePortSuccesses.toInt then 0
          else counted (profileIntField entry "same_port_failure_streak")
            stats.samePortFailures.toInt))
      else if k = "same_port_successes" then
        some (.number (counted (profileIntField entry "same_port_successes")
          stats.samePortSuccesses.toInt))
      else if k = "same_port_attempts" then
        some (.number (counted (profileIntField entry "same_port_attempts")
          stats.samePortAttempts.toInt))
      else entry.lookup k := by
    intro k
    simp (disch := decide) only [recordSamePort, if_pos h, lookup_putIf, KeyMap.lookup_assign,
      (differs_assign _ _ _).int, hadd]
  have hcount : ∀ key delta, (recordSamePort stats entry).lookup key =
        some (.number (counted (profileIntField entry key) delta)) →
      profileIntField (recordSamePort stats entry) key =
        counted (profileIntField entry key) delta := fun key delta hlookup =>
    profileIntField_number hlookup (counted_range (hrange key).1 delta).1
      (counted_range (hrange key).1 delta).2
  have hattempts := hcount "same_port_attempts" stats.samePortAttempts.toInt (by simp [hlook])
  have hsuccesses := hcount "same_port_successes" stats.samePortSuccesses.toInt (by simp [hlook])
  -- a success ends the streak, whatever else is counted
  have hstreak : profileIntField (recordSamePort stats entry) "same_port_failure_streak" =
      if 0 < stats.samePortSuccesses.toInt then 0
      else counted (profileIntField entry "same_port_failure_streak")
        stats.samePortFailures.toInt := by
    by_cases hsuccess : 0 < stats.samePortSuccesses.toInt
    · rw [if_pos hsuccess]
      exact profileIntField_number (by simp [hlook, hsuccess]) (le_refl 0) (by decide)
    · rw [if_neg hsuccess]
      exact hcount _ _ (by simp [hlook, hsuccess])
  have helapsed : profileI64Field (recordSamePort stats entry) "same_port_last_elapsed_ms" =
      if 0 ≤ stats.samePortLastElapsedMs.toInt then stats.samePortLastElapsedMs.toInt
      else profileI64Field entry "same_port_last_elapsed_ms" := by
    by_cases hpos : 0 ≤ stats.samePortLastElapsedMs.toInt
    · rw [if_pos hpos]
      exact profileI64Field_number (by simp [hlook, hpos]) hpos (Int64.toInt_le _)
    · rw [if_neg hpos]
      simp [profileI64Field, hlook, hpos]
  simp (disch := decide) only [readEntry, hattempts, hsuccesses, hstreak, helapsed, hkeep.int,
    hkeep.i64, hkeep.string, hkeep _]

/-- What is read of an entry with a success recorded. A path that is not empty is needed for the
    streak only: a streak that is not in the file is read as the count of successes then. -/
theorem readEntry_recordSuccess (success : ProfileSuccess) (entry : Fields) :
    readEntry (recordSuccess success entry) =
      { (readEntry entry).after success with
        pathStreak :=
          if (readEntry entry).lastPath = success.path then
            counted (profileIntField entry "path_streak" (readEntry entry).successCount) 1
          else 1 } := by
  have hpath := readEntry_recordPath success.path entry
  unfold recordSuccess
  generalize recordPath success.path entry = entry₁ at hpath
  have houtbound :
      readEntry (success.outbound.elim entry₁ fun outbound => recordOutbound outbound entry₁) =
        { readEntry entry₁ with outboundHistory := (readEntry entry).historyAfter success } := by
    cases hout : success.outbound with
    | none => simp [hpath, NetworkProfileEntry.historyAfter, hout]
    | some outbound =>
      rw [Option.elim_some, readEntry_recordOutbound, hpath]
      simp only [NetworkProfileEntry.historyAfter, hout]
  simp only
  generalize (success.outbound.elim entry₁ fun outbound => recordOutbound outbound entry₁) =
    entry₂ at houtbound
  rw [hpath] at houtbound
  cases hpunch : success.punch with
  | none =>
    simp only [Option.elim_none, houtbound, NetworkProfileEntry.after,
      NetworkProfileEntry.samePort, hpunch]
    rfl
  | some stats =>
    rw [Option.elim_some]
    by_cases hattempts : 0 < stats.samePortAttempts.toInt
    · rw [readEntry_recordSamePort stats _ hattempts, readEntry_recordCandidates, houtbound]
      simp only [NetworkProfileEntry.after, NetworkProfileEntry.samePort, hpunch,
        Option.filter_some, hattempts, decide_true, if_true]
    · rw [recordSamePort, if_neg hattempts, readEntry_recordCandidates, houtbound]
      simp only [NetworkProfileEntry.after, NetworkProfileEntry.samePort, hpunch,
        Option.filter_some, hattempts, decide_false, Bool.false_eq_true, if_false]

/-- With a path, all that is read of the entry is what the success makes of what was read. -/
theorem readEntry_recordSuccess_of_path (success : ProfileSuccess) (entry : Fields)
    (h : success.path ≠ "") :
    readEntry (recordSuccess success entry) = (readEntry entry).after success := by
  rw [readEntry_recordSuccess]
  have hstreak : (readEntry entry).lastPath = success.path →
      profileIntField entry "path_streak" (readEntry entry).successCount =
        (readEntry entry).pathStreak := by
    intro hlast
    have hne : profileStringField entry "last_path" ≠ "" := fun hempty => h (hlast ▸ hempty)
    simp only [readEntry, if_neg hne]
  by_cases hlast : (readEntry entry).lastPath = success.path
  · rw [if_pos hlast, hstreak hlast]
    simp only [NetworkProfileEntry.after, if_pos hlast]
  · rw [if_neg hlast]
    simp only [NetworkProfileEntry.after, if_neg hlast]

/-! ### The fields nobody knows, and the shape of the file -/

/-- The fields of an entry that a saved success may change. -/
def entryKeys : List String := pathKeys ++ outboundKeys ++ candidateKeys ++ samePortKeys

theorem Differs.mono {keys' : List String} (h : Differs keys entry entry') (hsub : keys ⊆ keys') :
    Differs keys' entry entry' := fun k hk => h k fun hmem => hk (hsub hmem)

theorem differs_refl (keys : List String) (entry : Fields) : Differs keys entry entry :=
  fun _ _ => rfl

theorem differs_recordSuccess (success : ProfileSuccess) (entry : Fields) :
    Differs entryKeys entry (recordSuccess success entry) := by
  have hoff : ∀ entry : Fields, Differs outboundKeys entry
      (success.outbound.elim entry fun outbound => recordOutbound outbound entry) := by
    intro entry
    cases success.outbound with
    | none => exact differs_refl _ _
    | some outbound => exact differs_recordOutbound outbound entry
  have hhead := (differs_recordPath success.path entry).trans (hoff _)
  unfold recordSuccess
  cases success.punch with
  | none => exact hhead.mono (by decide)
  | some stats =>
    exact (hhead.trans (differs_recordCandidates _ _ _)).trans (differs_recordSamePort _ _)

variable {canon : String → Prop}

theorem kept_assignAll {fields : Fields} (h : ∀ f ∈ fields, Kept canon f.2) :
    Kept canon (.object (KeyMap.assignAll fields [])) := by
  apply Kept.object (KeyMap.isMap_nil.assignAll fields)
  intro f hf
  rcases KeyMap.mem_assignAll hf with hf | hf
  · exact h f hf
  · cases hf

theorem kept_count {n : Int} (hn : 0 ≤ n) (hmax : n ≤ intMax) : Kept canon (.number n) := by
  have : intMax = 2 ^ 31 - 1 := rfl
  exact .number (by omega) (by omega)

theorem kept_int64 (n : Int64) : Kept canon (.number n.toInt) := by
  have hlow := n.le_toInt
  have hhigh := n.toInt_lt
  exact .number (by omega) (by omega)

theorem kept_int32 (n : Int32) : Kept canon (.number n.toInt) := by
  have hlow := n.le_toInt
  have hhigh := n.toInt_lt
  exact .number (by omega) (by omega)

theorem kept_putIf {c : Prop} [Decidable c] {value : Value} (h : Kept canon (.object entry))
    (hv : Kept canon value) : Kept canon (.object (putIf c key value entry)) := by
  unfold putIf
  split
  · exact h.assign hv
  · exact h

theorem kept_rttByPathJson (rtts : List (String × Int64)) : Kept canon (rttByPathJson rtts) := by
  apply kept_assignAll
  intro f hf
  obtain ⟨⟨path, rtt⟩, -, hf⟩ := List.mem_filterMap.mp hf
  simp only at hf
  split at hf
  · cases hf
    exact kept_int64 rtt
  · cases hf

theorem kept_failuresByKindJson (failures : List (String × Int32)) :
    Kept canon (failuresByKindJson failures) := by
  apply kept_assignAll
  intro f hf
  obtain ⟨⟨kind, count⟩, -, hf⟩ := List.mem_filterMap.mp hf
  simp only at hf
  split at hf
  · cases hf
    exact kept_int32 count
  · cases hf

theorem kept_recordPath (path : String) (h : Kept canon (.object entry)) :
    Kept canon (.object (recordPath path entry)) := by
  have hprev := profileIntField_range entry "success_count" (le_refl 0) (by decide)
  have hadd : ∀ {n : Int}, 0 ≤ n → Kept canon (.number (saturatingProfileAdd n 1)) := by
    intro n hn
    rw [saturatingProfileAdd_eq hn]
    exact kept_count (counted_range hn 1).1 (counted_range hn 1).2
  unfold recordPath
  refine ((h.assign (.string _)).assign (hadd hprev.1)).assign ?_
  by_cases hpath : profileStringField entry "last_path" = path
  · simp only [if_pos hpath]
    exact hadd (profileIntField_range entry "path_streak" hprev.1 hprev.2).1
  · simp only [if_neg hpath]
    exact kept_count (by decide) (by decide)

theorem kept_recordOutbound (outbound : Outbound) (h : Kept canon (.object entry)) :
    Kept canon (.object (recordOutbound outbound entry)) := by
  unfold recordOutbound
  refine kept_putIf (kept_putIf ?_ (.string _)) (kept_rttByPathJson _)
  have hpath := @kept_putIf _ "last_relay_path" _ (outbound.path ≠ "") _ _ h (.string outbound.path)
  split
  · exact hpath.assign (.string _)
  · exact hpath.filter _

theorem kept_recordSamePort (stats : PunchStats) (h : Kept canon (.object entry)) :
    Kept canon (.object (recordSamePort stats entry)) := by
  have hadd : ∀ (entry : Fields) (key : String) (delta : Int),
      Kept canon (.number (saturatingProfileAdd (profileIntField entry key) delta)) := by
    intro entry key delta
    have hn := (profileIntField_range entry key (le_refl 0) (by decide)).1
    rw [saturatingProfileAdd_eq hn]
    exact kept_count (counted_range hn delta).1 (counted_range hn delta).2
  unfold recordSamePort
  split
  · refine kept_putIf (((h.assign (hadd _ _ _)).assign (hadd _ _ _)).assign ?_) (kept_int64 _)
    split
    · exact kept_count (le_refl 0) (by decide)
    · exact hadd _ _ _
  · exact h

theorem kept_recordSuccess (success : ProfileSuccess) (h : Kept canon (.object entry)) :
    Kept canon (.object (recordSuccess success entry)) := by
  have hpath := kept_recordPath success.path h
  unfold recordSuccess
  generalize recordPath success.path entry = entry₁ at hpath
  have houtbound : Kept canon
      (.object (success.outbound.elim entry₁ fun outbound => recordOutbound outbound entry₁)) := by
    cases success.outbound with
    | none => exact hpath
    | some outbound => exact kept_recordOutbound outbound hpath
  cases success.punch with
  | none => exact houtbound
  | some stats =>
    exact kept_recordSamePort stats (kept_putIf (kept_putIf (kept_putIf houtbound (.string _))
      (kept_int64 _)) (kept_failuresByKindJson _))

end Entries

/-! ## The file

A file that holds a profile holds one after each call that reports no error, and one that does
report an error leaves it as it was. -/

section Files

variable {lib : FileLibrary} {path fingerprint : String} {root : Fields} {success : ProfileSuccess}
  {w w' : World} {d d' : Disk}

/-- The file at the path is a profile file with the networks `root`. -/
def HoldsProfile (lib : FileLibrary) (path : String) (root : Fields) (d : Disk) : Prop :=
  ∃ bytes, d.nodes (.named path) = some (.regular bytes true) ∧ lib.parse bytes = .ok (.object root)

theorem HoldsProfile.same (h : HoldsProfile lib path root d) (hsame : d.Same d') :
    HoldsProfile lib path root d' := by
  obtain ⟨bytes, hnode, hparse⟩ := h
  exact ⟨bytes, hsame.named path ▸ hnode, hparse⟩

theorem HoldsProfile.kept (h : HoldsProfile lib path root d) : Kept lib.canon (.object root) := by
  obtain ⟨bytes, -, hparse⟩ := h
  exact lib.parse_kept hparse

theorem HoldsProfile.loadProfileRoot_eq (h : HoldsProfile lib path root d) :
    loadProfileRoot lib {} path d = .loaded root := by
  obtain ⟨bytes, hnode, hparse⟩ := h
  simp [loadProfileRoot, readFile, hnode, parseProfile, hparse]

theorem HoldsProfile.loadProfile_eq (h : HoldsProfile lib path root d) (fingerprint : String) :
    loadProfile lib {} path fingerprint d = (entryOf root fingerprint).map readEntry := by
  rw [loadProfile, h.loadProfileRoot_eq]

theorem readEntry_nil : readEntry [] = {} := rfl

/-- The networks with a success recorded for one of them. -/
def recorded (fingerprint : String) (success : ProfileSuccess) (root : Fields) : Fields :=
  KeyMap.assign fingerprint (.object (recordSuccess success ((entryOf root fingerprint).getD []))) root

theorem entryOf_recorded_self :
    entryOf (recorded fingerprint success root) fingerprint =
      some (recordSuccess success ((entryOf root fingerprint).getD [])) := by
  simp [entryOf, recorded]

theorem kept_entryOf {canon : String → Prop} (h : Kept canon (.object root)) (fingerprint : String) :
    Kept canon (.object ((entryOf root fingerprint).getD [])) := by
  unfold entryOf
  split
  · next entry hlook => exact h.of_lookup hlook
  · exact kept_empty

/-- A save of a profile file that is read as it is: the file holds the networks with the success
    recorded when no error is reported, and what it held when one is. -/
theorem saveProfileSuccess_holds {f : WriteFaults} {result : Except String (Option String)}
    (hfile : HoldsProfile lib path root w.now)
    (h : saveProfileSuccess lib { write := f } path fingerprint success w = (result, w')) :
    HoldsProfile lib path
      (match result with | .ok _ => recorded fingerprint success root | .error _ => root) w'.now := by
  have hroot : Kept lib.canon (.object (recorded fingerprint success root)) :=
    hfile.kept.assign (kept_recordSuccess success (kept_entryOf hfile.kept fingerprint))
  unfold saveProfileSuccess at h
  rw [hfile.loadProfileRoot_eq] at h
  simp only [storeEntry] at h
  cases hwrite : atomicWriteTextFile f path (profileText lib (recorded fingerprint success root)) w with
  | mk error w₁ =>
    obtain ⟨-, hspec⟩ := atomicWriteTextFile_spec hwrite
    rw [recorded] at hwrite
    rw [hwrite] at h
    cases error with
    | some error =>
      obtain ⟨rfl, rfl⟩ := Prod.mk.inj h
      exact hfile.same (by simpa using hspec)
    | none =>
      obtain ⟨rfl, rfl⟩ := Prod.mk.inj h
      rw [if_pos rfl] at hspec
      refine ⟨profileText lib (recorded fingerprint success root), ?_, lib.parse_line hroot⟩
      rw [← hspec.named path, Disk.set_self]

/-- One call of `save_profile_success`, and which of its writes fail. -/
structure ProfileCall where
  fingerprint : String
  success : ProfileSuccess
  write : WriteFaults := {}

def ProfileCall.run (lib : FileLibrary) (path : String) (call : ProfileCall) (w : World) :
    Except String (Option String) × World :=
  saveProfileSuccess lib { write := call.write } path call.fingerprint call.success w

def ProfileCall.step (lib : FileLibrary) (path : String) (w : World) (call : ProfileCall) :
    Option World :=
  some (call.run lib path w).2

/-- What a call that reports no error has made of the networks. -/
structure Saved (lib : FileLibrary) (path : String) (call : ProfileCall) (root root' : Fields)
    (d d' : Disk) : Prop where
  holds : HoldsProfile lib path root' d'
  others : ∀ fingerprint, fingerprint ≠ call.fingerprint → root'.lookup fingerprint = root.lookup fingerprint
  unknown : ∀ key, key ∉ entryKeys →
    ((entryOf root' call.fingerprint).getD []).lookup key =
      ((entryOf root call.fingerprint).getD []).lookup key
  /-- but for the streak, the entry loaded is what the success makes of the entry loaded before -/
  loaded : ∃ entry, loadProfile lib {} path call.fingerprint d' = some entry ∧
    entry = { ((loadProfile lib {} path call.fingerprint d).getD {}).after call.success with
      pathStreak := entry.pathStreak }
  /-- and so is the streak when the path is not empty -/
  streak : call.success.path ≠ "" → loadProfile lib {} path call.fingerprint d' =
    some (((loadProfile lib {} path call.fingerprint d).getD {}).after call.success)

/-- No count is negative or more than an `int`. -/
structure NetworkProfileEntry.InRange (entry : NetworkProfileEntry) : Prop where
  successCount : 0 ≤ entry.successCount ∧ entry.successCount ≤ intMax
  pathStreak : 0 ≤ entry.pathStreak ∧ entry.pathStreak ≤ intMax
  samePortAttempts : 0 ≤ entry.samePortAttempts ∧ entry.samePortAttempts ≤ intMax
  samePortSuccesses : 0 ≤ entry.samePortSuccesses ∧ entry.samePortSuccesses ≤ intMax
  samePortFailureStreak : 0 ≤ entry.samePortFailureStreak ∧ entry.samePortFailureStreak ≤ intMax

theorem loadProfile_inRange {f : ReadFaults} {entry : NetworkProfileEntry}
    (h : loadProfile lib f path fingerprint d = some entry) : entry.InRange := by
  unfold loadProfile at h
  split at h
  · obtain ⟨fields, -, rfl⟩ := Option.map_eq_some_iff.mp h
    obtain ⟨hcount, hstreak, hattempts, hsuccesses, hfailures⟩ := readEntry_counts fields
    exact ⟨hcount, hstreak, hattempts, hsuccesses, hfailures⟩
  · cases h

theorem saved_recorded {call : ProfileCall} (hfile : HoldsProfile lib path root d)
    (hfile' : HoldsProfile lib path (recorded call.fingerprint call.success root) d') :
    Saved lib path call root (recorded call.fingerprint call.success root) d d' := by
  have hbefore : (loadProfile lib {} path call.fingerprint d).getD {} =
      readEntry ((entryOf root call.fingerprint).getD []) := by
    rw [hfile.loadProfile_eq]
    cases entryOf root call.fingerprint with
    | none => exact readEntry_nil.symm
    | some entry => rfl
  have hafter : loadProfile lib {} path call.fingerprint d' =
      some (readEntry (recordSuccess call.success ((entryOf root call.fingerprint).getD []))) := by
    rw [hfile'.loadProfile_eq, entryOf_recorded_self, Option.map_some]
  refine ⟨hfile', fun fingerprint hne => KeyMap.lookup_assign_of_ne hne _ _, ?_, ?_, ?_⟩
  · intro key hkey
    rw [entryOf_recorded_self, Option.getD_some]
    exact differs_recordSuccess call.success _ key hkey
  · refine ⟨_, hafter, ?_⟩
    rw [hbefore, readEntry_recordSuccess]
  · intro hpath
    rw [hafter, hbefore, readEntry_recordSuccess_of_path _ _ hpath]

theorem ProfileCall.run_saved {call : ProfileCall} {result : Except String (Option String)}
    (hfile : HoldsProfile lib path root w.now) (h : call.run lib path w = (result, w')) :
    match result with
    | .error _ => HoldsProfile lib path root w'.now
    | .ok _ => Saved lib path call root (recorded call.fingerprint call.success root) w.now w'.now := by
  have hholds := saveProfileSuccess_holds hfile h
  cases result with
  | error error => exact hholds
  | ok warning => exact saved_recorded hfile hholds

/-- Every call finds a profile file. -/
theorem ProfileCall.reach_holds {w₀ : World} (hfile : HoldsProfile lib path root w₀.now)
    (h : Lts.Reach (ProfileCall.step lib path) w₀ w) : ∃ root, HoldsProfile lib path root w.now := by
  refine h.invariant (I := fun w : World => ∃ root, HoldsProfile lib path root w.now) ⟨root, hfile⟩ ?_
  intro w w' call hholds _ hstep
  obtain ⟨root, hroot⟩ := hholds
  obtain rfl := Option.some.inj hstep
  have hrun := saveProfileSuccess_holds hroot (rfl : call.run lib path w = ((call.run lib path w).1, _))
  exact ⟨_, hrun⟩

/-- **A saved success is local, and counts.** After any calls on a profile file: a call that
    reports an error leaves the networks as they were. One that does not leaves the others, and
    every unknown field, as they were, and `load_profile` returns what it returned before with the
    success counted. No count that it returns is negative. -/
theorem save_profile_local (lib : FileLibrary) {path : String} {root : Fields} {w₀ w : World}
    (hfile : HoldsProfile lib path root w₀.now)
    (h : Lts.Reach (ProfileCall.step lib path) w₀ w) :
    ∃ root, HoldsProfile lib path root w.now ∧
      (∀ call : ProfileCall,
        match call.run lib path w with
        | (.error _, w') => HoldsProfile lib path root w'.now
        | (.ok _, w') => ∃ root', Saved lib path call root root' w.now w'.now) ∧
      ∀ fingerprint entry, loadProfile lib {} path fingerprint w.now = some entry → entry.InRange := by
  obtain ⟨root, hroot⟩ := ProfileCall.reach_holds hfile h
  refine ⟨root, hroot, ?_, fun fingerprint entry hload => loadProfile_inRange hload⟩
  intro call
  cases hrun : call.run lib path w with
  | mk result w' =>
    have hsaved := ProfileCall.run_saved hroot hrun
    cases result with
    | error error => exact hsaved
    | ok warning => exact Exists.intro _ hsaved

/-- A call whose write meets no fault reports no error. -/
theorem ProfileCall.run_ok {call : ProfileCall} (hfile : HoldsProfile lib path root w.now)
    (hpath : path ≠ "" ∧ filename path ≠ "") (hfaults : call.write = {})
    (hfresh : w.now.nodes (.temporary path w.now.serial) = none) :
    ∃ warning, (call.run lib path w).1 = .ok warning := by
  have hwrite := atomicWriteTextFile_succeeds hpath hfresh
    (profileText lib (recorded call.fingerprint call.success root))
  rw [ProfileCall.run, saveProfileSuccess, hfile.loadProfileRoot_eq, hfaults]
  simp only [storeEntry]
  rw [recorded] at hwrite
  generalize atomicWriteTextFile _ _ _ _ = result at hwrite
  obtain ⟨error, w'⟩ := result
  obtain rfl : error = none := hwrite
  exact ⟨_, rfl⟩

/-! ### Many calls -/

/-- The calls made one after another: those that reported no error, and the world after them. -/
def ProfileCall.runAll (lib : FileLibrary) (path : String) :
    List ProfileCall → World → List ProfileCall × World
  | [], w => ([], w)
  | call :: calls, w =>
    match call.run lib path w with
    | (.error _, w) => runAll lib path calls w
    | (.ok _, w) => ((call :: (runAll lib path calls w).1), (runAll lib path calls w).2)

/-- What `load_profile` returns for one network, after a saved success. -/
def tally (fingerprint : String) (entry : Option NetworkProfileEntry) (call : ProfileCall) :
    Option NetworkProfileEntry :=
  if call.fingerprint = fingerprint then some ((entry.getD {}).after call.success) else entry

/-- After any calls, none with an empty path: what is loaded for a network is what was loaded at
    first with the successes counted that were saved for it. -/
theorem loadProfile_runAll {calls : List ProfileCall} (hfile : HoldsProfile lib path root w.now)
    (hpath : ∀ call ∈ calls, call.success.path ≠ "") :
    loadProfile lib {} path fingerprint (ProfileCall.runAll lib path calls w).2.now =
      (ProfileCall.runAll lib path calls w).1.foldl (tally fingerprint)
        (loadProfile lib {} path fingerprint w.now) := by
  induction calls generalizing root w with
  | nil => rfl
  | cons call calls ih =>
    have hrest : ∀ c ∈ calls, c.success.path ≠ "" := fun c hc => hpath c (List.mem_cons_of_mem _ hc)
    unfold ProfileCall.runAll
    cases hrun : call.run lib path w with
    | mk result w' =>
      have hsaved := ProfileCall.run_saved hfile hrun
      cases result with
      | error error =>
        have hkeep : HoldsProfile lib path root w'.now := hsaved
        have hsame : loadProfile lib {} path fingerprint w'.now =
            loadProfile lib {} path fingerprint w.now := by
          rw [hkeep.loadProfile_eq, hfile.loadProfile_eq]
        simpa only [hsame] using ih hkeep hrest
      | ok warning =>
        have hsaved : Saved lib path call root _ w.now w'.now := hsaved
        have htally : loadProfile lib {} path fingerprint w'.now =
            tally fingerprint (loadProfile lib {} path fingerprint w.now) call := by
          unfold tally
          by_cases hfp : call.fingerprint = fingerprint
          · rw [if_pos hfp, ← hfp]
            exact hsaved.streak (hpath call List.mem_cons_self)
          · rw [if_neg hfp, hsaved.holds.loadProfile_eq, hfile.loadProfile_eq, entryOf, entryOf,
              hsaved.others fingerprint (Ne.symm hfp)]
        simpa only [List.foldl_cons, ← htally] using ih hsaved.holds hrest

end Files

/-! ### Two saves -/

/-- A profile file in the working directory, and nothing else. -/
def sampleProfile (root : Fields) : World where
  now := Disk.start fun name =>
    if name = "profile.json" then some (.regular (profileText compactFile root) true) else none

theorem sampleProfile_holds {root : Fields} (h : Plain (.object root)) :
    HoldsProfile compactFile "profile.json" root (sampleProfile root).now :=
  ⟨_, rfl, compactFile.parse_line (.of_plain h)⟩

/-- A direct connection, in a network that the file does not know. -/
def sampleCall : ProfileCall where
  fingerprint := "192.168.1.7"
  success := { path := "direct", punch := some { samePortAttempts := 2, samePortSuccesses := 1 } }

theorem plain_empty : Plain (.object []) := .object KeyMap.isMap_nil nofun

theorem save_profile_local_sample : ∃ root,
    HoldsProfile compactFile "profile.json" root
        (sampleCall.run compactFile "profile.json" (sampleProfile [])).2.now ∧
      (∀ call : ProfileCall,
        match call.run compactFile "profile.json"
          (sampleCall.run compactFile "profile.json" (sampleProfile [])).2 with
        | (.error _, w') => HoldsProfile compactFile "profile.json" root w'.now
        | (.ok _, w') => ∃ root', Saved compactFile "profile.json" call root root'
            (sampleCall.run compactFile "profile.json" (sampleProfile [])).2.now w'.now) ∧
      ∀ fingerprint entry, loadProfile compactFile {} "profile.json" fingerprint
        (sampleCall.run compactFile "profile.json" (sampleProfile [])).2.now = some entry →
        entry.InRange :=
  save_profile_local compactFile (sampleProfile_holds plain_empty) (.tail .refl trivial rfl)

/-- An entry with five successes on an empty path and no streak, as its fields. -/
def unpathed : Fields := [("last_path", .string ""), ("success_count", .number 5)]

/-- A success on the empty path, with a same-port success but no attempt. -/
def unpathedCall : ProfileCall where
  fingerprint := "192.168.1.7"
  success := { path := "", punch := some { samePortSuccesses := 1 } }

/-- The streak that was loaded as 0 is loaded as 6 after one more success on the path, and the
    same-port success is not counted. -/
theorem save_profile_uncounted :
    ∃ before after : NetworkProfileEntry,
      (∃ warning, (unpathedCall.run compactFile "profile.json"
        (sampleProfile [("192.168.1.7", .object unpathed)])).1 = .ok warning) ∧
      loadProfile compactFile {} "profile.json" "192.168.1.7"
        (sampleProfile [("192.168.1.7", .object unpathed)]).now = some before ∧
      loadProfile compactFile {} "profile.json" "192.168.1.7"
        (unpathedCall.run compactFile "profile.json"
          (sampleProfile [("192.168.1.7", .object unpathed)])).2.now = some after ∧
      before.lastPath = unpathedCall.success.path ∧ before.pathStreak = 0 ∧ after.pathStreak = 6 ∧
      before.samePortSuccesses = 0 ∧ after.samePortSuccesses = 0 := by
  have hplain : Plain (.object [("192.168.1.7", .object unpathed)]) :=
    plain_of_isPlain _ (by decide)
  have hfile := sampleProfile_holds hplain
  obtain ⟨warning, hok⟩ : ∃ warning, (unpathedCall.run compactFile "profile.json"
      (sampleProfile [("192.168.1.7", .object unpathed)])).1 = .ok warning :=
    ProfileCall.run_ok hfile (by decide) rfl rfl
  cases hrun : unpathedCall.run compactFile "profile.json"
      (sampleProfile [("192.168.1.7", .object unpathed)]) with
  | mk result w' =>
    rw [hrun] at hok
    obtain rfl : result = .ok warning := hok
    have hsaved : Saved _ _ unpathedCall _ _ _ w'.now := ProfileCall.run_saved hfile hrun
    refine ⟨readEntry unpathed, readEntry (recordSuccess unpathedCall.success unpathed), ⟨_, rfl⟩,
      hfile.loadProfile_eq _, hsaved.holds.loadProfile_eq _ |>.trans ?_, rfl, rfl, rfl, rfl, rfl⟩
    rw [show "192.168.1.7" = unpathedCall.fingerprint from rfl, entryOf_recorded_self]
    rfl

end Settings
end Kiko
