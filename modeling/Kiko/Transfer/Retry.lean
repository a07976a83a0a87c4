import Kiko.Core.PairingCode
import Kiko.Transfer.Reconnect

/-!
# Attempts (`transfer/transfer`, `transfer/transfer_retry`)

`run_send` and `run_recv` are one loop around an attempt: an error that a broken connection explains is
reported, slept over and tried again, up to a number of attempts and with one pairing code for all of
them. Another thread may cancel at any moment, and what an attempt does to the world and how it ends is
whatever it is; the loop is a machine whose labels are the three.

`Tried` says where the loop stands in terms of how its attempts have ended. For a receiver the world is its
disk, and with what broken attempts leave of a file the loop is a transfer that survives them
(`run_recv_resumes`).

The source tells errors by their texts: what a library has thrown is searched for words. So the texts are
part of the model, and an error that is worded otherwise would be tried again, or not, by accident;
`closed_retryable_iff` is a place where that shows.
-/

set_option autoImplicit false

namespace Kiko.Transfer

open Lexical FileTree Dialogue

/-! ## Errors that are tried again

The fatal words are looked for first, so a message with words of both kinds is not tried again. -/

def containsAny (text : List Char) (needles : List String) : Bool :=
  needles.any fun needle => needle.toList <:+: text

/-- What no other attempt would mend. -/
def fatalNeedles : List String :=
  ["bad_password", "bad password", "invalid_hello", "invalid hello", "rendezvous peer", "pairing code",
    "control message field", "invalid relay", "connection count exceeds maximum", "not a file or directory",
    "permission denied", "failed to open input file", "failed to open output file", "failed to open received file",
    "failed to write received file", "failed to flush received file", "failed to close received file",
    "failed to create symlink", "failed to finalize file", "write failed during mux receive",
    "integrity check failed", "sha256 mismatch", "hash mismatch", "invalid resume ack",
    "received more data than declared", "received file size mismatch",
    "failed to inspect free space for receive directory", "not enough free space to receive files",
    "path traversal", "unsafe symlink", "transfer manifest", "receive plan", "file header"]

def retryableNeedles : List String :=
  ["connection reset", "connection refused", "connection timed", "connection timeout", "connection aborted",
    "connection closed", "connection lost", "connection interrupted", "connection attempt failed",
    "connection was aborted", "forcibly closed", "actively refused", "operation aborted",
    "operation has been aborted", "network name is no longer available", "broken pipe", "timed out", "timeout",
    "ended unexpectedly", "closed early", "failed to connect", "connect failed", "relay did not",
    "relay route error", "recv failed", "send failed", "data channel closed",
    "mux receive failed: data channel closed early", "expected mux chunk end",
    "transfer stream ended unexpectedly", "expected transfer ack", "interrupted"]

def isRetryableTransferErrorMessage (message : String) : Bool :=
  let text := message.toList.map toLower
  if containsAny text fatalNeedles then false else containsAny text retryableNeedles

theorem streamEnded_retryable : isRetryableTransferErrorMessage streamEnded = true := by decide +kernel

theorem resumeAck_fatal : isRetryableTransferErrorMessage "expected resume ack" = false := by decide +kernel

/-- **A receiver whose stream closes is tried again, unless it waits for an answer.** -/
theorem closed_retryable_iff {codec : StreamCodec} {r : StreamRecv codec} {error : KikoError}
    (hlive : r.pc.over = false) (h : r.closed.pc = .thrown error) :
    isRetryableTransferErrorMessage error = true ↔ ∀ p, r.pc ≠ .await p := by
  unfold StreamRecv.closed at h
  cases hpc : r.pc with
  | finished =>
    rw [hpc] at hlive
    cases hlive
  | thrown e =>
    rw [hpc] at hlive
    cases hlive
  | await p =>
    rw [hpc] at h
    obtain rfl := StreamPc.thrown.inj h
    exact iff_of_false (Bool.eq_false_iff.mp resumeAck_fatal) fun hne => hne p rfl
  | _ =>
    rw [hpc] at h
    obtain rfl := StreamPc.thrown.inj h
    exact iff_of_true streamEnded_retryable fun p hp => nomatch hp

/-! ## The loop

An attempt is one label, with a result that is left open. A cancellation is another label and may come
between any two; the source looks for it at the head of a round and in the slices of a sleep. -/

/-- What the loop reads of `SendConfig` and `RecvConfig`. -/
structure ReconnectConfig where
  code : String
  autoReconnect : Bool := true
  reconnectAttempts : Int := 3
  /-- in milliseconds -/
  reconnectDelay : Int := 1000

namespace ReconnectConfig

variable (config : ReconnectConfig)

/-- The code of all attempts; a sender without one takes what `random_code` gives. -/
def settledCode (generateCode : Bool) (randomCode : String) : Except KikoError String :=
  let code := if generateCode ∧ config.code = "" then randomCode else normalizePairingCode config.code
  match validatePairingCodeFormat code true with
  | some error => .error error
  | none => .ok code

def maxAttempts : Int := if config.autoReconnect then max 1 config.reconnectAttempts else 1

end ReconnectConfig

/-- A code that is settled on has passed, and a receiver's is the one it was given. -/
theorem settledCode_ok {config : ReconnectConfig} {randomCode code : String}
    (h : config.settledCode false randomCode = .ok code) :
    code = normalizePairingCode config.code ∧ validatePairingCodeFormat code true = none := by
  simp only [ReconnectConfig.settledCode, Bool.false_eq_true, false_and, if_false] at h
  cases hvalid : validatePairingCodeFormat (normalizePairingCode config.code) true with
  | some error =>
    rw [hvalid] at h
    cases h
  | none =>
    rw [hvalid] at h
    obtain rfl := Except.ok.inj h
    exact ⟨rfl, hvalid⟩

/-- What `throw_if_cancelled` throws. -/
def transferCanceled : KikoError := "transfer canceled"

/-- The slices of `wait_with_cancellation`. -/
def pollInterval : Int := 50

inductive RetryReport
  | retry (nextAttempt maxAttempts : Int) (reason : KikoError)
  | delay (nextAttempt maxAttempts delay : Int)
deriving DecidableEq

/-- Where `run_with_auto_reconnect` stands. -/
inductive ReconnectPc
  /-- at the top of the body -/
  | attempt
  | runOnce
  | caught (error : KikoError)
  | waiting (remaining : Int)
  | returned (rc : Int)
  | thrown (error : KikoError)
deriving DecidableEq

structure Reconnect (ω : Type) where
  world : ω
  /-- `config.code`, for every attempt -/
  code : String
  pc : ReconnectPc := .attempt
  attempt : Int := 1
  cancelled : Bool := false
  reports : List RetryReport := []
  /-- history: how the attempts have ended that did not return -/
  failed : List KikoError := []

inductive ReconnectLabel (ω : Type)
  /-- someone cancels -/
  | cancel
  /-- the loop goes on -/
  | move
  /-- `run_once` ends, with the world as it leaves it -/
  | ends (result : Except KikoError Int) (world : ω)

section Machine

variable {ω : Type} (config : ReconnectConfig)

/-- What comes before the loop. -/
def Reconnect.start (generateCode : Bool) (randomCode : String) (world : ω) : Except KikoError (Reconnect ω) :=
  (config.settledCode generateCode randomCode).map fun code => { world := world, code := code }

/-- The loop goes on. A request to cancel is never taken back. -/
def Reconnect.move (s : Reconnect ω) : Option (Reconnect ω) :=
  match s.pc with
  | .attempt => some { s with pc := if s.cancelled then .caught transferCanceled else .runOnce }
  | .caught error =>
    if s.cancelled then some { s with pc := .thrown transferCanceled }
    else if config.maxAttempts ≤ s.attempt ∨ isRetryableTransferErrorMessage error = false then
      some { s with pc := .thrown error }
    else
      some { s with
        pc := .waiting config.reconnectDelay
        reports := s.reports ++
          [.retry (s.attempt + 1) config.maxAttempts error,
            .delay (s.attempt + 1) config.maxAttempts config.reconnectDelay] }
  | .waiting remaining =>
    if s.cancelled then some { s with pc := .thrown transferCanceled }
    else if 0 < remaining then some { s with pc := .waiting (remaining - min remaining pollInterval) }
    else some { s with pc := .attempt, attempt := s.attempt + 1 }
  | _ => none

def Reconnect.step (s : Reconnect ω) : ReconnectLabel ω → Option (Reconnect ω)
  | .cancel => if s.cancelled then none else some { s with cancelled := true }
  | .move => s.move config
  | .ends result world =>
    if s.pc = .runOnce then
      match result with
      | .ok rc => some { s with pc := .returned rc, world := world }
      | .error e => some { s with pc := .caught e, world := world, failed := s.failed ++ [e] }
    else none

/-- How an attempt may end, and what it may make of the world. -/
abbrev AttemptRel (ω : Type) := ω → Except KikoError Int → ω → Prop

/-- Every attempt is one of these. -/
def RunOnce (Attempt : AttemptRel ω) (s : Reconnect ω) : ReconnectLabel ω → Prop
  | .ends result world => Attempt s.world result world
  | _ => True

/-- Attempts that did not return, one after the other. -/
inductive Failures (Attempt : AttemptRel ω) (w : ω) : List KikoError → ω → Prop
  | nil : Failures Attempt w [] w
  | concat {es : List KikoError} {e : KikoError} {w' w'' : ω} :
      Failures Attempt w es w' → Attempt w' (.error e) w'' → Failures Attempt w (es ++ [e]) w''

/-- What is reported of attempts that are followed by another. -/
def announced (es : List KikoError) : List RetryReport :=
  es.zipIdx.flatMap fun (e, i) =>
    [.retry (i + 2) config.maxAttempts e, .delay (i + 2) config.maxAttempts config.reconnectDelay]

theorem announced_concat (es : List KikoError) (e : KikoError) :
    announced config (es ++ [e]) = announced config es ++
      [.retry (es.length + 2) config.maxAttempts e,
        .delay (es.length + 2) config.maxAttempts config.reconnectDelay] := by
  simp [announced, List.zipIdx_append]

end Machine

/-! ## Where the loop stands

`Tried` is read off the run and not off the counters, and the counters are compared with it. It is what the
results about the loop are proved from. -/

section Run

variable {ω : Type} {config : ReconnectConfig} {Attempt : AttemptRel ω} {w : ω} {code : String} {s s' : Reconnect ω}

/-- The attempts so far: those that were followed by another, and how the last one stands. -/
inductive Tried (config : ReconnectConfig) (Attempt : AttemptRel ω) (w : ω) (code : String) : Reconnect ω → Prop
  /-- an attempt is made, or about to be -/
  | trying {es : List KikoError} {w' : ω} {pc : ReconnectPc} {cancelled : Bool} (hpc : pc = .attempt ∨ pc = .runOnce)
      (hfailures : Failures Attempt w es w') (hretried : ∀ e ∈ es, isRetryableTransferErrorMessage e = true)
      (hmore : es.length < config.maxAttempts) :
      Tried config Attempt w code
        { world := w', code := code, pc := pc, attempt := es.length + 1, cancelled := cancelled, reports := announced config es
          failed := es }
  /-- an attempt has failed -/
  | failed {es : List KikoError} {e : KikoError} {w' : ω} {pc : ReconnectPc} {cancelled : Bool}
      (hpc : pc = .caught e ∨
        (pc = .thrown e ∧ (config.maxAttempts ≤ es.length + 1 ∨ isRetryableTransferErrorMessage e = false)))
      (hfailures : Failures Attempt w (es ++ [e]) w')
      (hretried : ∀ e ∈ es, isRetryableTransferErrorMessage e = true) (hmore : es.length < config.maxAttempts) :
      Tried config Attempt w code
        { world := w', code := code, pc := pc, attempt := es.length + 1, cancelled := cancelled, reports := announced config es
          failed := es ++ [e] }
  /-- and is to be followed by another -/
  | waiting {es : List KikoError} {e : KikoError} {w' : ω} {remaining : Int} {cancelled : Bool}
      (hfailures : Failures Attempt w (es ++ [e]) w')
      (hretried : ∀ e' ∈ es ++ [e], isRetryableTransferErrorMessage e' = true)
      (hmore : es.length + 1 < config.maxAttempts) :
      Tried config Attempt w code
        { world := w', code := code, pc := .waiting remaining, attempt := es.length + 1, cancelled := cancelled
          reports := announced config (es ++ [e]), failed := es ++ [e] }
  | returned {es : List KikoError} {rc : Int} {w' w'' : ω} {cancelled : Bool} (hfailures : Failures Attempt w es w')
      (hlast : Attempt w' (.ok rc) w'') (hretried : ∀ e ∈ es, isRetryableTransferErrorMessage e = true)
      (hmore : es.length < config.maxAttempts) :
      Tried config Attempt w code
        { world := w'', code := code, pc := .returned rc, attempt := es.length + 1, cancelled := cancelled
          reports := announced config es, failed := es }
  /-- nobody wants it any more -/
  | stopped {es followed : List KikoError} {w' : ω} {pc : ReconnectPc} {attempt : Int}
      (hpc : pc = .caught transferCanceled ∨ pc = .thrown transferCanceled) (hfailures : Failures Attempt w es w')
      (hretried : ∀ e ∈ es.dropLast, isRetryableTransferErrorMessage e = true)
      (hfollowed : followed = es ∨ followed = es.dropLast) (hmore : es.length ≤ config.maxAttempts) :
      Tried config Attempt w code
        { world := w', code := code, pc := pc, attempt := attempt, cancelled := true, reports := announced config followed
          failed := es }

theorem start_ok {generateCode : Bool} {randomCode : String}
    (h : Reconnect.start config generateCode randomCode w = .ok s) :
    ∃ code, config.settledCode generateCode randomCode = .ok code ∧ s = { world := w, code := code } := by
  unfold Reconnect.start at h
  cases hsettled : config.settledCode generateCode randomCode with
  | error e =>
    rw [hsettled] at h
    cases h
  | ok code =>
    rw [hsettled] at h
    exact ⟨code, rfl, (Except.ok.inj h).symm⟩

theorem maxAttempts_pos (config : ReconnectConfig) : 0 < config.maxAttempts := by
  unfold ReconnectConfig.maxAttempts
  split_ifs
  · exact Int.lt_of_lt_of_le Int.zero_lt_one (Int.le_max_left ..)
  · exact Int.zero_lt_one

theorem tried_start : Tried config Attempt w code { world := w, code := code } :=
  .trying (.inl rfl) .nil (fun _ h => nomatch h) (maxAttempts_pos config)

theorem retried_concat {es : List KikoError} {e : KikoError}
    (hes : ∀ e ∈ es, isRetryableTransferErrorMessage e = true) (he : isRetryableTransferErrorMessage e = true) :
    ∀ e' ∈ es ++ [e], isRetryableTransferErrorMessage e' = true := by
  intro e' hmem
  rcases List.mem_append.mp hmem with hbefore | hlast
  · exact hes e' hbefore
  · rw [List.mem_singleton.mp hlast]
    exact he

/-- The loop has moved. -/
theorem tried_move (h : Tried config Attempt w code s) (hs : s.move config = some s') : Tried config Attempt w code s' := by
  cases h with
  | @trying es w' pc cancelled hpc hfailures hretried hmore =>
    rcases hpc with rfl | rfl
    · cases cancelled with
      | false =>
        cases hs
        exact .trying (.inr rfl) hfailures hretried hmore
      | true =>
        cases hs
        exact .stopped (.inl rfl) hfailures (fun e he => hretried e (List.dropLast_subset es he)) (.inl rfl)
          (Int.le_of_lt hmore)
    · cases hs
  | @failed es e w' pc cancelled hpc hfailures hretried hmore =>
    rcases hpc with rfl | ⟨rfl, -⟩
    · simp only [Reconnect.move] at hs
      split_ifs at hs with hcancelled hlast
      · obtain rfl := Option.some.inj hs
        obtain rfl : cancelled = true := hcancelled
        refine .stopped (.inr rfl) hfailures (fun e he => hretried e ?_) (.inr ?_) ?_
        · rwa [List.dropLast_concat] at he
        · rw [List.dropLast_concat]
        · rw [List.length_append, List.length_singleton]
          exact Int.add_one_le_of_lt hmore
      · obtain rfl := Option.some.inj hs
        exact .failed (.inr ⟨rfl, hlast⟩) hfailures hretried hmore
      · obtain rfl := Option.some.inj hs
        obtain ⟨hagain, hretry⟩ := not_or.mp hlast
        have hreports := announced_concat config es e
        rw [show (es.length : Int) + 2 = es.length + 1 + 1 by omega] at hreports
        rw [← hreports]
        refine .waiting hfailures (retried_concat hretried ?_) (Int.not_le.mp hagain)
        rwa [Bool.not_eq_false] at hretry
    · cases hs
  | @waiting es e w' remaining cancelled hfailures hretried hmore =>
    simp only [Reconnect.move] at hs
    split_ifs at hs with hcancelled hleft
    · obtain rfl := Option.some.inj hs
      obtain rfl : cancelled = true := hcancelled
      refine .stopped (.inr rfl) hfailures (fun e' he => hretried e' (List.dropLast_subset _ he)) (.inl rfl) ?_
      rw [List.length_append, List.length_singleton]
      exact Int.le_of_lt hmore
    · obtain rfl := Option.some.inj hs
      exact .waiting hfailures hretried hmore
    · obtain rfl := Option.some.inj hs
      have hlength : ((es ++ [e]).length : Int) = es.length + 1 := by
        rw [List.length_append, List.length_singleton]
        rfl
      rw [← hlength]
      exact .trying (.inl rfl) hfailures hretried (hlength ▸ hmore)
  | returned => cases hs
  -- the loop throws, and then moves no more
  | stopped hpc hfailures hretried hfollowed hmore =>
    rcases hpc with rfl | rfl
    · cases hs
      exact .stopped (.inr rfl) hfailures hretried hfollowed hmore
    · cases hs

/-- An attempt has ended. -/
theorem tried_ends (h : Tried config Attempt w code s) {result : Except KikoError Int} {world : ω}
    (hattempt : Attempt s.world result world) (hs : s.step config (.ends result world) = some s') :
    Tried config Attempt w code s' := by
  simp only [Reconnect.step] at hs
  split_ifs at hs with hrun
  cases h with
  | trying hpc hfailures hretried hmore =>
    cases result with
    | ok rc =>
      cases hs
      exact .returned hfailures hattempt hretried hmore
    | error e =>
      cases hs
      exact .failed (.inl rfl) (.concat hfailures hattempt) hretried hmore
  | failed hpc =>
    rcases hpc with rfl | ⟨rfl, -⟩
    · cases hrun
    · cases hrun
  | waiting => cases hrun
  | returned => cases hrun
  | stopped hpc =>
    rcases hpc with rfl | rfl
    · cases hrun
    · cases hrun

/-- **What one step does to the attempts so far.** -/
theorem tried_step {l : ReconnectLabel ω} (h : Tried config Attempt w code s) (hg : RunOnce Attempt s l)
    (hs : s.step config l = some s') : Tried config Attempt w code s' := by
  cases l with
  | cancel =>
    simp only [Reconnect.step] at hs
    split_ifs at hs with hcancelled
    obtain rfl := Option.some.inj hs
    cases h with
    | trying hpc hfailures hretried hmore => exact .trying hpc hfailures hretried hmore
    | failed hpc hfailures hretried hmore => exact .failed hpc hfailures hretried hmore
    | waiting hfailures hretried hmore => exact .waiting hfailures hretried hmore
    | returned hfailures hlast hretried hmore => exact .returned hfailures hlast hretried hmore
    | stopped => exact absurd rfl hcancelled
  | move => exact tried_move h hs
  | ends result world => exact tried_ends h hg hs

theorem reach_tried (h : Lts.ReachUnder (Reconnect.step config) (RunOnce Attempt) { world := w, code := code } s) :
    Tried config Attempt w code s :=
  h.invariant tried_start fun htried hg hs => tried_step htried hg hs

end Run

section Run

variable {ω : Type} {config : ReconnectConfig} {Attempt : AttemptRel ω} {s s' : Reconnect ω}

/-- How far the body has to go. -/
def ReconnectPc.left : ReconnectPc → Nat
  | .attempt => 4
  | .runOnce => 3
  | .caught _ => 2
  | .waiting _ => 1
  | .returned _ | .thrown _ => 0

/-- The sleep that is left. -/
def ReconnectPc.remaining : ReconnectPc → Nat
  | .waiting remaining => remaining.toNat
  | _ => 0

/-- Another attempt is waited for only where one is left. -/
def Room (config : ReconnectConfig) (s : Reconnect ω) : Prop :=
  ∀ remaining, s.pc = .waiting remaining → s.attempt < config.maxAttempts

/-- Each step takes something away: an attempt, a part of the body, a slice of the sleep, or the chance to cancel. -/
def Reconnect.measure (config : ReconnectConfig) (s : Reconnect ω) : ℕ ×ₗ ℕ ×ₗ ℕ ×ₗ ℕ :=
  toLex ((config.maxAttempts - s.attempt).toNat, toLex (s.pc.left, toLex (s.pc.remaining, if s.cancelled then 0 else 1)))

theorem measure_lt_of_left {pc : ReconnectPc} (hpc : s.pc = pc) (hattempt : s'.attempt = s.attempt)
    (hleft : s'.pc.left < pc.left) : s'.measure config < s.measure config := by
  subst hpc
  rw [Reconnect.measure, Reconnect.measure, hattempt]
  exact Prod.Lex.toLex_lt_toLex.mpr (.inr ⟨rfl, Prod.Lex.toLex_lt_toLex.mpr (.inl hleft)⟩)

theorem step_lowers {l : ReconnectLabel ω} (hroom : Room config s) (hs : s.step config l = some s') :
    Room config s' ∧ s'.measure config < s.measure config := by
  cases l with
  -- a cancellation does not touch what is left to be done
  | cancel =>
    simp only [Reconnect.step] at hs
    split_ifs at hs with hcancelled
    obtain rfl := Option.some.inj hs
    refine ⟨hroom, ?_⟩
    simp [Reconnect.measure, hcancelled, Prod.Lex.toLex_lt_toLex]
  -- behind an attempt the loop has less to do than in it
  | ends result world =>
    simp only [Reconnect.step] at hs
    split_ifs at hs with hrun
    cases result with
    | ok rc =>
      obtain rfl := Option.some.inj hs
      exact ⟨(fun r hr => nomatch hr), measure_lt_of_left hrun rfl (Nat.zero_lt_succ _)⟩
    | error e =>
      obtain rfl := Option.some.inj hs
      exact ⟨(fun r hr => nomatch hr), measure_lt_of_left hrun rfl (Nat.lt_succ_self _)⟩
  | move =>
    simp only [Reconnect.step, Reconnect.move] at hs
    cases hpc : s.pc with
    | attempt =>
      rw [hpc] at hs
      obtain rfl := Option.some.inj hs
      refine ⟨fun r hr => ?_, measure_lt_of_left hpc rfl ?_⟩
      · dsimp only at hr
        split_ifs at hr
      · dsimp only
        split_ifs
        · exact show 2 < 4 by omega
        · exact show 3 < 4 by omega
    | caught e =>
      rw [hpc] at hs
      dsimp only at hs
      split_ifs at hs with hcancelled hlast
      · obtain rfl := Option.some.inj hs
        exact ⟨(fun r hr => nomatch hr), measure_lt_of_left hpc rfl (Nat.zero_lt_succ _)⟩
      · obtain rfl := Option.some.inj hs
        exact ⟨(fun r hr => nomatch hr), measure_lt_of_left hpc rfl (Nat.zero_lt_succ _)⟩
      · obtain rfl := Option.some.inj hs
        exact ⟨fun r _ => Int.not_le.mp (not_or.mp hlast).1, measure_lt_of_left hpc rfl (Nat.lt_succ_self _)⟩
    | waiting remaining =>
      rw [hpc] at hs
      dsimp only at hs
      split_ifs at hs with hcancelled hleft
      · obtain rfl := Option.some.inj hs
        exact ⟨(fun r hr => nomatch hr), measure_lt_of_left hpc rfl (Nat.zero_lt_succ _)⟩
      · obtain rfl := Option.some.inj hs
        refine ⟨fun r _ => hroom remaining hpc, Prod.Lex.toLex_lt_toLex.mpr (.inr ⟨rfl, ?_⟩)⟩
        refine Prod.Lex.toLex_lt_toLex.mpr (.inr ⟨by rw [hpc]; rfl, Prod.Lex.toLex_lt_toLex.mpr (.inl ?_)⟩)
        rw [hpc]
        show (remaining - min remaining pollInterval).toNat < remaining.toNat
        unfold pollInterval
        omega
      · obtain rfl := Option.some.inj hs
        refine ⟨(fun r hr => nomatch hr), Prod.Lex.toLex_lt_toLex.mpr (.inl ?_)⟩
        have hmore := hroom remaining hpc
        show (config.maxAttempts - (s.attempt + 1)).toNat < (config.maxAttempts - s.attempt).toNat
        omega
    | runOnce => rw [hpc] at hs; cases hs
    | returned rc => rw [hpc] at hs; cases hs
    | thrown e => rw [hpc] at hs; cases hs

/-- Whatever happens, the loop ends. -/
theorem reconnect_ends (config : ReconnectConfig) (w : ω) (code : String) :
    Lts.Ends (Reconnect.step config) { world := w, code := code } :=
  Lts.ends_of_measure (Reconnect.measure config) (I := Room config) step_lowers fun _ hr => nomatch hr

/-- Once it is cancelled no attempt begins. -/
theorem cancelled_step {l : ReconnectLabel ω} (h : s.cancelled = true ∧ s.pc ≠ .runOnce)
    (hs : s.step config l = some s') : s'.cancelled = true ∧ s'.pc ≠ .runOnce := by
  obtain ⟨hcancelled, hrun⟩ := h
  cases l with
  | cancel =>
    simp only [Reconnect.step] at hs
    rw [if_pos hcancelled] at hs
    cases hs
  | ends result world =>
    simp only [Reconnect.step] at hs
    rw [if_neg hrun] at hs
    cases hs
  | move =>
    simp only [Reconnect.step, Reconnect.move, hcancelled, if_true] at hs
    cases hpc : s.pc with
    | runOnce => exact absurd hpc hrun
    | attempt | caught e | waiting r =>
      rw [hpc] at hs
      obtain rfl := Option.some.inj hs
      exact ⟨rfl, fun h => nomatch h⟩
    | returned rc => rw [hpc] at hs; cases hs
    | thrown e => rw [hpc] at hs; cases hs

theorem cancelled_run {G : Reconnect ω → ReconnectLabel ω → Prop} (hcancelled : s.cancelled = true)
    (h : Lts.ReachUnder (Reconnect.step config) G s s') : s' = s ∨ (s'.cancelled = true ∧ s'.pc ≠ .runOnce) := by
  refine h.invariant (I := fun s' => s' = s ∨ (s'.cancelled = true ∧ s'.pc ≠ .runOnce)) (.inl rfl) ?_
  intro s₁ s₂ l hinv _ hs
  right
  rcases hinv with rfl | hinv
  · by_cases hrun : s₁.pc = .runOnce
    · cases l with
      | cancel =>
        simp only [Reconnect.step] at hs
        rw [if_pos hcancelled] at hs
        cases hs
      | move =>
        simp only [Reconnect.step, Reconnect.move, hrun] at hs
        cases hs
      | ends result world =>
        simp only [Reconnect.step] at hs
        rw [if_pos hrun] at hs
        cases result with
        | ok rc =>
          obtain rfl := Option.some.inj hs
          exact ⟨hcancelled, fun h => nomatch h⟩
        | error e =>
          obtain rfl := Option.some.inj hs
          exact ⟨hcancelled, fun h => nomatch h⟩
    · exact cancelled_step ⟨hcancelled, hrun⟩ hs
  · exact cancelled_step hinv hs

end Run

/-! ## A receiver that is tried again

The world is the disk. An attempt that is broken off leaves what `Kiko.Transfer.Reconnect` says, or nothing
new where it broke before. -/

section Receive

variable {env : ReceiveEnv} {source : Source env.prims} {target : FsPath} {d d' : Disk} {found : Bytes}

/-- `run_recv_once`, as far as the disk is concerned: it fails before anything is received, its transfer is broken off
    before the file is there, or it comes to its end over a stream or over many channels. -/
inductive RunRecvOnce (env : ReceiveEnv) (source : Source env.prims) (target : FsPath) :
    Disk → Except KikoError Int → Disk → Prop
  | unmet {d d' : Disk} (error : KikoError) (htree : d'.tree = d.tree) : RunRecvOnce env source target d (.error error) d'
  | broken {d d' : Disk} {n : Nat} (error : KikoError) (hbroken : Broken env source target d n d') :
      RunRecvOnce env source target d (.error error) d'
  | stream {d : Disk} (codec : StreamCodec) (capDown capUp : Option Nat) (s : StreamTransfer.System env codec) (l : Loop)
      (hdown : ∀ c, capDown = some c → 0 < c) (hup : ∀ c, capUp = some c → 0 < c)
      (hreach : Lts.Reach (StreamTransfer.step capDown capUp) (StreamTransfer.init codec [source] d) s)
      (hreturned : s.recv.outcome = some (.ok l)) : RunRecvOnce env source target d (.ok 0) l.disk
  | mux {d : Disk} (codec : BlockCodec) (m : Nat) (capDown : Fin (m + 1) → Option Nat) (capUp : Option Nat)
      (s : MuxTransfer.System env m) (l : Loop) (hdown : ∀ k c, capDown k = some c → 0 < c)
      (hup : ∀ c, capUp = some c → 0 < c)
      (hreach : Lts.Reach (MuxTransfer.step codec capDown capUp) (MuxTransfer.init m [source] d) s)
      (hreturned : s.recv.outcome = some (.ok l)) : RunRecvOnce env source target d (.ok 0) l.disk

/-- An attempt that returns has delivered the file. -/
theorem Leftover.run_recv_ok (h : Leftover env source d target found)
    (hdistinct : Distinct env.prims source.content found) {rc : Int}
    (hrun : RunRecvOnce env source target d (.ok rc) d') :
    ∃ l, l.disk = d' ∧ Delivered env source d.tree target l := by
  obtain ⟨l, hconclusion, hdelivered⟩ := h.conclusion hdistinct
  cases hrun with
  | stream codec capDown capUp s l' hdown hup hreach hreturned =>
    have honly := (stream_concludes env codec hdown hup [source] d).only s hreach _ hreturned
    rw [hconclusion] at honly
    obtain rfl := Except.ok.inj honly
    exact ⟨l', rfl, hdelivered⟩
  | mux codec m capDown capUp s l' hdown hup hreach hreturned =>
    have honly := (mux_concludes env codec hdown hup [source] d).only s hreach _ hreturned
    rw [hconclusion] at honly
    obtain rfl := Except.ok.inj honly
    exact ⟨l', rfl, hdelivered⟩

theorem Leftover.run_recv_error (h : Leftover env source d target found)
    (hdistinct : Distinct env.prims source.content found) {error : KikoError}
    (hrun : RunRecvOnce env source target d (.error error) d') :
    ∃ n found', Advance env source target d found n d' found' := by
  cases hrun with
  | unmet _ htree => exact ⟨0, found, h.advance_none hdistinct htree⟩
  | broken _ hbroken =>
    obtain ⟨found', hadvance⟩ := h.broken hdistinct hbroken
    exact ⟨_, found', hadvance⟩

theorem Abandoned.failures (h : Abandoned env source d target found)
    (hroom : env.HasSpace (source.entry.size - validOffset source.content found))
    (hdistinct : Distinct env.prims source.content found) {es : List KikoError}
    (hfailures : Failures (RunRecvOnce env source target) d es d') :
    ∃ n found', Advance env source target d found n d' found' := by
  induction hfailures with
  | nil => exact ⟨0, found, h.advance_none hdistinct rfl⟩
  | concat hbefore hlast ih =>
    obtain ⟨n, found', hadvance⟩ := ih
    have hleft := (h.rewritten hadvance.kept).leftover (hadvance.room hroom)
    obtain ⟨n', found'', hadvance'⟩ := hleft.run_recv_error hadvance.distinct hlast
    exact ⟨n + n', found'', h.advance_trans hadvance hadvance'⟩

/-- What the attempts so far say of the file. -/
theorem Tried.recv {config : ReconnectConfig} {code : String} {s : Reconnect Disk}
    (htried : Tried config (RunRecvOnce env source target) d code s) (h : Abandoned env source d target found)
    (hroom : env.HasSpace (source.entry.size - validOffset source.content found))
    (hdistinct : Distinct env.prims source.content found) :
    (s.failed.length ≤ config.maxAttempts ∧
      (∀ e ∈ s.failed.dropLast, isRetryableTransferErrorMessage e = true) ∧
      (s.reports = announced config s.failed ∨ s.reports = announced config s.failed.dropLast)) ∧
    s.code = code ∧
    (∀ rc, s.pc = .returned rc → ∃ l, l.disk = s.world ∧ Delivered env source d.tree target l) ∧
    ((∀ rc, s.pc ≠ .returned rc) → ∃ found', Leftover env source s.world target found' ∧
      validOffset source.content found ≤ validOffset source.content found') ∧
    ∀ e, s.pc = .thrown e → (s.cancelled = true ∧ e = transferCanceled) ∨
      (s.failed.getLast? = some e ∧
        (s.failed.length = config.maxAttempts ∨ isRetryableTransferErrorMessage e = false)) := by
  have hleft {es : List KikoError} {d' : Disk} (hfailures : Failures (RunRecvOnce env source target) d es d') :
      ∃ found', Leftover env source d' target found' ∧
        validOffset source.content found ≤ validOffset source.content found' := by
    obtain ⟨n, found', hadvance⟩ := h.failures hroom hdistinct hfailures
    exact ⟨found', (h.rewritten hadvance.kept).leftover (hadvance.room hroom), hadvance.offset ▸ Nat.le_add_right ..⟩
  cases htried with
  -- an attempt is being made: all before it were broken off
  | trying hpc hfailures hretried hmore =>
    refine ⟨⟨Int.le_of_lt hmore, fun e he => hretried e (List.dropLast_subset _ he), .inl rfl⟩, rfl, fun rc hrc => ?_,
      fun _ => hleft hfailures, fun e he => ?_⟩
    · rcases hpc with rfl | rfl <;> cases hrc
    · rcases hpc with rfl | rfl <;> cases he
  | @failed es e w' pc cancelled hpc hfailures hretried hmore =>
    have hlength : ((es ++ [e]).length : Int) = es.length + 1 := by
      rw [List.length_append, List.length_singleton]
      rfl
    refine ⟨⟨hlength ▸ Int.add_one_le_of_lt hmore, ?_, .inr ?_⟩, rfl, fun rc hrc => ?_, fun _ => hleft hfailures,
      fun e' he => ?_⟩
    · rw [List.dropLast_concat]
      exact hretried
    · rw [List.dropLast_concat]
    · rcases hpc with rfl | ⟨rfl, -⟩ <;> cases hrc
    · rcases hpc with rfl | ⟨rfl, hlast⟩
      · cases he
      · obtain rfl := ReconnectPc.thrown.inj he
        refine .inr ⟨List.getLast?_concat .., hlast.imp_left fun hnone => ?_⟩
        rw [hlength]
        exact Int.le_antisymm (Int.add_one_le_of_lt hmore) hnone
  | @waiting es e w' remaining cancelled hfailures hretried hmore =>
    refine ⟨⟨?_, fun e' he => hretried e' (List.dropLast_subset _ he), .inl rfl⟩, rfl, (fun rc hrc => nomatch hrc),
      fun _ => hleft hfailures, (fun e' he => nomatch he)⟩
    rw [List.length_append, List.length_singleton]
    exact Int.le_of_lt hmore
  -- the last attempt has found what the ones before it left
  | returned hfailures hlast hretried hmore =>
    obtain ⟨n, found', hadvance⟩ := h.failures hroom hdistinct hfailures
    have hleft := (h.rewritten hadvance.kept).leftover (hadvance.room hroom)
    obtain ⟨l, hl, hdelivered⟩ := hleft.run_recv_ok hadvance.distinct hlast
    exact ⟨⟨Int.le_of_lt hmore, fun e he => hretried e (List.dropLast_subset _ he), .inl rfl⟩, rfl,
      fun _ _ => ⟨l, hl, h.delivered_of_kept hadvance.kept hdelivered⟩, fun hne => absurd rfl (hne _),
      (fun e he => nomatch he)⟩
  | stopped hpc hfailures hretried hfollowed hmore =>
    refine ⟨⟨hmore, hretried, ?_⟩, rfl, fun rc hrc => ?_, fun _ => hleft hfailures, fun e he => .inl ⟨rfl, ?_⟩⟩
    · rcases hfollowed with rfl | rfl
      · exact .inl rfl
      · exact .inr rfl
    · rcases hpc with rfl | rfl <;> cases hrc
    · rcases hpc with rfl | rfl
      · cases he
      · exact (ReconnectPc.thrown.inj he).symm

end Receive

/-- **A transfer that is tried again survives what breaks it.** A partial file has been left, and there is space for what
    does not count of it. The loop around the attempts ends, whatever they do and
    whenever someone cancels; then no other attempt begins. All are made with one code, and no more of them than there
    may be; but for the last, each has failed with an error that is tried again, and that has been reported. When the
    loop returns, the file is at its target and nothing else has changed; until then what is there is as good as before
    or better, and the next call goes on from it. An error it throws is that of the last attempt, when none was left or
    none would mend it, or else it was cancelled. -/
theorem run_recv_resumes (env : ReceiveEnv) (source : Source env.prims) (d : Disk) (target : FsPath) (found : Bytes)
    (config : ReconnectConfig) (s₀ : Reconnect Disk) (h : Abandoned env source d target found)
    (hroom : env.HasSpace (source.entry.size - validOffset source.content found))
    (hdistinct : Distinct env.prims source.content found) (hstart : Reconnect.start config false "" d = .ok s₀) :
    Lts.Ends (Reconnect.step config) s₀ ∧
    ∀ s, Lts.ReachUnder (Reconnect.step config) (RunOnce (RunRecvOnce env source target)) s₀ s →
      (s.failed.length ≤ config.maxAttempts ∧
        (∀ e ∈ s.failed.dropLast, isRetryableTransferErrorMessage e = true) ∧
        (s.reports = announced config s.failed ∨ s.reports = announced config s.failed.dropLast)) ∧
      (s.code = normalizePairingCode config.code ∧ validatePairingCodeFormat s.code true = none) ∧
      (∀ rc, s.pc = .returned rc → ∃ l, l.disk = s.world ∧ Delivered env source d.tree target l) ∧
      ((∀ rc, s.pc ≠ .returned rc) → ∃ found', Leftover env source s.world target found' ∧
        validOffset source.content found ≤ validOffset source.content found') ∧
      (∀ e, s.pc = .thrown e → (s.cancelled = true ∧ e = transferCanceled) ∨
        (s.failed.getLast? = some e ∧
          (s.failed.length = config.maxAttempts ∨ isRetryableTransferErrorMessage e = false))) ∧
      (s.cancelled = true → ∀ s', Lts.ReachUnder (Reconnect.step config) (RunOnce (RunRecvOnce env source target)) s s' →
        s'.pc = .runOnce → s' = s) := by
  obtain ⟨code, hsettled, rfl⟩ := start_ok hstart
  obtain ⟨hcode, hvalid⟩ := settledCode_ok hsettled
  refine ⟨reconnect_ends config d code, fun s hreach => ?_⟩
  obtain ⟨hattempts, hsame, hreturned, hkept, hthrown⟩ := (reach_tried hreach).recv h hroom hdistinct
  refine ⟨hattempts, ⟨hsame.trans hcode, hsame ▸ hvalid⟩, hreturned, hkept, hthrown, fun hcancelled s' hreach' hrun => ?_⟩
  rcases cancelled_run hcancelled hreach' with heq | ⟨-, hnot⟩
  · exact heq
  · exact absurd hrun hnot

/-- An attempt that breaks, and one that comes to its end. -/
theorem run_recv_resumes_sample :
    ∃ s, Lts.ReachUnder (Reconnect.step { code := "AB-cd", reconnectDelay := 0 })
        (RunOnce (RunRecvOnce leftoverEnv leftoverSource { isAbsolute := true, parts := ["out", "hi.txt"] }))
        { world := halfDisk, code := "ab-cd" } s ∧
      s.failed = [streamEnded] ∧ s.world.tree ["out", "hi.txt"] = some (.file [104, 105, 33]) := by
  obtain ⟨d', hbroken⟩ := broken_sample
  obtain ⟨found', hadvance⟩ := half_sample.broken (fun _ h => absurd rfl h) hbroken
  have hleft := (half_sample.rewritten hadvance.kept).leftover (hadvance.room half_sample_room)
  obtain ⟨l, hconclusion, -⟩ := hleft.conclusion hadvance.distinct
  have hroom : ∀ c, some 1 = some c → 0 < c := fun c h => Option.some.inj h ▸ Nat.zero_lt_one
  have hends := stream_concludes leftoverEnv storedStream hroom hroom [leftoverSource] d'
  rw [hconclusion] at hends
  obtain ⟨s, hreach, hreturned⟩ := hends.exists_run
  have hstart : Reconnect.start { code := "AB-cd", reconnectDelay := 0 } false "" halfDisk =
      .ok { world := halfDisk, code := "ab-cd" } := rfl
  have hagain (s : Reconnect Disk) (hpc : s.pc = .caught streamEnded) (hcancelled : s.cancelled = false)
      (hattempt : s.attempt = 1) : s.step { code := "AB-cd", reconnectDelay := 0 } .move = some
        { s with pc := .waiting 0, reports := s.reports ++ [.retry (s.attempt + 1) 3 streamEnded, .delay (s.attempt + 1) 3 0] } := by
    simp [Reconnect.step, Reconnect.move, hpc, hcancelled, hattempt, streamEnded_retryable, ReconnectConfig.maxAttempts]
  have hrun : Lts.ReachUnder (Reconnect.step { code := "AB-cd", reconnectDelay := 0 })
      (RunOnce (RunRecvOnce leftoverEnv leftoverSource { isAbsolute := true, parts := ["out", "hi.txt"] }))
      { world := halfDisk, code := "ab-cd" } _ :=
    .tail (.tail (.tail (.tail (.tail (.tail .refl (l := .move) trivial rfl)
      (l := .ends (.error streamEnded) d') (.broken streamEnded hbroken) rfl)
      (l := .move) trivial (hagain _ rfl rfl rfl)) (l := .move) trivial rfl) (l := .move) trivial rfl)
      (l := .ends (.ok 0) l.disk) (.stream storedStream (some 1) (some 1) s l hroom hroom hreach hreturned) rfl
  obtain ⟨-, hall⟩ := run_recv_resumes leftoverEnv leftoverSource halfDisk
    { isAbsolute := true, parts := ["out", "hi.txt"] } [104] { code := "AB-cd", reconnectDelay := 0 } _
    half_sample.toAbandoned half_sample_room (fun _ h => absurd rfl h) hstart
  obtain ⟨-, -, hdone, -⟩ := hall _ hrun
  obtain ⟨l', hl', hdelivered⟩ := hdone 0 rfl
  exact ⟨_, hrun, rfl, hl' ▸ delivered_sample hdelivered⟩

end Kiko.Transfer
