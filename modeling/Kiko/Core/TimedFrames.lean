import Kiko.Lib.Ensures
import Kiko.Lib.Transition
import Kiko.Transfer.Wire

/-!
# Frames received against a clock (`core/protocol`, `core/socket`)

`recv_frame_timeout` waits a while for a frame to start and gives one that has started more
time. What the socket and the clock do meanwhile is a `Schedule`: the readings of the steady
clock, the looks at the cancellation flag, and what each poll of the socket finds. Nothing is
assumed of them; in particular bytes arrive in pieces of any size.

Below the frame the question is only how many bytes a call has taken and what it says about it:
`Takes` is that record, and each function of the socket has one such fact. At the frame a call
either takes one whole image, or it takes nothing, or the socket is closed, or it has raised an
error (`recvFrameTimeout_settles`). A socket with a raised error is in the middle of a frame and
still open, so a run is a run of calls none of which comes after one that raised.

A frame protocol over a stream works as long as reader and writer agree where a frame begins. A
timeout in the middle of a frame is where they can part: what has been taken cannot be put back.
The source gives a frame that has started more time and then raises an error, which leaves the
socket where nobody should read on; it also closes the socket in some cases and not in others,
and the record of a call says which.
-/

set_option autoImplicit false

namespace Kiko

open Effect Transfer

/-! ## The socket -/

/-- What is known of a `TcpSocket` here: the bytes the peer has written that have not been
    received, and whether its handle is valid. -/
structure TcpSocket where
  stream : Bytes
  isOpen : Bool := true
deriving DecidableEq, Repr

/-- What one poll of the socket, with the `recv` after it, finds. -/
inductive Poll
  | idle
  | interrupted
  | pollError
  /-- Readable, and this many bytes have arrived. -/
  | ready (arrived : Nat)
  | wouldBlock
  | hangUp
  | reset
  | failed (error : String)
deriving DecidableEq, Repr

/-- The world a call runs in. The clock is read in nanoseconds. -/
structure Schedule where
  clock : Nat → Int
  cancelled : Nat → Bool
  polls : List Poll

structure Receiving where
  socket : TcpSocket
  schedule : Schedule

abbrev ReceiveM := EStateM KikoError Receiving

/-- `std::chrono::steady_clock::now`: the readings are taken one after the other. -/
def steadyClock : ReceiveM Int := do
  let now := (← get).schedule.clock 0
  modify fun s => { s with schedule.clock := fun i => s.schedule.clock (i + 1) }
  return now

/-- `operation_cancelled`. -/
def operationCancelled : ReceiveM Bool := do
  let cancelled := (← get).schedule.cancelled 0
  modify fun s => { s with schedule.cancelled := fun i => s.schedule.cancelled (i + 1) }
  return cancelled

/-- `TcpSocket::close`. -/
def closeSocket : ReceiveM Unit := modify fun s => { s with socket.isOpen := false }

def nanoseconds (milliseconds : Int) : Int := milliseconds * 1000000

/-- `std::chrono::duration_cast<std::chrono::milliseconds>`. -/
def milliseconds (nanoseconds : Int) : Int := nanoseconds.tdiv 1000000

/-- The time to a deadline, in milliseconds. -/
def remainingUntil (deadline : Int) : ReceiveM Int := do
  return milliseconds (deadline - (← steadyClock))

/-- `recv_native` on a readable socket: what has arrived, as far as there is room for it. -/
def recvNative (size arrived : Nat) : ReceiveM Bytes := do
  let got := (← get).socket.stream.take (min size arrived)
  modify fun s => { s with socket.stream := s.socket.stream.drop (min size arrived) }
  return got

/-- The polls still to come. -/
def setPolls (polls : List Poll) : ReceiveM Unit :=
  modify fun s => { s with schedule.polls := polls }

/-- The loop of `recv_some_timeout`, a turn for each poll. A wait that outlasts the schedule has
    run into its deadline. -/
def recvSomeLoop (size : Nat) (deadline : Int) : List Poll → ReceiveM (Option Bytes)
  | [] => return none
  | poll :: polls => do
    if ← operationCancelled then return none
    if (← remainingUntil deadline) ≤ 0 then return none
    setPolls polls
    match poll with
    | .idle | .interrupted | .wouldBlock => recvSomeLoop size deadline polls
    | .pollError => return none
    | .ready arrived =>
      let got ← recvNative size arrived
      -- nothing there after all is what `recv` reports as `kErrWouldBlock`
      if got = [] then recvSomeLoop size deadline polls else return some got
    | .hangUp | .reset => do
      closeSocket
      return none
    | .failed error => throw s!"recv failed: {error}"

/-- `TcpSocket::recv_some_timeout`, with the bytes it has put into the buffer. -/
def recvSomeTimeout (size : Nat) (timeout : Int) : ReceiveM (Option Bytes) := do
  if size = 0 then return some []
  if ← operationCancelled then return none
  if !(← get).socket.isOpen then return none
  let deadline := (← steadyClock) + nanoseconds timeout
  recvSomeLoop size deadline (← get).schedule.polls

/-- The loop of `recv_exact_timeout`. Each turn receives at least a byte, so there are at most
    `size` of them (`turns`). -/
def recvExactLoop (deadline : Int) : (turns size : Nat) → ReceiveM (Option Bytes)
  | _, 0 => return some []
  | 0, _ + 1 => return none
  | turns + 1, size + 1 => do
    let remaining ← remainingUntil deadline
    if remaining ≤ 0 then return none
    match ← recvSomeTimeout (size + 1) remaining with
    | none => return none
    | some got =>
      match ← recvExactLoop deadline turns (size + 1 - got.length) with
      | none => return none
      | some later => return some (got ++ later)

/-- `TcpSocket::recv_exact_timeout`. -/
def recvExactTimeout (size : Nat) (timeout : Int) : ReceiveM (Option Bytes) := do
  if size = 0 then return some []
  let deadline := (← steadyClock) + nanoseconds timeout
  recvExactLoop deadline size size

/-! ## Frames -/

def kMagic : Bytes := [0x6b, 0x69, 0x6b, 0x6f]

def kMaxFramePayloadBytes : Nat := 64 * 1024 * 1024

/-- `kFrameCompletionTimeout`, in milliseconds. -/
def kFrameCompletionTimeout : Int := 5000

/-- What `send_frame` writes for a payload it takes. -/
def frameImage (payload : Bytes) : Bytes := kMagic ++ putU32 payload.length ++ payload

/-- `send_frame`, onto what the socket has carried so far. -/
def sendFrame (written payload : Bytes) : Except KikoError Bytes :=
  if kMaxFramePayloadBytes < payload.length then throw "frame too large"
  else return written ++ frameImage payload

/-- `verify_magic`. -/
def verifyMagic (header : Bytes) : ReceiveM Unit :=
  if header = kMagic then return () else throw "invalid frame magic"

/-- The lambda `receive_remaining`: what has started and does not come to its end in time closes
    the socket. -/
def receiveRemaining (deadline : Int) (size : Nat) : ReceiveM (Option Bytes) := do
  let remaining ← remainingUntil deadline
  if 0 < remaining then
    if let some got ← recvExactTimeout size remaining then return some got
  closeSocket
  return none

/-- The body of `recv_frame_timeout` after the first byte. -/
def recvStartedFrame (maxPayloadBytes : Nat) (deadline : Int) (first : Bytes) :
    ReceiveM (Option Bytes) := do
  let some magic ← receiveRemaining deadline 3 | return none
  verifyMagic (first ++ magic)
  let some length ← receiveRemaining deadline 4 | return none
  let len := readU32 length
  if maxPayloadBytes < len then throw "received frame too large"
  if len = 0 then return some []
  receiveRemaining deadline len

/-- `recv_frame_timeout`. -/
def recvFrameTimeout (timeout : Int) (maxPayloadBytes : Nat) : ReceiveM (Option Bytes) := do
  let some first ← recvSomeTimeout 1 timeout | return none
  let completionWindow := max timeout kFrameCompletionTimeout
  let deadline := (← steadyClock) + nanoseconds completionWindow
  recvStartedFrame maxPayloadBytes deadline first

/-! ## What a receive takes from the stream

One lemma for each function, from the poll up to the exact receive, all of the same form, so
that each is proved from the one before. -/

/-- From `s` to `s'` the bytes `took` have been received and no socket has been opened. -/
structure Takes (s : Receiving) (took : Bytes) (s' : Receiving) : Prop where
  stream : s.socket.stream = took ++ s'.socket.stream
  opened : s'.socket.isOpen → s.socket.isOpen

section Takes

variable {s s' s'' : Receiving} {b c : Bytes} {E : KikoError → Receiving → Prop}

theorem Takes.of_eq (h : s'.socket = s.socket) : Takes s [] s' := by
  constructor
  · rw [h, List.nil_append]
  · intro ho
    rwa [h] at ho

theorem Takes.trans (h : Takes s b s') (h' : Takes s' c s'') : Takes s (b ++ c) s'' := by
  constructor
  · rw [h.stream, h'.stream, List.append_assoc]
  · intro ho
    exact h.opened (h'.opened ho)

/-- The clock, the flag and the schedule are not the socket. -/
theorem Takes.from_eq (h : s'.socket = s.socket) (h' : Takes s' b s'') : Takes s b s'' := by
  have := (Takes.of_eq h).trans h'
  rwa [List.nil_append] at this

theorem steadyClock_settles : Settles (fun _ s' => s'.socket = s.socket) E steadyClock s := rfl

theorem operationCancelled_settles :
    Settles (fun _ s' => s'.socket = s.socket) E operationCancelled s := rfl

theorem remainingUntil_settles (deadline : Int) :
    Settles (fun _ s' => s'.socket = s.socket) E (remainingUntil deadline) s := rfl

theorem setPolls_settles (polls : List Poll) :
    Settles (fun _ s' => s'.socket = s.socket) E (setPolls polls) s := rfl

theorem closeSocket_settles :
    Settles (fun _ s' => Takes s [] s' ∧ s'.socket.isOpen = false) E closeSocket s := by
  refine settles_modify ⟨⟨rfl, ?_⟩, rfl⟩
  intro ho
  cases ho

theorem recvNative_settles (size arrived : Nat) :
    Settles (fun got s' => Takes s got s' ∧ s'.socket.isOpen = s.socket.isOpen ∧ got.length ≤ size)
      E (recvNative size arrived) s := by
  refine ⟨⟨(List.take_append_drop _ _).symm, id⟩, rfl, ?_⟩
  rw [List.length_take]
  exact (min_le_left _ _).trans (min_le_left _ _)

/-- A receive of some bytes that was given room for `size`. -/
structure Receives (size : Nat) (s : Receiving) (r : Option Bytes) (s' : Receiving) : Prop where
  takes : Takes s (r.getD []) s'
  fits : ∀ got ∈ r, got.length ≤ size
  some : ∀ got ∈ r, 0 < size → got ≠ [] ∧ s.socket.isOpen

theorem Receives.nothing (size : Nat) (h : Takes s [] s') : Receives size s none s' :=
  ⟨h, by simp, by simp⟩

/-- Turns that receive nothing may come before. -/
theorem Receives.after {size : Nat} {r : Option Bytes} (h : Takes s [] s')
    (h' : Receives size s' r s'') : Receives size s r s'' where
  takes := h.trans h'.takes
  fits := h'.fits
  some := by
    intro got hgot hsize
    obtain ⟨hne, ho⟩ := h'.some got hgot hsize
    exact ⟨hne, h.opened ho⟩

theorem recvSomeLoop_settles (size : Nat) (deadline : Int) (polls : List Poll)
    (ho : s.socket.isOpen) :
    Settles (Receives size s) (fun _ s' => Takes s [] s') (recvSomeLoop size deadline polls) s := by
  induction polls generalizing s with
  | nil => exact settles_pure (.nothing size (.of_eq rfl))
  | cons poll polls ih =>
    unfold recvSomeLoop
    refine operationCancelled_settles.bind ?_
    intro cancelled s₁ h₁
    by_cases hc : cancelled = true
    · rw [if_pos hc]
      exact settles_pure (.nothing size (.of_eq h₁))
    rw [if_neg hc]
    refine (remainingUntil_settles deadline).bind ?_
    intro remaining s₂ h₂
    by_cases hr : remaining ≤ 0
    · rw [if_pos hr]
      exact settles_pure (.nothing size (.of_eq (h₂.trans h₁)))
    rw [if_neg hr]
    refine (setPolls_settles polls).bind ?_
    intro _ s₃ h₃
    rw [h₂, h₁] at h₃
    -- a turn that has received nothing goes round again
    have again : ∀ s', Takes s [] s' → s'.socket.isOpen = s.socket.isOpen →
        Settles (Receives size s) (fun _ s' => Takes s [] s')
          (recvSomeLoop size deadline polls) s' := by
      intro s' h ho'
      rw [← ho'] at ho
      exact (ih ho).mono (fun _ _ h' => h'.after h) (fun _ _ h' => h.trans h')
    have again₃ := again s₃ (.of_eq h₃) (by rw [h₃])
    cases poll with
    | idle => exact again₃
    | interrupted => exact again₃
    | wouldBlock => exact again₃
    | pollError => exact settles_pure (.nothing size (.of_eq h₃))
    | ready arrived =>
      refine (recvNative_settles size arrived).bind ?_
      intro got s₄ h₄
      obtain ⟨htakes, ho₄, hlen⟩ := h₄
      by_cases hgot : got = []
      · rw [if_pos hgot]
        subst hgot
        exact again s₄ (htakes.from_eq h₃) (by rw [ho₄, h₃])
      · rw [if_neg hgot]
        refine settles_pure ⟨htakes.from_eq h₃, ?_, ?_⟩
        · intro b hb
          obtain rfl := Option.mem_some.mp hb
          exact hlen
        · intro b hb _
          obtain rfl := Option.mem_some.mp hb
          exact ⟨hgot, ho⟩
    | hangUp =>
      refine closeSocket_settles.bind ?_
      intro _ s₄ h₄
      exact settles_pure (.nothing size (h₄.1.from_eq h₃))
    | reset =>
      refine closeSocket_settles.bind ?_
      intro _ s₄ h₄
      exact settles_pure (.nothing size (h₄.1.from_eq h₃))
    | failed error => exact settles_throw (.of_eq h₃)

theorem recvSomeTimeout_settles (size : Nat) (timeout : Int) :
    Settles (Receives size s) (fun _ s' => Takes s [] s') (recvSomeTimeout size timeout) s := by
  unfold recvSomeTimeout
  by_cases hsize : size = 0
  · rw [if_pos hsize]
    refine settles_pure ⟨.of_eq rfl, ?_, ?_⟩
    · intro got hgot
      obtain rfl := Option.mem_some.mp hgot
      exact Nat.zero_le _
    · intro got _ hpos
      exact absurd hsize hpos.ne'
  rw [if_neg hsize]
  refine operationCancelled_settles.bind ?_
  intro cancelled s₁ h₁
  by_cases hc : cancelled = true
  · rw [if_pos hc]
    exact settles_pure (.nothing size (.of_eq h₁))
  rw [if_neg hc]
  refine Settles.bind (settles_get (Q := fun r s' => r = s' ∧ s'.socket = s.socket) ⟨rfl, h₁⟩) ?_
  intro state s₂ h₂
  obtain ⟨rfl, h₂⟩ := h₂
  by_cases ho : state.socket.isOpen = true
  · rw [if_neg (by simp [ho])]
    refine steadyClock_settles.bind ?_
    intro now s₃ h₃
    rw [h₂] at h₃
    refine Settles.bind (settles_get (Q := fun _ s' => s'.socket = s.socket) h₃) ?_
    intro state' s₄ h₄
    have ho₄ : s₄.socket.isOpen := by rwa [h₄, ← h₂]
    have hloop := recvSomeLoop_settles size (now + nanoseconds timeout) state'.schedule.polls ho₄
    exact hloop.mono (fun _ _ h => h.after (.of_eq h₄)) (fun _ _ h => h.from_eq h₄)
  · rw [if_pos (by simpa using ho)]
    exact settles_pure (.nothing size (.of_eq h₂))

/-- What an exact receive of `size` bytes has done: it has all of them, or it has taken fewer. -/
structure ReceivesExact (size : Nat) (s : Receiving) (r : Option Bytes) (s' : Receiving) :
    Prop where
  got : ∀ got ∈ r, got.length = size ∧ Takes s got s'
  short : r = none → ∃ took, took.length < size ∧ Takes s took s'

theorem recvExactLoop_settles (deadline : Int) {turns size : Nat} (hturns : size ≤ turns) :
    Settles (ReceivesExact size s)
      (fun _ s' => ∃ took, took.length < size ∧ Takes s took s')
      (recvExactLoop deadline turns size) s := by
  induction turns generalizing s size with
  | zero =>
    obtain rfl := Nat.le_zero.mp hturns
    unfold recvExactLoop
    refine settles_pure ⟨?_, by simp⟩
    intro got hgot
    obtain rfl := Option.mem_some.mp hgot
    exact ⟨rfl, .of_eq rfl⟩
  | succ turns ih =>
    cases size with
    | zero =>
      unfold recvExactLoop
      refine settles_pure ⟨?_, by simp⟩
      intro got hgot
      obtain rfl := Option.mem_some.mp hgot
      exact ⟨rfl, .of_eq rfl⟩
    | succ size =>
      have nothing : ∀ s', Takes s [] s' → ReceivesExact (size + 1) s none s' :=
        fun s' h => ⟨by simp, fun _ => ⟨[], Nat.succ_pos _, h⟩⟩
      unfold recvExactLoop
      refine (remainingUntil_settles deadline).bind ?_
      intro remaining s₁ h₁
      by_cases hr : remaining ≤ 0
      · rw [if_pos hr]
        exact settles_pure (nothing s₁ (.of_eq h₁))
      rw [if_neg hr]
      refine ((recvSomeTimeout_settles (size + 1) remaining).mono (fun _ _ h => h)
        (fun _ s' h => ⟨[], Nat.succ_pos _, h.from_eq h₁⟩)).bind ?_
      intro r s₂ h₂
      have h₂ := h₂.after (.of_eq h₁)
      cases r with
      | none => exact settles_pure (nothing s₂ h₂.takes)
      | some got =>
        have htakes : Takes s got s₂ := h₂.takes
        have hlen : got.length ≤ size + 1 := h₂.fits got rfl
        have hne : got.length ≠ 0 := by
          intro h
          exact (h₂.some got rfl (Nat.succ_pos _)).1 (List.eq_nil_of_length_eq_zero h)
        -- what is still wanted is less, by what has come
        have hshort : ∀ took : Bytes, took.length < size + 1 - got.length →
            (got ++ took).length < size + 1 := by
          intro took h
          rw [List.length_append]
          omega
        have hfew : size + 1 - got.length ≤ turns := by omega
        refine Settles.bind ((ih hfew).mono (fun _ _ h => h) ?_) ?_
        · rintro _ s' ⟨took, hlt, h⟩
          exact ⟨got ++ took, hshort took hlt, htakes.trans h⟩
        · intro r s₃ h₃
          cases r with
          | none =>
            obtain ⟨took, hlt, h⟩ := h₃.short rfl
            exact settles_pure ⟨by simp, fun _ => ⟨got ++ took, hshort took hlt, htakes.trans h⟩⟩
          | some later =>
            obtain ⟨hlater, h⟩ := h₃.got later rfl
            refine settles_pure ⟨?_, by simp⟩
            intro b hb
            obtain rfl := Option.mem_some.mp hb
            refine ⟨?_, htakes.trans h⟩
            rw [List.length_append, hlater]
            omega

theorem recvExactTimeout_settles {size : Nat} (hsize : 0 < size) (timeout : Int) :
    Settles (ReceivesExact size s)
      (fun _ s' => ∃ took, took.length < size ∧ Takes s took s')
      (recvExactTimeout size timeout) s := by
  unfold recvExactTimeout
  rw [if_neg hsize.ne']
  refine steadyClock_settles.bind ?_
  intro now s₁ h₁
  refine (recvExactLoop_settles _ le_rfl).mono ?_ ?_
  · intro r s' h
    refine ⟨fun got hgot => ⟨(h.got got hgot).1, (h.got got hgot).2.from_eq h₁⟩, fun hr => ?_⟩
    obtain ⟨took, hlt, ht⟩ := h.short hr
    exact ⟨took, hlt, ht.from_eq h₁⟩
  · rintro _ s' ⟨took, hlt, ht⟩
    exact ⟨took, hlt, ht.from_eq h₁⟩

/-- Either the whole of what was asked for, or the socket is closed. -/
theorem receiveRemaining_settles {size : Nat} (hsize : 0 < size) (deadline : Int) :
    Settles (fun r s' => ReceivesExact size s r s' ∧ (r = none → s'.socket.isOpen = false))
      (fun _ s' => ∃ took, took.length < size ∧ Takes s took s')
      (receiveRemaining deadline size) s := by
  -- what is left to do when the rest has not come
  have hclose : ∀ s₂ took, took.length < size → Takes s took s₂ →
      Settles (fun r s' => ReceivesExact size s r s' ∧ (r = none → s'.socket.isOpen = false))
        (fun _ s' => ∃ took, took.length < size ∧ Takes s took s')
        (do closeSocket; return none : ReceiveM (Option Bytes)) s₂ := by
    intro s₂ took hlt ht
    refine closeSocket_settles.bind ?_
    rintro _ s₃ ⟨h₃, ho⟩
    have htook := ht.trans h₃
    rw [List.append_nil] at htook
    exact settles_pure ⟨⟨by simp, fun _ => ⟨took, hlt, htook⟩⟩, fun _ => ho⟩
  unfold receiveRemaining
  refine (remainingUntil_settles deadline).bind ?_
  intro remaining s₁ h₁
  by_cases hr : 0 < remaining
  · rw [if_pos hr]
    refine ((recvExactTimeout_settles hsize remaining).mono (fun _ _ h => h) ?_).bind ?_
    · rintro _ s' ⟨took, hlt, ht⟩
      exact ⟨took, hlt, ht.from_eq h₁⟩
    intro r s₂ h₂
    cases r with
    | some got =>
      obtain ⟨hlen, ht⟩ := h₂.got got rfl
      refine settles_pure ⟨⟨?_, by simp⟩, by simp⟩
      intro b hb
      obtain rfl := Option.mem_some.mp hb
      exact ⟨hlen, ht.from_eq h₁⟩
    | none =>
      obtain ⟨took, hlt, ht⟩ := h₂.short rfl
      exact hclose s₂ took hlt (ht.from_eq h₁)
  · rw [if_neg hr]
    exact hclose s₁ [] hsize (.of_eq h₁)

/-! ## What a call does with a frame

By how far it has come: no byte, less than a header, a header that announces too much, a payload
that is cut short, a frame. -/

/-- What a call may take from the stream: less than a header, or a header and something of what
    it announces; nothing of that when it is more than the limit, which is then raised. -/
def WithinLimit (limit : Nat) (e : Option KikoError) (took : Bytes) : Prop :=
  took.length < 8 ∨ ∃ length body : Bytes, length.length = 4 ∧ took = kMagic ++ length ++ body ∧
    (readU32 length ≤ limit ∨ body = [] ∧ e = some "received frame too large")

/-- What a call has done when it returns. -/
structure FrameOutcome (limit : Nat) (s : Receiving) (r : Option Bytes) (s' : Receiving) :
    Prop where
  taken : ∃ took, WithinLimit limit none took ∧ Takes s took s'
  whole : ∀ payload ∈ r, payload.length ≤ limit ∧ s.socket.isOpen ∧ ∃ length : Bytes,
    length.length = 4 ∧ readU32 length = payload.length ∧
    Takes s (kMagic ++ length ++ payload) s'
  none : r = none → Takes s [] s' ∨ s'.socket.isOpen = false

/-- What a call has done when it raises. -/
def FrameRaised (limit : Nat) (s : Receiving) (e : KikoError) (s' : Receiving) : Prop :=
  ∃ took, WithinLimit limit (some e) took ∧ Takes s took s'

theorem recvStartedFrame_settles (limit : Nat) (deadline : Int) {first : Bytes}
    (hfirst : first.length = 1) {s₀ : Receiving} (ho : s₀.socket.isOpen) (h₀ : Takes s₀ first s) :
    Settles (FrameOutcome limit s₀) (FrameRaised limit s₀)
      (recvStartedFrame limit deadline first) s := by
  -- a call that gives up has closed the socket
  have hnone : ∀ took s', WithinLimit limit none took → Takes s₀ took s' →
      s'.socket.isOpen = false → FrameOutcome limit s₀ none s' :=
    fun took s' hw ht hc => ⟨⟨took, hw, ht⟩, by simp, fun _ => .inr hc⟩
  unfold recvStartedFrame
  refine ((receiveRemaining_settles (by decide) deadline).mono (fun _ _ h => h) ?_).bind ?_
  · rintro _ s' ⟨took, hlt, ht⟩
    refine ⟨first ++ took, .inl ?_, h₀.trans ht⟩
    rw [List.length_append]
    omega
  rintro r s₁ ⟨h₁, hc₁⟩
  cases r with
  | none =>
    obtain ⟨took, hlt, ht⟩ := h₁.short rfl
    refine settles_pure (hnone (first ++ took) s₁ (.inl ?_) (h₀.trans ht) (hc₁ rfl))
    rw [List.length_append]
    omega
  | some magic =>
    obtain ⟨hmagic, ht⟩ := h₁.got magic rfl
    have h₁ := h₀.trans ht
    have hlen₁ : (first ++ magic).length = 4 := by
      rw [List.length_append]
      omega
    simp only
    unfold verifyMagic
    by_cases hm : first ++ magic = kMagic
    swap
    · rw [if_neg hm]
      exact Settles.bind (settles_throw (Q := fun _ _ => False)
        ⟨first ++ magic, .inl (by omega), h₁⟩) fun _ _ h => h.elim
    rw [if_pos hm, pure_bind]
    refine ((receiveRemaining_settles (by decide) deadline).mono (fun _ _ h => h) ?_).bind ?_
    · rintro _ s' ⟨took, hlt, ht⟩
      refine ⟨first ++ magic ++ took, .inl ?_, h₁.trans ht⟩
      rw [List.length_append]
      omega
    rintro r s₂ ⟨h₂, hc₂⟩
    cases r with
    | none =>
      obtain ⟨took, hlt, ht⟩ := h₂.short rfl
      refine settles_pure (hnone (first ++ magic ++ took) s₂ (.inl ?_) (h₁.trans ht) (hc₂ rfl))
      rw [List.length_append]
      omega
    | some length =>
      obtain ⟨hlength, ht⟩ := h₂.got length rfl
      have h₂ := h₁.trans ht
      rw [hm] at h₂
      simp only
      by_cases hlimit : limit < readU32 length
      · rw [if_pos hlimit]
        refine Settles.bind (settles_throw (Q := fun _ _ => False) ?_) fun _ _ h => h.elim
        exact ⟨kMagic ++ length, .inr ⟨length, [], hlength, (List.append_nil _).symm,
          .inr ⟨rfl, rfl⟩⟩, h₂⟩
      rw [if_neg hlimit]
      have hwithin : ∀ e body, WithinLimit limit e (kMagic ++ length ++ body) :=
        fun e body => .inr ⟨length, body, hlength, rfl, .inl (not_lt.mp hlimit)⟩
      have hwhole : ∀ payload s', readU32 length = payload.length →
          Takes s₀ (kMagic ++ length ++ payload) s' →
          FrameOutcome limit s₀ (some payload) s' := by
        intro payload s' hpayload ht
        refine ⟨⟨_, hwithin none payload, ht⟩, ?_, by simp⟩
        intro b hb
        obtain rfl := Option.mem_some.mp hb
        exact ⟨hpayload ▸ not_lt.mp hlimit, ho, length, hlength, hpayload, ht⟩
      by_cases hzero : readU32 length = 0
      · simp only [hzero, if_true]
        exact settles_pure (hwhole [] s₂ hzero (by rwa [List.append_nil]))
      · simp only [if_neg hzero]
        refine (receiveRemaining_settles (Nat.pos_of_ne_zero hzero) deadline).mono ?_ ?_
        · rintro r s₃ ⟨h₃, hc₃⟩
          cases r with
          | none =>
            obtain ⟨took, _, ht⟩ := h₃.short rfl
            exact hnone _ s₃ (hwithin none took) (h₂.trans ht) (hc₃ rfl)
          | some payload =>
            obtain ⟨hpayload, ht⟩ := h₃.got payload rfl
            exact hwhole payload s₃ hpayload.symm (h₂.trans ht)
        · rintro e s₃ ⟨took, _, ht⟩
          exact ⟨_, hwithin (some e) took, h₂.trans ht⟩

/-- **What a call does to the stream.** A frame is returned whole or not at all, and where nothing
    is returned nothing has been taken or the socket is closed. -/
theorem recvFrameTimeout_settles (timeout : Int) (limit : Nat) :
    Settles (FrameOutcome limit s) (FrameRaised limit s) (recvFrameTimeout timeout limit) s := by
  unfold recvFrameTimeout
  refine ((recvSomeTimeout_settles 1 timeout).mono (fun _ _ h => h) ?_).bind ?_
  · intro _ s' ht
    exact ⟨[], .inl (by decide), ht⟩
  intro r s₁ h₁
  cases r with
  | none =>
    have ht : Takes s [] s₁ := h₁.takes
    exact settles_pure ⟨⟨[], .inl (by decide), ht⟩, by simp, fun _ => .inl ht⟩
  | some first =>
    have hfits := h₁.fits first rfl
    obtain ⟨hne, ho⟩ := h₁.some first rfl Nat.one_pos
    have hfirst : first.length = 1 := le_antisymm hfits (List.length_pos_iff.mpr hne)
    refine steadyClock_settles.bind ?_
    intro now s₂ h₂
    refine recvStartedFrame_settles limit _ hfirst ho ?_
    have ht := (h₁.takes : Takes s first s₁).trans (.of_eq h₂)
    rwa [List.append_nil] at ht

end Takes

/-! ## Sessions

A run of calls on one socket. After a call that has raised there is none, which is the
discipline of the callers and the condition of the result. -/

structure FrameCall where
  timeout : Int
  maxPayloadBytes : Nat := kMaxFramePayloadBytes
  schedule : Schedule

/-- A socket with what the calls on it have returned, and the last error raised. -/
structure FrameSession where
  socket : TcpSocket
  returned : List Bytes := []
  raised : Option KikoError := none

namespace FrameSession

def step (s : FrameSession) (c : FrameCall) : Option FrameSession :=
  match recvFrameTimeout c.timeout c.maxPayloadBytes ⟨s.socket, c.schedule⟩ with
  | .ok (some payload) s' =>
    some { s with socket := s'.socket, returned := s.returned ++ [payload] }
  | .ok none s' => some { s with socket := s'.socket }
  | .error e s' => some { s with socket := s'.socket, raised := some e }

/-- The three ways a call can end. -/
theorem step_cases {s s' : FrameSession} {c : FrameCall} (hs : s.step c = some s') :
    (∃ payload t, FrameOutcome c.maxPayloadBytes ⟨s.socket, c.schedule⟩ (some payload) t ∧
      s' = { s with socket := t.socket, returned := s.returned ++ [payload] }) ∨
    (∃ t, FrameOutcome c.maxPayloadBytes ⟨s.socket, c.schedule⟩ none t ∧
      s' = { s with socket := t.socket }) ∨
    ∃ e t, FrameRaised c.maxPayloadBytes ⟨s.socket, c.schedule⟩ e t ∧
      s' = { s with socket := t.socket, raised := some e } := by
  have hcall := recvFrameTimeout_settles (s := ⟨s.socket, c.schedule⟩) c.timeout c.maxPayloadBytes
  unfold step at hs
  split at hs
  next payload t heq => exact .inl ⟨payload, t, hcall.ok heq, (Option.some.inj hs).symm⟩
  next t heq => exact .inr (.inl ⟨t, hcall.ok heq, (Option.some.inj hs).symm⟩)
  next e t heq => exact .inr (.inr ⟨e, t, hcall.error heq, (Option.some.inj hs).symm⟩)

end FrameSession

/-- What has been written is the images, one after the other. -/
theorem foldlM_sendFrame {sent : List Bytes} {written stream : Bytes}
    (h : sent.foldlM sendFrame written = .ok stream) :
    stream = written ++ sent.flatMap frameImage ∧
      ∀ payload ∈ sent, payload.length ≤ kMaxFramePayloadBytes := by
  induction sent generalizing written with
  | nil =>
    obtain rfl : written = stream := Except.ok.inj h
    exact ⟨(List.append_nil _).symm, by simp⟩
  | cons payload sent ih =>
    rw [List.foldlM_cons] at h
    obtain ⟨written', hsend, h⟩ := exists_of_bind_ok h
    unfold sendFrame at hsend
    by_cases hlen : kMaxFramePayloadBytes < payload.length
    · rw [if_pos hlen] at hsend
      cases hsend
    · rw [if_neg hlen] at hsend
      obtain rfl : written ++ frameImage payload = written' := Except.ok.inj hsend
      obtain ⟨hstream, hall⟩ := ih h
      refine ⟨?_, ?_⟩
      · rw [hstream, List.flatMap_cons, List.append_assoc]
      · rintro p (_ | ⟨_, hp⟩)
        · exact not_lt.mp hlen
        · exact hall p hp

theorem sendFrame_foldlM_ok {sent : List Bytes} {written : Bytes}
    (h : ∀ payload ∈ sent, payload.length ≤ kMaxFramePayloadBytes) :
    sent.foldlM sendFrame written = .ok (written ++ sent.flatMap frameImage) := by
  induction sent generalizing written with
  | nil => exact congrArg Except.ok (List.append_nil _).symm
  | cons payload sent ih =>
    have hlen : ¬ kMaxFramePayloadBytes < payload.length := not_lt.mpr (h payload (by simp))
    rw [List.foldlM_cons, sendFrame, if_neg hlen]
    refine (ih fun p hp => h p (List.mem_cons_of_mem _ hp)).trans ?_
    rw [List.flatMap_cons, List.append_assoc]

/-- A header at the front of a stream of frames is that of the first frame. -/
theorem front_of_header {sent : List Bytes} {length body : Bytes}
    (hlen : ∀ payload ∈ sent, payload.length ≤ kMaxFramePayloadBytes) (hlength : length.length = 4)
    (h : sent.flatMap frameImage = kMagic ++ length ++ body) :
    ∃ front rest, sent = front :: rest ∧ readU32 length = front.length ∧
      body = front ++ rest.flatMap frameImage := by
  cases sent with
  | nil => cases h
  | cons front rest =>
    have hfront : front.length < 2 ^ 32 :=
      (hlen front (by simp)).trans_lt (by decide)
    simp only [List.flatMap_cons, frameImage, List.append_assoc] at h
    have h := List.append_cancel_left h
    obtain ⟨hlen', hbody⟩ := List.append_inj h (by
      rw [hlength]
      exact length_putBytes 4 _)
    refine ⟨front, rest, rfl, ?_, hbody.symm⟩
    have := readU32_putU32 hfront []
    rwa [List.append_nil, hlen'] at this

/-- The socket stands before the first of the frames `rest`. -/
structure AtBoundary (socket : TcpSocket) (rest : List Bytes) : Prop where
  stream : socket.stream = rest.flatMap frameImage
  sendable : ∀ payload ∈ rest, payload.length ≤ kMaxFramePayloadBytes

/-- Between calls: the frames returned are those at the front of what was sent, and an open
    socket stands before the next. -/
structure FrameSession.Framed (sent : List Bytes) (s : FrameSession) : Prop where
  returned : s.returned <+: sent
  boundary : s.raised = none → s.socket.isOpen →
    ∃ rest, sent = s.returned ++ rest ∧ AtBoundary s.socket rest

theorem FrameSession.Framed.start {sent : List Bytes} {stream : Bytes}
    (h : sent.foldlM sendFrame [] = .ok stream) : Framed sent { socket := { stream } } := by
  obtain ⟨hstream, hlen⟩ := foldlM_sendFrame h
  exact ⟨List.nil_prefix, fun _ _ => ⟨sent, rfl, hstream, hlen⟩⟩

/-- A call made while no error is raised leaves the session between calls again. -/
theorem FrameSession.Framed.step {sent : List Bytes} {s s' : FrameSession} {c : FrameCall}
    (h : Framed sent s) (hraised : s.raised = none) (hs : s.step c = some s') :
    Framed sent s' := by
  obtain ⟨payload, t, ht, rfl⟩ | ⟨t, ht, rfl⟩ | ⟨e, t, ht, rfl⟩ := step_cases hs
  · -- a frame: its header is the header of the next frame that was sent
    obtain ⟨-, ho, length, hlength, hread, htakes⟩ := ht.whole payload rfl
    obtain ⟨rest, hrest, hb⟩ := h.boundary hraised ho
    have hstream : rest.flatMap frameImage = kMagic ++ length ++ (payload ++ t.socket.stream) := by
      rw [← hb.stream, ← List.append_assoc]
      exact htakes.stream
    obtain ⟨front, rest, rfl, hfront, hbody⟩ := front_of_header hb.sendable hlength hstream
    obtain ⟨rfl, hafter⟩ := List.append_inj hbody (hread.symm.trans hfront)
    have hsent : sent = s.returned ++ [payload] ++ rest := by
      rw [hrest, List.append_assoc]
      rfl
    refine ⟨⟨rest, hsent.symm⟩, fun _ _ => ⟨rest, hsent, hafter, ?_⟩⟩
    intro p hp
    exact hb.sendable p (List.mem_cons_of_mem _ hp)
  · -- nothing: the stream is as it was, or the socket is closed
    refine ⟨h.returned, fun _ ho => ?_⟩
    obtain htakes | hclosed := ht.none rfl
    · obtain ⟨rest, hrest, hb⟩ := h.boundary hraised (htakes.opened ho)
      exact ⟨rest, hrest, htakes.stream.symm.trans hb.stream, hb.sendable⟩
    · rw [hclosed] at ho
      cases ho
  · exact ⟨h.returned, fun hr _ => by cases hr⟩

/-- A call at a frame that is longer than its limit. -/
theorem FrameSession.Framed.oversized {sent : List Bytes} {s s' : FrameSession} {c : FrameCall}
    {payload : Bytes} {rest : List Bytes} (h : Framed sent s) (hraised : s.raised = none)
    (ho : s.socket.isOpen) (hnext : sent = s.returned ++ payload :: rest)
    (hlimit : c.maxPayloadBytes < payload.length) (hs : s.step c = some s') :
    s'.returned = s.returned ∧ ∃ took, s.socket.stream = took ++ s'.socket.stream ∧
      took.length ≤ 8 ∧
      (took.length = 8 → s'.raised = some "received frame too large") := by
  obtain ⟨rest', hrest, hb⟩ := h.boundary hraised ho
  obtain rfl : payload :: rest = rest' := List.append_cancel_left (hnext.symm.trans hrest)
  -- whichever header the call has read, it is the one of this frame
  have hlen : ∀ length body more : Bytes, length.length = 4 →
      s.socket.stream = kMagic ++ length ++ body ++ more → readU32 length = payload.length := by
    intro length body more hlength hstream
    rw [hb.stream, List.append_assoc] at hstream
    obtain ⟨_, _, hcons, hread, -⟩ := front_of_header hb.sendable hlength hstream
    rw [hread, (List.cons.inj hcons).1]
  have hshort : ∀ (e : Option KikoError) (took more : Bytes),
      WithinLimit c.maxPayloadBytes e took → s.socket.stream = took ++ more →
      took.length ≤ 8 ∧ (took.length = 8 → e = some "received frame too large") := by
    intro e took more hw hstream
    obtain hlt | ⟨length, body, hlength, rfl, hw⟩ := hw
    · exact ⟨hlt.le, fun h8 => absurd h8 hlt.ne⟩
    · have hread := hlen length body more hlength hstream
      obtain hle | ⟨rfl, rfl⟩ := hw
      · omega
      · refine ⟨?_, fun _ => rfl⟩
        simp [hlength, kMagic]
  obtain ⟨p, t, ht, rfl⟩ | ⟨t, ht, rfl⟩ | ⟨e, t, ht, rfl⟩ := step_cases hs
  · exfalso
    obtain ⟨hp, -, length, hlength, hread, htakes⟩ := ht.whole p rfl
    have := hlen length p _ hlength htakes.stream
    omega
  · obtain ⟨took, hw, htook⟩ := ht.taken
    obtain ⟨hle, h8⟩ := hshort none took _ hw htook.stream
    exact ⟨rfl, took, htook.stream, hle, fun h => by cases h8 h⟩
  · obtain ⟨took, hw, htook⟩ := ht
    obtain ⟨hle, h8⟩ := hshort (some e) took _ hw htook.stream
    exact ⟨rfl, took, htook.stream, hle, h8⟩

/-- **Timed receiving keeps the framing**, in every run of calls none of which comes after one
    that raised an error. The frames returned are the first of those sent; an open socket stands
    before the next of them; a call that returns nothing has left the stream alone or has closed
    the socket; and of a frame longer than the limit no more than the header is taken, with the
    error raised when all of it is. -/
theorem timed_receive_keeps_framing {sent : List Bytes} {stream : Bytes}
    (hsent : sent.foldlM sendFrame [] = .ok stream) {s : FrameSession}
    (hr : Lts.ReachUnder FrameSession.step (fun s _ => s.raised = none)
      { socket := { stream } } s) :
    s.returned <+: sent ∧
    (s.raised = none → s.socket.isOpen → ∃ rest, sent = s.returned ++ rest ∧
      rest.foldlM sendFrame [] = .ok s.socket.stream) ∧
    ∀ c s', s.raised = none → s.step c = some s' →
      (s'.raised = none → s'.returned = s.returned →
        s'.socket.stream = s.socket.stream ∨ s'.socket.isOpen = false) ∧
      ∀ payload rest, s.socket.isOpen → sent = s.returned ++ payload :: rest →
        c.maxPayloadBytes < payload.length →
        s'.returned = s.returned ∧ ∃ took, s.socket.stream = took ++ s'.socket.stream ∧
          took.length ≤ 8 ∧
          (took.length = 8 → s'.raised = some "received frame too large") := by
  have hframed : s.Framed sent :=
    hr.invariant (.start hsent) fun h hraised hs => h.step hraised hs
  refine ⟨hframed.returned, ?_, ?_⟩
  · intro hraised ho
    obtain ⟨rest, hrest, hb⟩ := hframed.boundary hraised ho
    refine ⟨rest, hrest, ?_⟩
    rw [hb.stream]
    exact sendFrame_foldlM_ok hb.sendable
  · intro c s' hraised hs
    refine ⟨?_, fun payload rest ho hnext hlimit =>
      hframed.oversized hraised ho hnext hlimit hs⟩
    intro hraised' hreturned
    obtain ⟨payload, t, -, rfl⟩ | ⟨t, ht, rfl⟩ | ⟨e, t, -, rfl⟩ := FrameSession.step_cases hs
    · simp at hreturned
    · exact (ht.none rfl).imp_left fun h => h.stream.symm
    · cases hraised'

/-- A schedule in which no time passes. -/
def unhurried (polls : List Poll) : Schedule where
  clock := fun _ => 0
  cancelled := fun _ => false
  polls := polls

/-- A call that times out, and one that receives a frame of one byte in pieces. -/
def piecemealCalls : List FrameCall :=
  [{ timeout := 100, schedule := unhurried [.idle] },
   { timeout := 100, schedule := unhurried [.idle, .ready 1, .ready 2, .ready 9, .ready 1,
      .ready 1, .ready 5, .ready 4] }]

/-- The run: the frame is returned, and the socket stands before the one after it. -/
theorem timed_receive_keeps_framing_pieces :
    let sent : List Bytes := [[7], []]
    let start : FrameSession := { socket := { stream := sent.flatMap frameImage } }
    let last : FrameSession := { socket := { stream := frameImage [] }, returned := [[7]] }
    Lts.run FrameSession.step start piecemealCalls = some last ∧ last.returned <+: sent := by
  have hsent : List.foldlM sendFrame [] [[7], []] = .ok ([[7], []].flatMap frameImage) :=
    sendFrame_foldlM_ok (by decide)
  refine ⟨rfl, (timed_receive_keeps_framing hsent (.of_run piecemealCalls rfl ⟨rfl, ?_⟩)).1⟩
  intro s hs
  cases hs
  exact ⟨rfl, fun _ _ => trivial⟩

/-- A first call whose limit is too small raises; a second one reads on in the middle of the
    frame, and returns what its payload happens to contain. -/
theorem resumed_after_raise :
    ∃ (sent : List Bytes) (stream : Bytes) (s : FrameSession),
      sent.foldlM sendFrame [] = .ok stream ∧
      Lts.Reach FrameSession.step { socket := { stream } } s ∧
      s.socket.isOpen ∧ ¬ s.returned <+: sent := by
  refine ⟨[frameImage [7]], frameImage (frameImage [7]), _, by decide, .of_run
    [{ timeout := 100, maxPayloadBytes := 4,
       schedule := unhurried [.ready 1, .ready 3, .ready 4] },
     { timeout := 100, schedule := unhurried [.ready 1, .ready 3, .ready 4, .ready 1] }] rfl,
    rfl, by decide⟩

end Kiko
