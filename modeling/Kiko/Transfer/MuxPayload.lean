import Kiko.Lib.Transition
import Kiko.Transfer.MuxReceive

/-!
# One payload over many channels, both sides together

The scheduler of the sender and the session of the receiver, joined by one FIFO channel
per index. What holds of a channel `k` at every moment is one picture (`LinkOf`):

```
   enqueued on k  =  received at k  ++  in the channel  ++  still queued
                                       (as data frames)     (as send items)
```

and the end mark stands behind the last data frame once the worker has left. Every move
of either side shifts one border of this picture.

From it: when `receive` returns, every chunk of the file was written exactly once at its
own offset, the partial file is the target, both counts are its size, and what is left in
a channel was sent after the payload (`receive_delivers`); and when no side has failed and
the payload is not over, some thread can move, whatever the capacities (`progress`).

The picture is one per channel, so the proofs are too: a move changes one channel, and
`link_setLane` and `link_setTap` carry the others over. What the channels have to do with
one another is only in the two invariants of `MuxSend` and `MuxReceive`, which speak of
the file, and there it is a sum over the channels. Nothing here mentions a capacity. A
full channel only disables a move, and `progress` looks for a move into a channel that
holds nothing of this payload.
-/

set_option autoImplicit false

namespace Kiko.Transfer

/-! ## Moves

The operations of the two sides as labels, so that a run of the whole can be taken apart
by cases. A `regular` move is one the code makes when nothing fails; errors are set by the
others only (`SendMove.run_error`, `RecvMove.run_error`). -/

/-- A move of one of the sender's threads. -/
inductive SendMove (n : Nat)
  | read
  | enqueue (k : Fin n)
  | rethrow
  | take (k : Fin n)
  | leave (k : Fin n)
  | abort (k : Fin n)
  | emit (k : Fin n)
  | fail (k : Fin n) (error : KikoError)
  | settle (k : Fin n)
  | join
deriving DecidableEq, Repr

/-- A move of one of the receiver's readers that takes nothing off its channel. -/
inductive RecvMove (n : Nat)
  | fail (k : Fin n) (error : KikoError)
  | write (k : Fin n)
  | count (k : Fin n)
deriving DecidableEq, Repr

/-- Not a failure of the channel. -/
def SendMove.regular {n : Nat} : SendMove n → Bool
  | .fail _ _ => false
  | _ => true

/-- Not a failure of the channel. -/
def RecvMove.regular {n : Nat} : RecvMove n → Bool
  | .fail _ _ => false
  | _ => true

section Moves

variable {n : Nat} (codec : BlockCodec) (useZstd : Bool)

/-- What a move makes of the scheduler, and the frame it puts on a channel. -/
def SendMove.run (s : MuxSend n) : SendMove n → Option (MuxSend n × Option (Fin n × Frame))
  | .read => s.read.map (·, none)
  | .enqueue k => (s.enqueue codec useZstd k).map (·, none)
  | .rethrow => s.rethrow.map (·, none)
  | .take k => (s.take k).map (·, none)
  | .leave k => (s.leave k).map (·, none)
  | .abort k => (s.abort k).map (·, none)
  | .emit k => (s.emit k).map fun p => (p.2, some (k, p.1))
  | .fail k error => (s.fail k error).map (·, none)
  | .settle k => (s.settle k).map (·, none)
  | .join => s.join.map (·, none)

def RecvMove.run (r : MuxRecv n) : RecvMove n → Option (MuxRecv n)
  | .fail k error => r.fail k error
  | .write k => r.write k
  | .count k => r.count k

/-- A frame, if there is one, goes to the end of its channel. -/
def push (chan : Fin n → List Frame) : Option (Fin n × Frame) → Fin n → List Frame
  | none => chan
  | some (k, f) => Function.update chan k (chan k ++ [f])

end Moves

section Regular

variable {n : Nat} {codec : BlockCodec} {useZstd : Bool}

/-- A failure is the only move that sets an error. -/
theorem SendMove.run_error {s s' : MuxSend n} {move : SendMove n} {out : Option (Fin n × Frame)}
    (hreg : move.regular = true) (hs : move.run codec useZstd s = some (s', out))
    (herr : s.error = none) : s'.error = none := by
  cases move with
  | fail k error => cases hreg
  | read =>
    obtain ⟨s₁, hop, ⟨⟩⟩ := Option.map_eq_some_iff.mp hs
    unfold MuxSend.read at hop
    split at hop
    next => split_ifs at hop <;> obtain rfl := Option.some.inj hop <;> exact herr
    next => cases hop
  | enqueue k =>
    obtain ⟨s₁, hop, ⟨⟩⟩ := Option.map_eq_some_iff.mp hs
    obtain ⟨chunk, -, -, -, rfl⟩ := MuxSend.enqueue_cases hop
    exact herr
  | rethrow =>
    obtain ⟨s₁, hop, ⟨⟩⟩ := Option.map_eq_some_iff.mp hs
    unfold MuxSend.rethrow at hop
    split at hop
    next => obtain rfl := Option.some.inj hop; exact herr
    next => cases hop
  | take k =>
    obtain ⟨s₁, hop, ⟨⟩⟩ := Option.map_eq_some_iff.mp hs
    obtain ⟨item, queue, -, -, -, rfl⟩ := MuxSend.take_cases hop
    exact herr
  | leave k =>
    obtain ⟨s₁, hop, ⟨⟩⟩ := Option.map_eq_some_iff.mp hs
    obtain ⟨-, -, -, -, rfl⟩ := MuxSend.leave_cases hop
    exact herr
  | abort k =>
    obtain ⟨s₁, hop, ⟨⟩⟩ := Option.map_eq_some_iff.mp hs
    obtain ⟨-, -, rfl⟩ := MuxSend.abort_cases hop
    exact herr
  | emit k =>
    obtain ⟨⟨f, s₁⟩, hop, ⟨⟩⟩ := Option.map_eq_some_iff.mp hs
    obtain ⟨item, -, rfl, rfl⟩ | ⟨-, rfl, rfl⟩ := MuxSend.emit_cases hop <;> exact herr
  | settle k =>
    obtain ⟨s₁, hop, ⟨⟩⟩ := Option.map_eq_some_iff.mp hs
    obtain ⟨item, -, rfl⟩ := MuxSend.settle_cases hop
    exact herr
  | join =>
    obtain ⟨s₁, hop, ⟨⟩⟩ := Option.map_eq_some_iff.mp hs
    unfold MuxSend.join at hop
    split at hop
    next => split at hop <;> cases hop <;> exact herr
    next => cases hop

/-- A failure is the only move that sets an error. -/
theorem RecvMove.run_error {r r' : MuxRecv n} {move : RecvMove n} (hreg : move.regular = true)
    (hr : move.run r = some r') (herr : r.error = none) : r'.error = none := by
  cases move with
  | fail k error => cases hreg
  | write k =>
    obtain ⟨chunk, -, rfl⟩ := MuxRecv.write_cases hr
    exact herr
  | count k =>
    obtain ⟨size, delta, -, rfl⟩ := MuxRecv.count_cases hr
    exact herr

end Regular

/-! ## One channel

`LinkOf` takes what is in the channel and what is queued as arguments, so that a lemma can
say how the border between them is moved without naming the state the move leads to. -/

section Link

variable (codec : BlockCodec) (job : Job)

/-- The data frame of a chunk. -/
def dataFrame (c : Chunk) : Frame := .data (packChunk codec job.useZstd c)

/-- The picture of one channel, with what is in the channel and what is queued for it. -/
structure LinkOf (lane : Lane) (tap : Tap) (chan : List Frame) (inChan queued : List Chunk) :
    Prop where
  enqueued : lane.enqueued = tap.received ++ inChan ++ queued
  queue : lane.worker ≠ .failed →
    queued.map (sendItem codec job.useZstd) = lane.worker.unsent ++ lane.queue
  chan : chan = inChan.map (dataFrame codec job) ++
    if lane.worker = .exited ∧ tap.pc ≠ .done then [.chunkEnd] else []
  done : tap.pc = .done → lane.worker = .exited ∧ inChan = []
  sent : lane.sent = (tap.received ++ inChan).map (dataFrame codec job) ++
    if lane.worker = .exited then [.chunkEnd] else []
  got : tap.got = tap.received.map (dataFrame codec job) ++
    if tap.pc = .done then [.chunkEnd] else []

/-- The picture of one channel. -/
def Link (lane : Lane) (tap : Tap) (chan : List Frame) : Prop :=
  ∃ inChan queued, LinkOf codec job lane tap chan inChan queued

variable {codec} {job} {lane : Lane} {tap : Tap} {chan : List Frame}

theorem link_start : Link codec job {} {} [] :=
  ⟨[], [], rfl, fun _ => rfl, rfl, fun h => (by cases h), rfl, rfl⟩

/-- A worker step that neither sends nor ends. -/
theorem Link.worker (h : Link codec job lane tap chan) {lane' : Lane}
    (henq : lane'.enqueued = lane.enqueued) (hsent : lane'.sent = lane.sent)
    (hex : lane'.worker = .exited ↔ lane.worker = .exited)
    (hqueue : lane'.worker ≠ .failed →
      lane.worker ≠ .failed ∧ lane'.worker.unsent ++ lane'.queue =
        lane.worker.unsent ++ lane.queue) : Link codec job lane' tap chan := by
  obtain ⟨inChan, queued, h⟩ := h
  refine ⟨inChan, queued, henq.trans h.enqueued, fun hw => ?_, ?_, fun hd => ?_, ?_, h.got⟩
  · rw [(hqueue hw).2]
    exact h.queue (hqueue hw).1
  · simp only [hex]
    exact h.chan
  · exact ⟨hex.mpr (h.done hd).1, (h.done hd).2⟩
  · rw [hsent]
    simp only [hex]
    exact h.sent

/-- A reader step that neither receives nor ends. -/
theorem Link.reader (h : Link codec job lane tap chan) {tap' : Tap}
    (hrec : tap'.received = tap.received) (hgot : tap'.got = tap.got) (hold : tap.pc ≠ .done)
    (hnew : tap'.pc ≠ .done) : Link codec job lane tap' chan := by
  obtain ⟨inChan, queued, h⟩ := h
  refine ⟨inChan, queued, ?_, h.queue, ?_, fun hd => absurd hd hnew, ?_, ?_⟩
  · rw [hrec]
    exact h.enqueued
  · rw [h.chan]
    simp [hold, hnew]
  · rw [hrec]
    exact h.sent
  · rw [hgot, hrec, h.got]
    simp [hold, hnew]

theorem Link.push (h : Link codec job lane tap chan) (c : Chunk) :
    Link codec job (lane.push (sendItem codec job.useZstd c) c) tap chan := by
  obtain ⟨inChan, queued, h⟩ := h
  refine ⟨inChan, queued ++ [c], ?_, fun hw => ?_, h.chan, h.done, h.sent, h.got⟩
  · simp only [Lane.push, h.enqueued, List.append_assoc]
  · simp only [List.map_append, h.queue hw, List.append_assoc, Lane.push, List.map_cons,
      List.map_nil]

/-- A queued item is sent: one chunk goes from the queue to the channel. -/
theorem Link.emit_data (h : Link codec job lane tap chan) {item : SendItem}
    (hw : lane.worker = .sending item) :
    Link codec job
      { lane with worker := .sent item, sent := lane.sent ++ [.data item.payload] } tap
      (chan ++ [.data item.payload]) := by
  obtain ⟨inChan, queued, h⟩ := h
  have hne : lane.worker ≠ .exited := by rw [hw]; exact WorkerPc.noConfusion
  have hnd : tap.pc ≠ .done := fun hd => hne (h.done hd).1
  have hqueue := h.queue (by rw [hw]; exact WorkerPc.noConfusion)
  rw [hw] at hqueue
  obtain ⟨c, queued', rfl, hc, hqueue⟩ := List.map_eq_cons_iff.mp hqueue
  have hframe : Frame.data item.payload = dataFrame codec job c := by rw [← hc]; rfl
  refine ⟨inChan ++ [c], queued', ?_, fun _ => hqueue, ?_, fun hd => absurd hd hnd, ?_, h.got⟩
  · simp only [h.enqueued, List.append_assoc, List.singleton_append]
  · rw [h.chan]
    simp [hne, hframe]
  · simp only [h.sent, if_neg hne, hframe, List.append_nil, List.map_append, List.map_cons,
      List.map_nil, reduceCtorEq, if_false, List.append_assoc]

/-- The end mark is sent: nothing is queued any more. -/
theorem Link.emit_chunkEnd (h : Link codec job lane tap chan) (hw : lane.worker = .ending) :
    Link codec job { lane with worker := .exited, sent := lane.sent ++ [.chunkEnd] } tap
      (chan ++ [.chunkEnd]) := by
  obtain ⟨inChan, queued, h⟩ := h
  have hne : lane.worker ≠ .exited := by rw [hw]; exact WorkerPc.noConfusion
  have hnd : tap.pc ≠ .done := fun hd => hne (h.done hd).1
  refine ⟨inChan, queued, h.enqueued, fun _ => ?_, ?_, fun hd => absurd hd hnd, ?_, h.got⟩
  · rw [h.queue (by rw [hw]; exact WorkerPc.noConfusion), hw]
    rfl
  · rw [h.chan]
    simp [hne, hnd]
  · rw [h.sent]
    simp [hne]

/-- What a reader finds at the front of its channel: the next chunk, or the end mark with
    nothing behind it. -/
theorem Link.front (h : Link codec job lane tap chan) (hpc : tap.pc = .reading) {f : Frame}
    {rest : List Frame} (hchan : chan = f :: rest) :
    (∃ c ∈ lane.enqueued, f = dataFrame codec job c ∧
      Link codec job lane
        { pc := .decoded c, received := tap.received ++ [c], got := tap.got ++ [f] } rest) ∨
    (f = .chunkEnd ∧ lane.worker = .exited ∧ rest = [] ∧
      Link codec job lane { tap with pc := .done, got := tap.got ++ [f] } rest) := by
  obtain ⟨inChan, queued, h⟩ := h
  have hnd : tap.pc ≠ .done := by rw [hpc]; exact ReaderPc.noConfusion
  have hcons := h.chan
  rw [hchan] at hcons
  cases inChan with
  -- a chunk is on the channel: it is the next one the lane has sent
  | cons c inChan =>
    left
    obtain ⟨hf, hrest⟩ := List.cons.inj hcons
    refine ⟨c, by rw [h.enqueued]; simp, hf, inChan, queued, ?_, h.queue, ?_,
      fun hd => (by cases hd), ?_, ?_⟩
    · rw [h.enqueued, List.append_assoc, List.append_assoc, List.append_assoc]
      rfl
    · rw [hrest]
      simp [hnd]
    · rw [h.sent]
      simp
    · rw [h.got, hf]
      simp [hnd]
  | nil =>
    right
    -- no chunk is on the channel, so what is there is the end, and the worker has gone
    by_cases hw : lane.worker = .exited
    · rw [List.map_nil, List.nil_append, if_pos ⟨hw, hnd⟩] at hcons
      obtain ⟨rfl, rfl⟩ := List.cons.inj hcons
      refine ⟨rfl, hw, rfl, [], queued, h.enqueued, h.queue, by simp, fun _ => ⟨hw, rfl⟩,
        h.sent, ?_⟩
      rw [h.got]
      simp [hnd]
    · simp [hw] at hcons

/-- A worker that has exited has left nothing behind, and its reader is done or finds the
    end mark. -/
theorem Link.exited (h : Link codec job lane tap chan) (hlane : lane.Inv)
    (hw : lane.worker = .exited) :
    lane.queue = [] ∧ lane.sent = lane.enqueued.map (dataFrame codec job) ++ [.chunkEnd] ∧
      (tap.pc ≠ .done → chan ≠ []) := by
  obtain ⟨inChan, queued, h⟩ := h
  have hdry : lane.queue = [] := hlane.dry (by rw [hw]; rfl)
  have hqueued : queued = [] := by
    have := h.queue (by rw [hw]; exact WorkerPc.noConfusion)
    rw [hw, hdry] at this
    exact List.map_eq_nil_iff.mp this
  refine ⟨hdry, ?_, fun hnd => ?_⟩
  · rw [h.sent, h.enqueued, hqueued, if_pos hw, List.append_nil]
  · rw [h.chan, if_pos ⟨hw, hnd⟩]
    simp

/-- A reader that is done has received all that was enqueued, and the end mark was the
    last frame of its channel. -/
theorem Link.done (h : Link codec job lane tap chan) (hlane : lane.Inv) (hpc : tap.pc = .done) :
    lane.worker = .exited ∧ tap.received = lane.enqueued ∧ chan = [] ∧
      tap.got = lane.enqueued.map (dataFrame codec job) ++ [.chunkEnd] := by
  obtain ⟨inChan, queued, h⟩ := h
  obtain ⟨hw, hin⟩ := h.done hpc
  have hqueued : queued = [] := by
    have := h.queue (by rw [hw]; exact WorkerPc.noConfusion)
    rw [hw, hlane.dry (by rw [hw]; rfl)] at this
    exact List.map_eq_nil_iff.mp this
  have henq : lane.enqueued = tap.received := by
    rw [h.enqueued, hin, hqueued, List.append_nil, List.append_nil]
  refine ⟨hw, henq.symm, ?_, ?_⟩
  · rw [h.chan, hin]
    simp [hpc]
  · rw [h.got, if_pos hpc, henq]

end Link

/-! ## Both sides

`body k` is what channel `k` holds of this payload. It is a prefix of what the channel
holds: the sender goes on behind it as soon as `finish` has returned. -/

/-- What holds of scheduler, session and channels together; `body k` is what channel `k`
    holds of this payload. -/
structure PayloadInv {n : Nat} (codec : BlockCodec) (job : Job) (s : MuxSend n) (r : MuxRecv n)
    (body : Fin n → List Frame) : Prop where
  send : s.Inv job
  recv : r.Inv job
  link : ∀ k, Link codec job (s.lanes k) (r.taps k) (body k)

section PayloadInv

variable {n : Nat} {codec : BlockCodec} {job : Job} {s s' : MuxSend n} {r r' : MuxRecv n}
  {body : Fin n → List Frame}

theorem payloadInv_start (n : Nat) (codec : BlockCodec) (job : Job) :
    PayloadInv codec job (MuxSend.start n job.content job.offset)
      (MuxRecv.start n job.prior job.offset) fun _ => [] where
  send := MuxSend.start_inv n job
  recv := MuxRecv.start_inv n job
  link _ := link_start

/-- One channel changes on the sender's side. -/
theorem link_setLane (h : ∀ k, Link codec job (s.lanes k) (r.taps k) (body k)) {k : Fin n}
    {lane : Lane} {chan : List Frame} (hk : Link codec job lane (r.taps k) chan) (j : Fin n) :
    Link codec job ((s.setLane k lane).lanes j) (r.taps j) (Function.update body k chan j) := by
  by_cases hj : j = k
  · subst hj
    rw [MuxSend.setLane_lanes_self, Function.update_self]
    exact hk
  · rw [MuxSend.setLane_lanes_of_ne _ _ hj, Function.update_of_ne hj]
    exact h j

/-- One channel changes on the receiver's side. -/
theorem link_setTap (h : ∀ k, Link codec job (s.lanes k) (r.taps k) (body k)) {k : Fin n}
    {tap : Tap} {chan : List Frame} (hk : Link codec job (s.lanes k) tap chan) (j : Fin n) :
    Link codec job (s.lanes j) ((r.setTap k tap).taps j) (Function.update body k chan j) := by
  by_cases hj : j = k
  · subst hj
    rw [MuxRecv.setTap_taps_self, Function.update_self]
    exact hk
  · rw [MuxRecv.setTap_taps_of_ne _ _ hj, Function.update_of_ne hj]
    exact h j

/-- A worker step that puts nothing on its channel. -/
theorem PayloadInv.link_worker (h : PayloadInv codec job s r body) {k : Fin n} {lane : Lane}
    (henq : lane.enqueued = (s.lanes k).enqueued) (hsent : lane.sent = (s.lanes k).sent)
    (hex : lane.worker = .exited ↔ (s.lanes k).worker = .exited)
    (hqueue : lane.worker ≠ .failed → (s.lanes k).worker ≠ .failed ∧
      lane.worker.unsent ++ lane.queue = (s.lanes k).worker.unsent ++ (s.lanes k).queue)
    (j : Fin n) : Link codec job ((s.setLane k lane).lanes j) (r.taps j) (body j) := by
  have := link_setLane h.link ((h.link k).worker henq hsent hex hqueue) j
  rwa [Function.update_eq_self] at this

/-- **Every move of the sender keeps the picture.** -/
theorem PayloadInv.sendMove (h : PayloadInv codec job s r body) {m : SendMove n}
    {out : Option (Fin n × Frame)} (hs : m.run codec job.useZstd s = some (s', out)) :
    PayloadInv codec job s' r (push body out) := by
  cases m with
  | read =>
    obtain ⟨s₁, hop, ⟨⟩⟩ := Option.map_eq_some_iff.mp hs
    refine ⟨h.send.read hop, h.recv, ?_⟩
    unfold MuxSend.read at hop
    split at hop
    next => split_ifs at hop <;> obtain rfl := Option.some.inj hop <;> exact h.link
    next => cases hop
  -- The chunk in hand is now behind what is queued on `k`; the other channels are as they
  -- were.
  | enqueue k =>
    obtain ⟨s₁, hop, ⟨⟩⟩ := Option.map_eq_some_iff.mp hs
    refine ⟨h.send.enqueue hop, h.recv, fun j => ?_⟩
    obtain ⟨chunk, -, -, -, rfl⟩ := MuxSend.enqueue_cases hop
    have := link_setLane (s := { s with pc := .reading }) h.link ((h.link k).push chunk) j
    rwa [Function.update_eq_self] at this
  | rethrow =>
    obtain ⟨s₁, hop, ⟨⟩⟩ := Option.map_eq_some_iff.mp hs
    refine ⟨h.send.rethrow hop, h.recv, ?_⟩
    unfold MuxSend.rethrow at hop
    split at hop
    next => obtain rfl := Option.some.inj hop; exact h.link
    next => cases hop
  -- The item goes from the queue into the hand of the worker: the picture counts both as
  -- queued.
  | take k =>
    obtain ⟨s₁, hop, ⟨⟩⟩ := Option.map_eq_some_iff.mp hs
    refine ⟨h.send.take hop, h.recv, ?_⟩
    obtain ⟨item, queue, hw, -, hq, rfl⟩ := MuxSend.take_cases hop
    exact h.link_worker rfl rfl (by simp [hw])
      fun _ => ⟨by simp [hw], by simp [hw, hq, WorkerPc.unsent]⟩
  | leave k =>
    obtain ⟨s₁, hop, ⟨⟩⟩ := Option.map_eq_some_iff.mp hs
    refine ⟨h.send.leave hop, h.recv, ?_⟩
    obtain ⟨hw, -, -, -, rfl⟩ := MuxSend.leave_cases hop
    exact h.link_worker rfl rfl (by simp [hw])
      fun _ => ⟨by simp [hw], by simp [hw, WorkerPc.unsent]⟩
  | abort k =>
    obtain ⟨s₁, hop, ⟨⟩⟩ := Option.map_eq_some_iff.mp hs
    refine ⟨h.send.abort hop, h.recv, ?_⟩
    obtain ⟨hw, -, rfl⟩ := MuxSend.abort_cases hop
    exact h.link_worker rfl rfl (by simp [hw]) fun hf => absurd rfl hf
  -- The one move that puts something on a channel: the border to the left of the queue
  -- moves.
  | emit k =>
    obtain ⟨⟨f, s₁⟩, hop, ⟨⟩⟩ := Option.map_eq_some_iff.mp hs
    refine ⟨h.send.emit hop, h.recv, ?_⟩
    obtain ⟨item, hw, rfl, rfl⟩ | ⟨hw, rfl, rfl⟩ := MuxSend.emit_cases hop
    · exact link_setLane h.link ((h.link k).emit_data hw)
    · exact link_setLane h.link ((h.link k).emit_chunkEnd hw)
  -- The worker is out of the picture from here on, and an error is set.
  | fail k error =>
    obtain ⟨s₁, hop, ⟨⟩⟩ := Option.map_eq_some_iff.mp hs
    refine ⟨h.send.fail hop, h.recv, ?_⟩
    have hw : (s.lanes k).worker ≠ .exited := by
      rcases MuxSend.fail_cases hop with ⟨item, hw⟩ | hw <;> simp [hw]
    obtain rfl := MuxSend.fail_eq hop
    exact PayloadInv.link_worker (s := s.setError error) ⟨h.send.setError error, h.recv, h.link⟩
      rfl rfl ⟨fun hf => (by cases hf), fun hf => absurd hf hw⟩ fun hf => absurd rfl hf
  | settle k =>
    obtain ⟨s₁, hop, ⟨⟩⟩ := Option.map_eq_some_iff.mp hs
    refine ⟨h.send.settle hop, h.recv, ?_⟩
    obtain ⟨item, hw, rfl⟩ := MuxSend.settle_cases hop
    exact h.link_worker rfl rfl (by simp [hw])
      fun _ => ⟨by simp [hw], by simp [hw, WorkerPc.unsent]⟩
  | join =>
    obtain ⟨s₁, hop, ⟨⟩⟩ := Option.map_eq_some_iff.mp hs
    refine ⟨h.send.join hop, h.recv, ?_⟩
    have hlanes : s'.lanes = s.lanes := by
      unfold MuxSend.join at hop
      split at hop
      next =>
        split at hop
        · obtain rfl := Option.some.inj hop; rfl
        · obtain rfl := Option.some.inj hop; rfl
        · cases hop
      next => cases hop
    rw [hlanes]
    exact h.link

/-- **A reader takes the frame at the front of its channel**: it is the next chunk, or the
    end mark with nothing of this payload behind it; no check fails. -/
theorem PayloadInv.accept (h : PayloadInv codec job s r body) {k : Fin n} {f : Frame}
    {rest : List Frame} (hbody : body k = f :: rest) (hpc : (r.taps k).pc = .reading) :
    ∃ r', r.accept codec job.params k f = some r' ∧ r'.error = r.error ∧
      PayloadInv codec job s r' (Function.update body k rest) := by
  rcases (h.link k).front hpc hbody with ⟨c, hc, rfl, hlink⟩ | ⟨rfl, -, -, hlink⟩
  · have hmem : c ∈ job.chunks := h.send.mem_chunks hc
    exact ⟨_, MuxRecv.accept_data hpc hmem, rfl, h.send, h.recv.accept_data hpc hmem,
      link_setTap h.link hlink⟩
  · exact ⟨_, MuxRecv.accept_chunkEnd hpc, rfl, h.send, h.recv.accept_chunkEnd hpc,
      link_setTap h.link hlink⟩

/-- Every other move of a reader keeps the picture. -/
theorem PayloadInv.recvMove (h : PayloadInv codec job s r body) {m : RecvMove n}
    (hr : m.run r = some r') : PayloadInv codec job s r' body := by
  -- what links lane and reader is only touched where the reader moves
  have hlink {k : Fin n} {tap : Tap} (hk : Link codec job (s.lanes k) tap (body k)) (j : Fin n) :
      Link codec job (s.lanes j) ((r.setTap k tap).taps j) (body j) := by
    have := link_setTap h.link hk j
    rwa [Function.update_eq_self] at this
  cases m with
  | fail k error =>
    refine ⟨h.send, h.recv.fail hr, ?_⟩
    change r.fail k error = some r' at hr
    unfold MuxRecv.fail at hr
    split_ifs at hr with hpc
    obtain rfl := Option.some.inj hr
    exact hlink ((h.link k).reader rfl rfl (by simp [hpc]) (by simp))
  | write k =>
    refine ⟨h.send, h.recv.write hr, ?_⟩
    obtain ⟨chunk, hpc, rfl⟩ := MuxRecv.write_cases hr
    exact hlink ((h.link k).reader rfl rfl (by simp [hpc]) (by simp))
  | count k =>
    refine ⟨h.send, h.recv.count hr, ?_⟩
    obtain ⟨size, delta, hpc, rfl⟩ := MuxRecv.count_cases hr
    exact hlink ((h.link k).reader rfl rfl (by simp [hpc]) (by simp))

/-! ## What it says

From the pictures of all channels to the file: every reader done means every channel empty
and every queue empty, so what was enqueued is what was received, and that is all the
chunks there are. -/

/-- Every reader that is over without an error of the session is done. -/
theorem PayloadInv.done_of_joined (h : PayloadInv codec job s r body) (hj : r.joined)
    (herr : r.error = none) (k : Fin n) : (r.taps k).pc = .done := by
  have hk := hj k
  have hnf : (r.taps k).pc ≠ .failed := fun hf => h.recv.failed k hf herr
  revert hk hnf
  cases (r.taps k).pc <;> simp [ReaderPc.stopped]

/-- **The payload has arrived.** When every reader is done, the chunks written are exactly
    the chunks of the file, each once; the partial file is the target, and both counts are
    its size. -/
theorem PayloadInv.arrived (h : PayloadInv codec job s r body) (hn : 0 < n)
    (hdone : ∀ k, (r.taps k).pc = .done) :
    r.log.Perm job.chunks ∧ r.part = job.target ∧ r.written = job.content.length ∧
      r.ranges.front = job.content.length ∧
      s.enqueuedChunks = (job.chunks : Multiset Chunk) ∧ ∀ k, body k = [] := by
  have hlane (k : Fin n) := (h.link k).done (h.send.lane k) (hdone k)
  have henq : s.enqueuedChunks = (job.chunks : Multiset Chunk) :=
    h.send.enqueuedChunks_eq (k := ⟨0, hn⟩) (by rw [(hlane _).1]; rfl)
  have hrec : r.receivedChunks = s.enqueuedChunks :=
    Finset.sum_congr rfl fun k _ => by rw [(hlane k).2.1]
  have hunw : r.unwritten = 0 := Finset.sum_eq_zero fun k _ => by rw [hdone k]; rfl
  have hunc : r.uncounted = 0 := Finset.sum_eq_zero fun k _ => by rw [hdone k]; rfl
  have hlog : (r.log : Multiset Chunk) = job.chunks := by
    have hacc := h.recv.account
    rw [hunw, add_zero, hrec, henq] at hacc
    exact hacc.symm
  obtain ⟨hpart, hfront, hwritten⟩ := h.recv.complete hlog
  exact ⟨Multiset.coe_eq_coe.mp hlog, hpart, by omega, hfront, henq, fun k => (hlane k).2.2.1⟩

/-- **Nothing is lost in the scheduler.** When `finish` has returned, every queue is empty
    and on each channel left what was enqueued on it, and then the end mark. -/
theorem PayloadInv.drained (h : PayloadInv codec job s r body) (hn : 0 < n)
    (hfin : s.pc = .finished) :
    s.enqueuedChunks = (job.chunks : Multiset Chunk) ∧ ∀ k, (s.lanes k).queue = [] ∧
      (s.lanes k).sent = (s.lanes k).enqueued.map (dataFrame codec job) ++ [.chunkEnd] := by
  have hex (k : Fin n) := h.send.finished hfin k
  refine ⟨h.send.enqueuedChunks_eq (k := ⟨0, hn⟩) (by rw [hex]; rfl), fun k => ?_⟩
  obtain ⟨hqueue, hsent, -⟩ := (h.link k).exited (h.send.lane k) (hex k)
  exact ⟨hqueue, hsent⟩

/-! ## Progress

By contradiction. If no reader and no worker can move, all readers wait at empty channels
and all workers at empty queues, so nothing is pending and the main thread can go on. -/

/-- With nothing pending anywhere, a chunk may go to any channel. -/
theorem MuxSend.ready_of_idle (size : Nat) (hidle : ∀ k, (s.lanes k).pendingBytes = 0)
    (k : Fin n) : s.ready size k := by
  have htotal : s.totalPending = 0 := Finset.sum_eq_zero fun k _ => hidle k
  exact ⟨by omega, by rw [hidle k]; exact Nat.zero_le _⟩

/-- **Some thread can move.** While no side has failed and the payload is not over on both,
    there is a move inside one side, a frame for a channel that holds nothing of this
    payload, or a reader before a frame. -/
theorem PayloadInv.progress (h : PayloadInv codec job s r body) (hn : 0 < n)
    (hserr : s.error = none) (hrerr : r.error = none)
    (hopen : ¬ (s.pc = .finished ∧ r.joined)) :
    (∃ m s', SendMove.regular m = true ∧ SendMove.run codec job.useZstd s m = some (s', none)) ∨
    (∃ m k f s', SendMove.regular m = true ∧
      SendMove.run codec job.useZstd s m = some (s', some (k, f)) ∧ body k = []) ∨
    (∃ m r', RecvMove.regular m = true ∧ RecvMove.run r m = some r') ∨
    (∃ k f rest, body k = f :: rest ∧ (r.taps k).pc = .reading) := by
  by_contra hstuck
  simp only [not_or, not_exists, not_and] at hstuck
  obtain ⟨hquiet, hmute, hstill, hempty⟩ := hstuck
  -- every reader is done or waits at an empty channel
  have hbody (k : Fin n) : (r.taps k).pc ≠ .done → (r.taps k).pc = .reading := by
    intro hnd
    cases hpc : (r.taps k).pc with
    | reading => rfl
    | decoded chunk =>
      have := hstill (.write k)
      simp [RecvMove.regular, RecvMove.run, MuxRecv.write, hpc] at this
    | wrote size delta =>
      have := hstill (.count k)
      simp [RecvMove.regular, RecvMove.run, MuxRecv.count, hpc] at this
    | done => exact absurd hpc hnd
    | failed => exact absurd hrerr (h.recv.failed k hpc)
  have hnil (k : Fin n) : body k = [] := by
    by_cases hd : (r.taps k).pc = .done
    · exact ((h.link k).done (h.send.lane k) hd).2.2.1
    · cases hb : body k with
      | nil => rfl
      | cons f rest => exact absurd (hbody k hd) (hempty k f rest hb)
  -- every worker waits at an empty queue or has exited
  have hworker (k : Fin n) : (s.lanes k).worker = .exited ∨
      ((s.lanes k).worker = .waiting ∧ (s.lanes k).queue = [] ∧ s.pc.finishing = false) := by
    cases hw : (s.lanes k).worker with
    | waiting =>
      right
      cases hq : (s.lanes k).queue with
      | cons item queue =>
        have := hquiet (.take k)
        simp [SendMove.regular, SendMove.run, MuxSend.take, hw, hserr, hq] at this
      | nil =>
        refine ⟨rfl, rfl, Bool.eq_false_iff.mpr fun hfin => ?_⟩
        have := hquiet (.leave k)
        simp [SendMove.regular, SendMove.run, MuxSend.leave, hw, hserr, hq, hfin] at this
    | sending item =>
      have := hmute (.emit k) k
      simp [SendMove.regular, SendMove.run, MuxSend.emit, hw, hnil k] at this
    | sent item =>
      have := hquiet (.settle k)
      simp [SendMove.regular, SendMove.run, MuxSend.settle, hw] at this
    | ending =>
      have := hmute (.emit k) k
      simp [SendMove.regular, SendMove.run, MuxSend.emit, hw, hnil k] at this
    | exited => exact .inl rfl
    | failed => exact absurd hserr (h.send.failed k hw)
  -- The flag of `finish` is what lets a worker with an empty queue go.
  have hexited (hfin : s.pc.finishing = true) (k : Fin n) : (s.lanes k).worker = .exited :=
    (hworker k).resolve_right fun hk => by simp [hfin] at hk
  -- So it is the main thread that has to move: it reads, enqueues or joins.
  cases hpc : s.pc with
  | reading =>
    have := hquiet .read
    by_cases hun : s.unread = [] <;>
      simp [SendMove.regular, SendMove.run, MuxSend.read, hpc, hun] at this
  | holding chunk =>
    have hidle (k : Fin n) : (s.lanes k).pendingBytes = 0 := by
      obtain ⟨hw, hq, -⟩ := (hworker k).resolve_left fun hex => by
        have := h.send.closing k (by rw [hex]; rfl)
        simp [hpc, ProducerPc.finishing] at this
      rw [(h.send.lane k).pending (by simp [hw]), hw, hq]
      rfl
    have hready := MuxSend.ready_of_idle (sendItem codec job.useZstd chunk).payload.length hidle ⟨0, hn⟩
    have := hquiet (.enqueue ⟨0, hn⟩)
    simp [SendMove.regular, SendMove.run, MuxSend.enqueue, hpc, hserr, hready] at this
  | joining =>
    have hstop : ∀ k, (s.lanes k).worker.stopped = true := fun k => by
      rw [hexited (by simp [hpc, ProducerPc.finishing]) k]
      rfl
    have := hquiet .join
    simp [SendMove.regular, SendMove.run, MuxSend.join, hpc, hserr, hstop] at this
  | unwinding => exact h.send.threw (by simp [hpc, ProducerPc.live]) hserr
  | threw => exact h.send.threw (by simp [hpc, ProducerPc.live]) hserr
  | finished =>
    refine hopen ⟨hpc, fun k => ?_⟩
    have hex := hexited (by simp [hpc, ProducerPc.finishing]) k
    by_cases hd : (r.taps k).pc = .done
    · rw [hd]
      rfl
    · exact absurd (hnil k) (((h.link k).exited (h.send.lane k) hex).2.2 hd)

end PayloadInv
end Kiko.Transfer
