import Kiko.Transfer.Wire

/-!
# Sending one payload over many channels (`transfer/mux_send_scheduler`)

The sender's main thread reads the file a chunk at a time, packs each chunk and hands it
to `MuxSendScheduler::enqueue`, which picks a channel with room; one worker per channel
takes items off its queue and sends them. After the last chunk `finish` lets every worker
run its queue dry, send `ChunkEnd` and stop, and joins them.

```
    read ──> enqueue k ──> queue k ──take──> sending ──emit──> sent ──settle──> waiting
      │                                                                            │
      └─ end of file: finish ─────────────────────────────────> queue k empty: ending
                                                                ──emit ChunkEnd──> exited
```

Each arrow is one operation on the scheduler's state; the channel is the label's, so every
choice `choose_ready_channel_locked` can make is a step, and a send that throws is one too.
The state keeps two histories per channel that the code does not have: which chunks were
enqueued on it, and which frames left on it.

`SendInv` is what every operation keeps. Its accounting clause is the one the rest of the
development reads: the chunks enqueued so far, the one in hand and the ones still to be
read are together exactly the chunks of the file.

Three decisions in the model. The reading loop and the scheduler are one state, because the
code has one thread for both: `enqueue` blocks the loop. The waits of the code are not
places here: a step that the code waits for is one that is not enabled yet, which says as
much about what is sent and leaves the condition variable to `Kiko.Transfer.MuxScheduler`.
And the numbers are exact, which that module justifies.
-/

set_option autoImplicit false

namespace Kiko.Transfer

/-- One file's payload as the two sides have set it up: what the sender reads, and what
    the receiver's partial file holds up to the agreed resume offset. -/
structure Job where
  relative : String
  content : Bytes
  prior : Bytes
  useZstd : Bool
  fits : content.length ≤ u64Max
  resumes : prior.length ≤ content.length

namespace Job

/-- The resume offset both sides start from. -/
def offset (job : Job) : Nat := job.prior.length

/-- What the partial file is to become. -/
def target (job : Job) : Bytes := job.prior ++ job.content.drop job.offset

/-- The chunks the sender reads. -/
def chunks (job : Job) : List Chunk :=
  Pieces.cut kMuxChunk job.offset (job.content.drop job.offset)

/-- When the partial file holds the beginning of the source, it is to become the source. -/
theorem target_eq {job : Job} (h : job.prior <+: job.content) : job.target = job.content := by
  obtain ⟨rest, hrest⟩ := h
  rw [target, offset, ← hrest, List.drop_left]

theorem length_target (job : Job) : job.target.length = job.content.length := by
  have := job.resumes
  simp only [target, offset, List.length_append, List.length_drop]
  omega

theorem drop_target (job : Job) : job.target.drop job.offset = job.content.drop job.offset :=
  List.drop_left

/-- A chunk stands in the target where it says, and ends within it. -/
theorem chunk_bounds {job : Job} {c : Chunk} (h : c ∈ job.chunks) :
    c.IsSlice job.target ∧ job.offset ≤ c.offset ∧ c.stop ≤ job.content.length ∧
      c.bytes.length ≤ kMuxChunk := by
  have hslice := Pieces.isSlice_of_mem_cut kMuxChunk_pos job.drop_target h
  have hlt := Pieces.offset_lt_of_mem_cut kMuxChunk_pos h
  have hres : job.offset ≤ job.content.length := job.resumes
  simp only [List.length_drop] at hlt
  have hstop := hslice.stop_le (by rw [length_target]; omega)
  rw [length_target] at hstop
  exact ⟨hslice, Pieces.le_offset_of_mem_cut kMuxChunk_pos h, hstop,
    Pieces.length_le_of_mem_cut kMuxChunk_pos h⟩

end Job

/-- `kMaxPendingPerChannel`. -/
def kMaxPendingPerChannel : Nat := 4 * kMuxChunk

/-- The payload `send_files_mux` packs a chunk into. -/
def packChunk (codec : BlockCodec) (useZstd : Bool) (c : Chunk) : Bytes :=
  putU64 c.offset ++ putU32 c.bytes.length ++
    if useZstd then codec.compress c.bytes else c.bytes

/-- `MuxSendScheduler::SendItem`. -/
structure SendItem where
  payload : Bytes
  rawSize : Nat
deriving DecidableEq, Repr

/-- The item `enqueue` is called with. -/
def sendItem (codec : BlockCodec) (useZstd : Bool) (c : Chunk) : SendItem :=
  { payload := packChunk codec useZstd c, rawSize := c.bytes.length }

/-- Where a worker stands. -/
inductive WorkerPc
  /-- at the wait for its queue -/
  | waiting
  | sending (item : SendItem)
  /-- the item is on the channel, its bytes are not yet given back -/
  | sent (item : SendItem)
  /-- out of its loop, `ChunkEnd` is next -/
  | ending
  | exited
  /-- stopped by an error, its own or another worker's -/
  | failed
deriving DecidableEq, Repr

namespace WorkerPc

/-- The item it has taken and not yet given back. -/
def inHand : WorkerPc → List SendItem
  | .sending item | .sent item => [item]
  | _ => []

/-- The item it has taken and not yet sent. -/
def unsent : WorkerPc → List SendItem
  | .sending item => [item]
  | _ => []

/-- It has left its loop the regular way. -/
def closing : WorkerPc → Bool
  | .ending | .exited => true
  | _ => false

/-- The thread is over. -/
def stopped : WorkerPc → Bool
  | .exited | .failed => true
  | _ => false

end WorkerPc

/-- One channel of the scheduler. -/
structure Lane where
  queue : List SendItem := []
  pendingBytes : Nat := 0
  worker : WorkerPc := .waiting
  /-- history: the chunks enqueued here -/
  enqueued : List Chunk := []
  /-- history: the frames that left here -/
  sent : List Frame := []
deriving DecidableEq, Repr

/-- An item, packed from `chunk`, is queued. -/
def Lane.push (lane : Lane) (item : SendItem) (chunk : Chunk) : Lane :=
  { lane with
    queue := lane.queue ++ [item]
    pendingBytes := lane.pendingBytes + item.payload.length
    enqueued := lane.enqueued ++ [chunk] }

/-- Where the main thread stands. -/
inductive ProducerPc
  | reading
  /-- in `enqueue` with this chunk -/
  | holding (chunk : Chunk)
  /-- in `finish`, joining the workers -/
  | joining
  /-- `enqueue` threw: the destructor's `finish` joins the workers -/
  | unwinding
  | finished
  | threw
deriving DecidableEq, Repr

namespace ProducerPc

/-- The chunk in hand. -/
def held : ProducerPc → List Chunk
  | .holding chunk => [chunk]
  | _ => []

/-- `finishing_`. -/
def finishing : ProducerPc → Bool
  | .reading | .holding _ => false
  | _ => true

/-- Nothing has been thrown at the main thread. -/
def live : ProducerPc → Bool
  | .unwinding | .threw => false
  | _ => true

end ProducerPc

/-- `MuxSendScheduler` with the reading loop that feeds it. -/
structure MuxSend (n : Nat) where
  pc : ProducerPc := .reading
  unread : Bytes
  total : Nat
  lanes : Fin n → Lane := fun _ => {}
  error : Option KikoError := none

/-! ## The operations

Each is a partial function on the state, undefined where the code cannot be at that point.
They are composed into the system of a whole transfer in `Kiko.Transfer.MuxDelivery`,
together with the channels and the readers; here they are only shown to keep `Inv`. -/

namespace MuxSend

variable {n : Nat} (codec : BlockCodec) (useZstd : Bool)

/-- The scheduler of a payload, right after the resume answer: `content` is read on from
    `offset`. -/
def start (n : Nat) (content : Bytes) (offset : Nat) : MuxSend n :=
  { unread := content.drop offset, total := offset }

def setLane (s : MuxSend n) (k : Fin n) (lane : Lane) : MuxSend n :=
  { s with lanes := Function.update s.lanes k lane }

@[simp] theorem setLane_lanes_self (s : MuxSend n) (k : Fin n) (lane : Lane) :
    (s.setLane k lane).lanes k = lane := Function.update_self ..

@[simp] theorem setLane_lanes_of_ne (s : MuxSend n) {k j : Fin n} (lane : Lane) (h : j ≠ k) :
    (s.setLane k lane).lanes j = s.lanes j := Function.update_of_ne h ..

@[simp] theorem setLane_pc (s : MuxSend n) (k : Fin n) (lane : Lane) :
    (s.setLane k lane).pc = s.pc := rfl

@[simp] theorem setLane_error (s : MuxSend n) (k : Fin n) (lane : Lane) :
    (s.setLane k lane).error = s.error := rfl

/-- `set_error`: the first error stays. -/
def setError (s : MuxSend n) (error : KikoError) : MuxSend n :=
  { s with error := some (s.error.getD error) }

/-- `SendFileSession::read_next`; at the end of the file the loop ends in `finish`. -/
def read (s : MuxSend n) : Option (MuxSend n) :=
  match s.pc with
  | .reading =>
    if s.unread = [] then some { s with pc := .joining }
    else some { s with
      pc := .holding ⟨s.total, s.unread.take kMuxChunk⟩
      unread := s.unread.drop kMuxChunk
      total := s.total + (s.unread.take kMuxChunk).length }
  | _ => none

/-- `total_pending_locked`. -/
def totalPending (s : MuxSend n) : Nat := ∑ k, (s.lanes k).pendingBytes

/-- `choose_ready_channel_locked` may answer `k`. -/
def ready (s : MuxSend n) (payloadSize : Nat) (k : Fin n) : Prop :=
  s.totalPending ≤ max (n * kMaxPendingPerChannel) payloadSize - payloadSize ∧
    (s.lanes k).pendingBytes ≤ max kMaxPendingPerChannel payloadSize - payloadSize

instance (s : MuxSend n) (size : Nat) (k : Fin n) : Decidable (s.ready size k) :=
  inferInstanceAs (Decidable (_ ∧ _))

/-- The end of `enqueue`, on channel `k`. -/
def enqueue (k : Fin n) (s : MuxSend n) : Option (MuxSend n) :=
  match s.pc with
  | .holding chunk =>
    let item := sendItem codec useZstd chunk
    if s.error = none ∧ s.ready item.payload.length k then
      some ({ s with pc := .reading }.setLane k ((s.lanes k).push item chunk))
    else none
  | _ => none

/-- `enqueue` finds an error and rethrows it. -/
def rethrow (s : MuxSend n) : Option (MuxSend n) :=
  match s.pc, s.error with
  | .holding _, some _ => some { s with pc := .unwinding }
  | _, _ => none

/-- The end of `finish`: every worker is joined. -/
def join (s : MuxSend n) : Option (MuxSend n) :=
  if ∀ k, (s.lanes k).worker.stopped then
    match s.pc with
    | .joining => some { s with pc := if s.error = none then .finished else .threw }
    | .unwinding => some { s with pc := .threw }
    | _ => none
  else none

/-- A worker takes the next item off its queue. -/
def take (k : Fin n) (s : MuxSend n) : Option (MuxSend n) :=
  match (s.lanes k).worker, s.error, (s.lanes k).queue with
  | .waiting, none, item :: queue =>
    some (s.setLane k { s.lanes k with worker := .sending item, queue := queue })
  | _, _, _ => none

/-- A worker leaves its loop: nothing is queued and nothing will be. -/
def leave (k : Fin n) (s : MuxSend n) : Option (MuxSend n) :=
  match (s.lanes k).worker, s.error, (s.lanes k).queue with
  | .waiting, none, [] =>
    if s.pc.finishing then some (s.setLane k { s.lanes k with worker := .ending }) else none
  | _, _, _ => none

/-- A worker finds an error of another one and returns. -/
def abort (k : Fin n) (s : MuxSend n) : Option (MuxSend n) :=
  match (s.lanes k).worker, s.error with
  | .waiting, some _ => some (s.setLane k { s.lanes k with worker := .failed })
  | _, _ => none

/-- A worker puts a frame on its channel. -/
def emit (k : Fin n) (s : MuxSend n) : Option (Frame × MuxSend n) :=
  match (s.lanes k).worker with
  | .sending item => some (.data item.payload, s.setLane k { s.lanes k with
      worker := .sent item, sent := (s.lanes k).sent ++ [.data item.payload] })
  | .ending => some (.chunkEnd, s.setLane k { s.lanes k with
      worker := .exited, sent := (s.lanes k).sent ++ [.chunkEnd] })
  | _ => none

/-- A send throws. -/
def fail (k : Fin n) (error : KikoError) (s : MuxSend n) : Option (MuxSend n) :=
  match (s.lanes k).worker with
  | .sending _ | .ending =>
    some ((s.setError error).setLane k { s.lanes k with worker := .failed })
  | _ => none

/-- The bytes of a sent item are given back. -/
def settle (k : Fin n) (s : MuxSend n) : Option (MuxSend n) :=
  match (s.lanes k).worker with
  | .sent item => some (s.setLane k { s.lanes k with
      worker := .waiting
      pendingBytes := (s.lanes k).pendingBytes -
        min (s.lanes k).pendingBytes item.payload.length })
  | _ => none

end MuxSend

/-! ## The invariant

`Accounted` is stated with a remainder: whatever is not yet enqueued. While the main thread
is well the remainder is what it has in hand and what it has not read; when it has thrown
the remainder may be anything, and when a worker has ended the regular way it is empty. -/

/-- What holds of one channel of the scheduler. -/
structure Lane.Inv (lane : Lane) : Prop where
  /-- `pending_bytes` counts what is queued and what is in hand -/
  pending : lane.worker ≠ .failed →
    lane.pendingBytes = ((lane.worker.inHand ++ lane.queue).map (·.payload.length)).sum
  dry : lane.worker.closing = true → lane.queue = []

namespace MuxSend

variable {n : Nat} {codec : BlockCodec} {useZstd : Bool} {job : Job} {s s' : MuxSend n} {k : Fin n}

/-- The chunks enqueued so far, over all channels. -/
def enqueuedChunks (s : MuxSend n) : Multiset Chunk := ∑ k, ((s.lanes k).enqueued : Multiset Chunk)

/-- Every chunk of the file is enqueued, in hand or still to be read. -/
def Accounted (job : Job) (s : MuxSend n) (rest : Multiset Chunk) : Prop :=
  s.enqueuedChunks + rest = (job.chunks : Multiset Chunk) ∧
    (s.pc.live = true →
      rest = (s.pc.held : Multiset Chunk) + (Pieces.cut kMuxChunk s.total s.unread : Multiset Chunk))
    ∧ ∀ k, (s.lanes k).worker.closing = true → rest = 0

/-- What every operation of the scheduler keeps. -/
structure Inv (job : Job) (s : MuxSend n) : Prop where
  lane : ∀ k, (s.lanes k).Inv
  account : ∃ rest, s.Accounted job rest
  closing : ∀ k, (s.lanes k).worker.closing = true → s.pc.finishing = true
  exhausted : s.pc = .joining ∨ s.pc = .finished → s.unread = []
  finished : s.pc = .finished → ∀ k, (s.lanes k).worker = .exited
  failed : ∀ k, (s.lanes k).worker = .failed → s.error ≠ none
  threw : s.pc.live = false → s.error ≠ none

theorem start_inv (n : Nat) (job : Job) : (start n job.content job.offset).Inv job where
  lane _ := ⟨fun _ => rfl, fun h => by cases h⟩
  account := ⟨job.chunks, by simp [enqueuedChunks, start], fun _ => by simp [start, Job.chunks,
    ProducerPc.held], fun _ h => by cases h⟩
  closing _ h := by cases h
  exhausted h := by rcases h with h | h <;> cases h
  finished h := by cases h
  failed _ h := by cases h
  threw h := by cases h

/-- Replacing one channel leaves the chunks enqueued on the others alone. -/
theorem enqueuedChunks_setLane (s : MuxSend n) (k : Fin n) (lane : Lane) :
    (s.setLane k lane).enqueuedChunks + ((s.lanes k).enqueued : Multiset Chunk) =
      s.enqueuedChunks + (lane.enqueued : Multiset Chunk) :=
  Pieces.sum_update s.lanes k lane fun l => (l.enqueued : Multiset Chunk)

theorem enqueuedChunks_setLane_eq {lane : Lane} (h : lane.enqueued = (s.lanes k).enqueued) :
    (s.setLane k lane).enqueuedChunks = s.enqueuedChunks := by
  have := enqueuedChunks_setLane s k lane
  rw [h] at this
  exact add_right_cancel this

/-- A step of one worker keeps the invariant when it enqueues nothing, and when it leaves
    its loop only with nothing left to come. -/
theorem Inv.setLane (h : s.Inv job) {lane : Lane}
    (henq : lane.enqueued = (s.lanes k).enqueued) (hlane : lane.Inv)
    (hclosing : lane.worker.closing = true →
      (s.lanes k).worker.closing = true ∨ (s.error = none ∧ s.pc.finishing = true))
    (hfinished : s.pc = .finished → lane.worker = .exited)
    (hfailed : lane.worker = .failed → s.error ≠ none) : (s.setLane k lane).Inv job where
  lane j := by
    by_cases hj : j = k
    · subst hj
      rw [setLane_lanes_self]
      exact hlane
    · rw [setLane_lanes_of_ne _ _ hj]
      exact h.lane j
  account := by
    -- a lane that has the same chunks leaves the account as it was; one that leaves early
    -- has nothing before it
    obtain ⟨rest, hsum, hrest, hzero⟩ := h.account
    refine ⟨rest, by rw [enqueuedChunks_setLane_eq henq, hsum], hrest, fun j hj => ?_⟩
    by_cases hjk : j = k
    · subst hjk
      rw [setLane_lanes_self] at hj
      rcases hclosing hj with hold | ⟨herr, hfin⟩
      · exact hzero j hold
      · -- leaving without an error happens in `finish`, so the whole file has been read
        have hlive : s.pc.live = true := by
          by_contra hlive
          exact h.threw (by simpa using hlive) herr
        have hpc : s.pc = .joining ∨ s.pc = .finished := by
          revert hfin hlive
          cases s.pc <;> simp [ProducerPc.finishing, ProducerPc.live]
        rw [hrest hlive, h.exhausted hpc]
        rcases hpc with hpc | hpc <;> simp [hpc, ProducerPc.held]
    · rw [setLane_lanes_of_ne _ _ hjk] at hj
      exact hzero j hj
  closing j hj := by
    -- only the changed lane has to be looked at, and what it may do is a premise
    by_cases hjk : j = k
    · subst hjk
      rw [setLane_lanes_self] at hj
      rcases hclosing hj with hold | ⟨-, hfin⟩
      · exact h.closing j hold
      · exact hfin
    · rw [setLane_lanes_of_ne _ _ hjk] at hj
      exact h.closing j hj
  exhausted := h.exhausted
  finished hpc j := by
    by_cases hjk : j = k
    · subst hjk
      rw [setLane_lanes_self]
      exact hfinished hpc
    · rw [setLane_lanes_of_ne _ _ hjk]
      exact h.finished hpc j
  failed j hj := by
    by_cases hjk : j = k
    · subst hjk
      rw [setLane_lanes_self] at hj
      exact hfailed hj
    · rw [setLane_lanes_of_ne _ _ hjk] at hj
      exact h.failed j hj
  threw := h.threw

theorem Inv.setError (h : s.Inv job) (error : KikoError) : (s.setError error).Inv job :=
  { h with
    failed := fun _ _ => by simp [MuxSend.setError]
    threw := fun _ => by simp [MuxSend.setError] }

/-! ## Each operation keeps it

For every operation one lemma says when it does something and what (`take_cases`,
`emit_cases`, ...), and one that it keeps `Inv`. A worker's step is an instance of
`Inv.setLane`, by which only the one channel has to be looked at. -/

theorem Inv.read (h : s.Inv job) (hs : s.read = some s') : s'.Inv job := by
  unfold MuxSend.read at hs
  split at hs
  next hpc =>
    obtain ⟨rest, hsum, hrest, hzero⟩ := h.account
    have hnone : ∀ k, (s.lanes k).worker.closing ≠ true := fun k hk => by
      have := h.closing k hk
      simp [hpc, ProducerPc.finishing] at this
    split_ifs at hs with hun <;> obtain rfl := Option.some.inj hs
    · exact {
        lane := h.lane
        account := ⟨rest, hsum, fun _ => by
          rw [hrest (by simp [hpc, ProducerPc.live]), hpc]
          rfl, fun k hk => absurd hk (hnone k)⟩
        closing := fun k hk => absurd hk (hnone k)
        exhausted := fun _ => hun
        finished := fun hf => by cases hf
        failed := h.failed
        threw := fun hf => by cases hf }
    · exact {
        lane := h.lane
        account := ⟨rest, hsum, fun _ => by
          rw [hrest (by simp [hpc, ProducerPc.live]), hpc,
            Pieces.cut_of_ne_nil kMuxChunk_pos hun]
          simp only [ProducerPc.held, Multiset.coe_nil, zero_add, Multiset.coe_add,
            List.singleton_append], fun k hk => absurd hk (hnone k)⟩
        closing := fun k hk => absurd hk (hnone k)
        exhausted := fun hf => by rcases hf with hf | hf <;> cases hf
        finished := fun hf => by cases hf
        failed := h.failed
        threw := fun hf => by cases hf }
  next => cases hs

/-- What `enqueue` does, when it does anything. -/
theorem enqueue_cases (hs : s.enqueue codec useZstd k = some s') :
    ∃ chunk, s.pc = .holding chunk ∧ s.error = none ∧
      s.ready (sendItem codec useZstd chunk).payload.length k ∧
      s' = ({ s with pc := .reading } : MuxSend n).setLane k
        ((s.lanes k).push (sendItem codec useZstd chunk) chunk) := by
  unfold enqueue at hs
  split at hs
  next chunk hpc =>
    dsimp only at hs
    split_ifs at hs with hready
    exact ⟨chunk, hpc, hready.1, hready.2, (Option.some.inj hs).symm⟩
  next => cases hs

theorem Inv.enqueue (h : s.Inv job) (hs : s.enqueue codec useZstd k = some s') : s'.Inv job := by
  obtain ⟨chunk, hpc, herr, -, rfl⟩ := enqueue_cases hs
  obtain ⟨rest, hsum, hrest, hzero⟩ := h.account
  have hnone : ∀ j, (s.lanes j).worker.closing ≠ true := fun j hj => by
    have := h.closing j hj
    simp [hpc, ProducerPc.finishing] at this
  -- The workers stand where they stood; only the queue of `k` has grown.
  have hworker : ∀ j, ((({ s with pc := .reading } : MuxSend n).setLane k
      ((s.lanes k).push (sendItem codec useZstd chunk) chunk)).lanes j).worker =
        (s.lanes j).worker := by
    intro j
    by_cases hj : j = k
    · subst hj
      rw [setLane_lanes_self]
      rfl
    · rw [setLane_lanes_of_ne _ _ hj]
  refine {
    lane := fun j => ?_
    account := ⟨(Pieces.cut kMuxChunk s.total s.unread : Multiset Chunk), ?_, fun _ => by
      simp [ProducerPc.held, MuxSend.setLane], fun j hj => absurd (hworker j ▸ hj) (hnone j)⟩
    closing := fun j hj => absurd (hworker j ▸ hj) (hnone j)
    exhausted := fun hf => by rcases hf with hf | hf <;> cases hf
    finished := fun hf => by cases hf
    failed := fun j hj => h.failed j (hworker j ▸ hj)
    threw := fun hf => by cases hf }
  · by_cases hj : j = k
    · subst hj
      rw [setLane_lanes_self]
      refine ⟨fun hw => ?_, fun hw => absurd hw (hnone j)⟩
      have := (h.lane j).pending hw
      simp only [Lane.push, ← List.append_assoc, List.map_append, List.sum_append] at this ⊢
      simp [this]
    · rw [setLane_lanes_of_ne _ _ hj]
      exact h.lane j
  · -- the chunk in hand moves to the chunks enqueued on `k`
    have hupd := enqueuedChunks_setLane { s with pc := .reading } k
      ((s.lanes k).push (sendItem codec useZstd chunk) chunk)
    rw [← hsum, hrest (by simp [hpc, ProducerPc.live]), hpc, ← add_assoc]
    congr 1
    apply add_right_cancel (b := ((s.lanes k).enqueued : Multiset Chunk))
    have hsame : ({ s with pc := .reading } : MuxSend n).enqueuedChunks = s.enqueuedChunks := rfl
    rw [hupd, hsame]
    simp only [ProducerPc.held, Lane.push, ← Multiset.coe_add]
    rw [← add_assoc, add_right_comm]

theorem Inv.rethrow (h : s.Inv job) (hs : s.rethrow = some s') : s'.Inv job := by
  unfold MuxSend.rethrow at hs
  split at hs
  next chunk error hpc herr =>
    obtain rfl := Option.some.inj hs
    have hnone : ∀ k, (s.lanes k).worker.closing ≠ true := fun k hk => by
      have := h.closing k hk
      simp [hpc, ProducerPc.finishing] at this
    obtain ⟨rest, hsum, -, -⟩ := h.account
    exact {
      lane := h.lane
      account := ⟨rest, hsum, fun hf => (by cases hf), fun k hk => absurd hk (hnone k)⟩
      closing := fun _ _ => rfl
      exhausted := fun hf => by rcases hf with hf | hf <;> cases hf
      finished := fun hf => by cases hf
      failed := h.failed
      threw := fun _ => by simp [herr] }
  next => cases hs

theorem Inv.join (h : s.Inv job) (hs : s.join = some s') : s'.Inv job := by
  unfold MuxSend.join at hs
  obtain ⟨rest, hsum, hrest, hzero⟩ := h.account
  by_cases hstop : ∀ k, (s.lanes k).worker.stopped = true
  swap
  · rw [if_neg hstop] at hs
    cases hs
  rw [if_pos hstop] at hs
  split at hs
  next hpc =>
    obtain rfl := Option.some.inj hs
    -- A worker that is over without an error has exited: a failed one leaves an error
    -- behind.
    by_cases herr : s.error = none
    · have hexit : ∀ k, (s.lanes k).worker = .exited := fun k => by
        have hk := hstop k
        have hnf : (s.lanes k).worker ≠ .failed := fun hf => h.failed k hf herr
        revert hk hnf
        cases (s.lanes k).worker <;> simp [WorkerPc.stopped]
      rw [if_pos herr]
      exact {
        lane := h.lane
        account := ⟨rest, hsum, fun _ => by
          rw [hrest (by simp [hpc, ProducerPc.live]), hpc]
          rfl, hzero⟩
        closing := fun _ _ => rfl
        exhausted := fun _ => h.exhausted (.inl hpc)
        finished := fun _ => hexit
        failed := h.failed
        threw := fun hf => by cases hf }
    · rw [if_neg herr]
      exact {
        lane := h.lane
        account := ⟨rest, hsum, fun hf => (by cases hf), hzero⟩
        closing := fun _ _ => rfl
        exhausted := fun hf => by rcases hf with hf | hf <;> cases hf
        finished := fun hf => by cases hf
        failed := h.failed
        threw := fun _ => herr }
  next hpc =>
    obtain rfl := Option.some.inj hs
    exact {
      lane := h.lane
      account := ⟨rest, hsum, fun hf => (by cases hf), hzero⟩
      closing := fun _ _ => rfl
      exhausted := fun hf => by rcases hf with hf | hf <;> cases hf
      finished := fun hf => by cases hf
      failed := h.failed
      threw := fun _ => h.threw (by simp [hpc, ProducerPc.live]) }
  next => cases hs

theorem take_cases (hs : s.take k = some s') :
    ∃ item queue, (s.lanes k).worker = .waiting ∧ s.error = none ∧
      (s.lanes k).queue = item :: queue ∧
      s' = s.setLane k { s.lanes k with worker := .sending item, queue := queue } := by
  unfold take at hs
  split at hs
  next item queue hw herr hq => exact ⟨item, queue, hw, herr, hq, (Option.some.inj hs).symm⟩
  next => cases hs

theorem Inv.take (h : s.Inv job) (hs : s.take k = some s') : s'.Inv job := by
  obtain ⟨item, queue, hw, herr, hq, rfl⟩ := take_cases hs
  refine h.setLane rfl ⟨fun _ => ?_, fun hc => by cases hc⟩ (fun hc => by cases hc)
    (fun hf => ?_) (fun hf => by cases hf)
  · have := (h.lane k).pending (by rw [hw]; exact WorkerPc.noConfusion)
    rw [hw, hq] at this
    exact this
  · have := h.finished hf k
    rw [hw] at this
    cases this

theorem leave_cases (hs : s.leave k = some s') :
    (s.lanes k).worker = .waiting ∧ s.error = none ∧ (s.lanes k).queue = [] ∧
      s.pc.finishing = true ∧ s' = s.setLane k { s.lanes k with worker := .ending } := by
  unfold leave at hs
  split at hs
  next hw herr hq =>
    split_ifs at hs with hfin
    exact ⟨hw, herr, hq, hfin, (Option.some.inj hs).symm⟩
  next => cases hs

theorem Inv.leave (h : s.Inv job) (hs : s.leave k = some s') : s'.Inv job := by
  obtain ⟨hw, herr, hq, hfin, rfl⟩ := leave_cases hs
  refine h.setLane rfl ⟨fun _ => ?_, fun _ => hq⟩ (fun _ => .inr ⟨herr, hfin⟩)
    (fun hf => ?_) (fun hf => by cases hf)
  · have := (h.lane k).pending (by rw [hw]; exact WorkerPc.noConfusion)
    rw [hw] at this
    exact this
  · have := h.finished hf k
    rw [hw] at this
    cases this

theorem abort_cases (hs : s.abort k = some s') :
    (s.lanes k).worker = .waiting ∧ s.error ≠ none ∧
      s' = s.setLane k { s.lanes k with worker := .failed } := by
  unfold abort at hs
  split at hs
  next error hw herr => exact ⟨hw, by simp [herr], (Option.some.inj hs).symm⟩
  next => cases hs

theorem Inv.abort (h : s.Inv job) (hs : s.abort k = some s') : s'.Inv job := by
  obtain ⟨hw, herr, rfl⟩ := abort_cases hs
  refine h.setLane rfl ⟨fun hf => absurd rfl hf, fun hc => by cases hc⟩ (fun hc => by cases hc)
    (fun hf => ?_) (fun _ => herr)
  have := h.finished hf k
  rw [hw] at this
  cases this

/-- What leaves on a channel: a queued item, or the end mark. -/
theorem emit_cases {f : Frame} (hs : s.emit k = some (f, s')) :
    (∃ item, (s.lanes k).worker = .sending item ∧ f = .data item.payload ∧
      s' = s.setLane k { s.lanes k with
        worker := .sent item, sent := (s.lanes k).sent ++ [.data item.payload] }) ∨
    ((s.lanes k).worker = .ending ∧ f = .chunkEnd ∧
      s' = s.setLane k { s.lanes k with
        worker := .exited, sent := (s.lanes k).sent ++ [.chunkEnd] }) := by
  unfold emit at hs
  split at hs
  next item hw =>
    obtain ⟨rfl, rfl⟩ := Prod.mk.inj (Option.some.inj hs)
    exact .inl ⟨item, hw, rfl, rfl⟩
  next hw =>
    obtain ⟨rfl, rfl⟩ := Prod.mk.inj (Option.some.inj hs)
    exact .inr ⟨hw, rfl, rfl⟩
  next => cases hs

theorem Inv.emit (h : s.Inv job) {f : Frame} (hs : s.emit k = some (f, s')) : s'.Inv job := by
  obtain ⟨item, hw, -, rfl⟩ | ⟨hw, -, rfl⟩ := emit_cases hs
  · refine h.setLane rfl ⟨fun _ => ?_, fun hc => by cases hc⟩ (fun hc => by cases hc)
      (fun hf => ?_) (fun hf => by cases hf)
    · have := (h.lane k).pending (by rw [hw]; exact WorkerPc.noConfusion)
      rw [hw] at this
      exact this
    · have := h.finished hf k
      rw [hw] at this
      cases this
  · refine h.setLane rfl ⟨fun _ => ?_, fun _ => (h.lane k).dry (by rw [hw]; rfl)⟩
      (fun _ => .inl (by rw [hw]; rfl)) (fun _ => rfl) (fun hf => by cases hf)
    have := (h.lane k).pending (by rw [hw]; exact WorkerPc.noConfusion)
    rw [hw] at this
    exact this

theorem fail_cases {error : KikoError} (hs : s.fail k error = some s') :
    (∃ item, (s.lanes k).worker = .sending item) ∨ (s.lanes k).worker = .ending := by
  unfold fail at hs
  split at hs
  next item hw => exact .inl ⟨item, hw⟩
  next hw => exact .inr hw
  next => cases hs

theorem fail_eq {error : KikoError} (hs : s.fail k error = some s') :
    s' = (s.setError error).setLane k { s.lanes k with worker := .failed } := by
  unfold fail at hs
  split at hs
  next => exact (Option.some.inj hs).symm
  next => exact (Option.some.inj hs).symm
  next => cases hs

theorem Inv.fail (h : s.Inv job) {error : KikoError} (hs : s.fail k error = some s') :
    s'.Inv job := by
  obtain rfl := fail_eq hs
  refine (h.setError error).setLane rfl ⟨fun hf => absurd rfl hf, fun hc => by cases hc⟩
    (fun hc => by cases hc) (fun hf => ?_) (fun _ => by simp [MuxSend.setError])
  have hex := h.finished hf k
  rcases fail_cases hs with ⟨item, hw⟩ | hw <;> rw [hw] at hex <;> cases hex

theorem settle_cases (hs : s.settle k = some s') :
    ∃ item, (s.lanes k).worker = .sent item ∧
      s' = s.setLane k { s.lanes k with
        worker := .waiting
        pendingBytes := (s.lanes k).pendingBytes -
          min (s.lanes k).pendingBytes item.payload.length } := by
  unfold settle at hs
  split at hs
  next item hw => exact ⟨item, hw, (Option.some.inj hs).symm⟩
  next => cases hs

theorem Inv.settle (h : s.Inv job) (hs : s.settle k = some s') : s'.Inv job := by
  obtain ⟨item, hw, rfl⟩ := settle_cases hs
  refine h.setLane rfl ⟨fun _ => ?_, fun hc => by cases hc⟩ (fun hc => by cases hc)
    (fun hf => ?_) (fun hf => by cases hf)
  · have := (h.lane k).pending (by rw [hw]; exact WorkerPc.noConfusion)
    rw [hw] at this
    simp only [WorkerPc.inHand, List.singleton_append, List.map_cons, List.sum_cons,
      List.nil_append] at this ⊢
    omega
  · have := h.finished hf k
    rw [hw] at this
    cases this

/-! ## What it says -/

/-- Only chunks of the file are enqueued. -/
theorem Inv.mem_chunks (h : s.Inv job) {c : Chunk} (hc : c ∈ (s.lanes k).enqueued) :
    c ∈ job.chunks := by
  obtain ⟨rest, hsum, -, -⟩ := h.account
  have hle : ((s.lanes k).enqueued : Multiset Chunk) ≤ (job.chunks : Multiset Chunk) := by
    rw [← hsum]
    refine le_trans ?_ (Multiset.le_add_right _ _)
    exact Finset.single_le_sum (f := fun j => ((s.lanes j).enqueued : Multiset Chunk))
      (fun _ _ => Multiset.zero_le _) (Finset.mem_univ k)
  exact Multiset.mem_coe.mp (Multiset.mem_of_le hle (Multiset.mem_coe.mpr hc))

/-- Once a worker has left its loop, the whole file is enqueued. -/
theorem Inv.enqueuedChunks_eq (h : s.Inv job) (hk : (s.lanes k).worker.closing = true) :
    s.enqueuedChunks = (job.chunks : Multiset Chunk) := by
  obtain ⟨rest, hsum, -, hzero⟩ := h.account
  rw [← hsum, hzero k hk, add_zero]

end MuxSend
end Kiko.Transfer
