import Kiko.Transfer.MuxPayload

/-!
# Delivery over many channels (`transfer/mux_transfer`)

`send_files_mux` and `receive_files_mux` inside the payload of one file, run side by side:
the sender's producer and workers, the receiver's readers, and a FIFO channel of any
capacity per index. After `finish` the sender goes on with whatever frames it likes (the
trailer, the next file); after its readers are joined the receiver returns.

Every interleaving is a run: a label names the thread that moves, and for `enqueue` the
channel the scheduler picks. Sends and receives may also fail.

**What a normal return means** (`receive_delivers`). When `receive` returns, the partial
file is the source, every chunk was written exactly once, and each reader stopped at its
end mark, so that the channel still holds all that was sent after it. When `finish`
returns, every chunk enqueued has left, in order and once. And when `receive` throws, the
file it leaves is the beginning of the source (`failed_receive_resumable`).

The system is what lies between the resume answer and the trailer. It is cut out of the
whole transfer because what is said of it is about any number of threads and about nothing
else: the frames in front of the payload and behind it are whatever they are (`later`),
and a failure of a channel on either side is a label like any other.
`Kiko.Transfer.MuxTransfer` then uses the same invariant with the loops around it.
-/

set_option autoImplicit false

namespace Kiko.Transfer.MuxDelivery

/-- Sender, receiver and channels within one payload. -/
structure System (n : Nat) where
  send : MuxSend n
  recv : MuxRecv n
  chan : Fin n → List Frame := fun _ => []
  /-- history: what the sender has put on each channel since `finish` -/
  later : Fin n → List Frame := fun _ => []
  /-- what `receive` has answered, with the partial file it leaves -/
  outcome : Option (Except KikoError Nat × Bytes) := none

inductive Label (n : Nat)
  | send (m : SendMove n)
  /-- the reader of `k` takes the next frame -/
  | take (k : Fin n)
  | recv (m : RecvMove n)
  /-- the payload is sent: the sender goes on -/
  | next (k : Fin n) (f : Frame)
  /-- the readers are joined: `receive` returns -/
  | ret
deriving DecidableEq, Repr

section Machine

variable {n : Nat} (codec : BlockCodec) (job : Job) (cap : Fin n → Option Nat)

def init (n : Nat) (job : Job) : System n :=
  { send := .start n job.content job.offset, recv := .start n job.prior job.offset }

/-- A frame goes to the end of its channel, if that has room. -/
def System.transmit (s : System n) (k : Fin n) (f : Frame) : Option (System n) :=
  if hasRoom (cap k) (s.chan k) then some { s with chan := push s.chan (some (k, f)) } else none

def step (s : System n) : Label n → Option (System n)
  | .send m =>
    (m.run codec job.useZstd s.send).bind fun
      | (send, none) => some { s with send := send }
      | (send, some (k, f)) => { s with send := send }.transmit cap k f
  | .take k =>
    match s.chan k with
    | [] => none
    | f :: rest => (s.recv.accept codec job.params k f).map fun recv =>
        { s with recv := recv, chan := Function.update s.chan k rest }
  | .recv m => (m.run s.recv).map fun recv => { s with recv := recv }
  | .next k f =>
    if s.send.pc = .finished then
      { s with later := push s.later (some (k, f)) }.transmit cap k f
    else none
  | .ret => if s.recv.joined then some { s with outcome := some s.recv.result } else none

end Machine

/-! ## The invariant

`PayloadInv` for the payload itself, and `outcome`, which says of a receiver that has
returned that its readers were over; from then on the readers make no move
(`run_of_joined`) and what arrives is `later`. -/

section Invariant

variable {n : Nat} {codec : BlockCodec} {job : Job} {cap : Fin n → Option Nat}

/-- What holds of every state: a channel holds what is left of the payload, and behind it
    what was sent later. -/
structure Inv (codec : BlockCodec) (job : Job) (s : System n) (body : Fin n → List Frame) :
    Prop where
  payload : PayloadInv codec job s.send s.recv body
  chan : ∀ k, s.chan k = body k ++ s.later k
  later : s.send.pc ≠ .finished → ∀ k, s.later k = []
  outcome : ∀ o, s.outcome = some o → s.recv.joined ∧ o = s.recv.result

theorem transmit_eq {s s' : System n} {k : Fin n} {f : Frame}
    (h : s.transmit cap k f = some s') :
    s' = { s with chan := push s.chan (some (k, f)) } := by
  unfold System.transmit at h
  split_ifs at h
  exact (Option.some.inj h).symm

/-- A thread that is over makes no move. -/
theorem run_of_joined {r r' : MuxRecv n} {m : RecvMove n} (hj : r.joined) :
    m.run r ≠ some r' := by
  intro hr
  cases m with
  | fail k error =>
    change r.fail k error = some r' at hr
    unfold MuxRecv.fail at hr
    split_ifs at hr with hpc
    have := hj k
    simp [hpc, ReaderPc.stopped] at this
  | write k =>
    obtain ⟨chunk, hpc, -⟩ := MuxRecv.write_cases hr
    have := hj k
    simp [hpc, ReaderPc.stopped] at this
  | count k =>
    obtain ⟨size, delta, hpc, -⟩ := MuxRecv.count_cases hr
    have := hj k
    simp [hpc, ReaderPc.stopped] at this

/-- The scheduler takes no step back out of `finish`. -/
theorem finished_of_run {s s' : MuxSend n} {m : SendMove n} {out : Option (Fin n × Frame)}
    (hinv : s.Inv job) (hpc : s.pc = .finished) (hs : m.run codec job.useZstd s = some (s', out)) :
    False := by
  have hex (k : Fin n) := hinv.finished hpc k
  cases m with
  | read => simp [SendMove.run, MuxSend.read, hpc] at hs
  | enqueue k => simp [SendMove.run, MuxSend.enqueue, hpc] at hs
  | rethrow => simp [SendMove.run, MuxSend.rethrow, hpc] at hs
  | take k => simp [SendMove.run, MuxSend.take, hex k] at hs
  | leave k => simp [SendMove.run, MuxSend.leave, hex k] at hs
  | abort k => simp [SendMove.run, MuxSend.abort, hex k] at hs
  | emit k => simp [SendMove.run, MuxSend.emit, hex k] at hs
  | fail k error => simp [SendMove.run, MuxSend.fail, hex k] at hs
  | settle k => simp [SendMove.run, MuxSend.settle, hex k] at hs
  | join => simp [SendMove.run, MuxSend.join, hpc] at hs

theorem init_inv (n : Nat) (codec : BlockCodec) (job : Job) :
    Inv codec job (init n job) fun _ => [] where
  payload := payloadInv_start n codec job
  chan _ := rfl
  later _ _ := rfl
  outcome _ h := by cases h

theorem push_append {chan body later : Fin n → List Frame} (h : ∀ k, chan k = body k ++ later k)
    (k : Fin n) (f : Frame) (j : Fin n) :
    push chan (some (k, f)) j = body j ++ push later (some (k, f)) j := by
  by_cases hj : j = k
  · subst hj
    simp [push, h]
  · simp [push, h, Function.update_of_ne hj]

/-- A reader that is still reading takes a frame of its own file: its end mark is before
    it or yet to come. -/
theorem take_inv {s : System n} {body : Fin n → List Frame} (h : Inv codec job s body) {k : Fin n}
    {f : Frame} {rest : List Frame} (hchan : s.chan k = f :: rest) {recv : MuxRecv n}
    (hacc : s.recv.accept codec job.params k f = some recv) :
    ∃ body', Inv codec job
      { s with recv := recv, chan := Function.update s.chan k rest } body' := by
  have hpc : (s.recv.taps k).pc = .reading := by
    by_contra hne
    simp [MuxRecv.accept, hne] at hacc
  -- A reader that still reads cannot have been joined, so `receive` has not returned.
  have hnone : s.outcome = none := by
    by_contra hne
    obtain ⟨o, ho⟩ := Option.ne_none_iff_exists'.mp hne
    have := (h.outcome o ho).1 k
    simp [hpc, ReaderPc.stopped] at this
  -- What stands in front is of the payload: frames sent later stand behind an end mark.
  have hbody : body k ≠ [] := by
    intro hnil
    have hlater : s.later k ≠ [] := by
      have := h.chan k
      rw [hnil, hchan, List.nil_append] at this
      exact this ▸ List.cons_ne_nil _ _
    have hfin : s.send.pc = .finished := by
      by_contra hne
      exact hlater (h.later hne k)
    have hex := h.payload.send.finished hfin k
    exact ((h.payload.link k).exited (h.payload.send.lane k) hex).2.2 (by simp [hpc]) hnil
  obtain ⟨g, body', hg⟩ := List.exists_cons_of_ne_nil hbody
  have hcons := h.chan k
  rw [hchan, hg] at hcons
  obtain ⟨rfl, rfl⟩ := List.cons.inj hcons
  obtain ⟨r', hr', -, hpay⟩ := h.payload.accept hg hpc
  rw [hacc] at hr'
  obtain rfl := Option.some.inj hr'
  refine ⟨_, hpay, fun j => ?_, h.later, fun o ho => by simp [hnone] at ho⟩
  by_cases hj : j = k
  · subst hj
    simp
  · simp [Function.update_of_ne hj, h.chan]

/-- A move of the sender within the payload. -/
theorem send_inv {s s' : System n} {body : Fin n → List Frame} (h : Inv codec job s body)
    {m : SendMove n} {send : MuxSend n} {out : Option (Fin n × Frame)}
    (hm : m.run codec job.useZstd s.send = some (send, out))
    (hs' : s' = { s with send := send, chan := push s.chan out }) :
    ∃ body', Inv codec job s' body' := by
  subst hs'
  have hlive : s.send.pc ≠ .finished := fun hf => finished_of_run h.payload.send hf hm
  have hsame : s.chan = body := funext fun j => by
    rw [h.chan, h.later hlive, List.append_nil]
  refine ⟨push body out, h.payload.sendMove hm, fun j => ?_, fun _ => h.later hlive, h.outcome⟩
  change push s.chan out j = push body out j ++ s.later j
  rw [h.later hlive, List.append_nil, hsame]

theorem step_inv {s s' : System n} {l : Label n} {body : Fin n → List Frame}
    (h : Inv codec job s body) (hs : step codec job cap s l = some s') :
    ∃ body', Inv codec job s' body' := by
  cases l with
  | send m =>
    simp only [step, Option.bind_eq_some_iff] at hs
    obtain ⟨⟨send, out⟩, hm, hs⟩ := hs
    cases out with
    | none => exact send_inv h hm (Option.some.inj hs).symm
    | some kf => exact send_inv h hm (transmit_eq hs)
  | take k =>
    simp only [step] at hs
    split at hs
    next => cases hs
    next f rest hchan =>
      obtain ⟨recv, hacc, rfl⟩ := Option.map_eq_some_iff.mp hs
      exact take_inv h hchan hacc
  -- a reader moves, so the readers have not been joined
  | recv m =>
    simp only [step] at hs
    obtain ⟨recv, hm, rfl⟩ := Option.map_eq_some_iff.mp hs
    refine ⟨body, h.payload.recvMove hm, h.chan, h.later, fun o ho => ?_⟩
    exact absurd hm (run_of_joined (h.outcome o ho).1)
  -- what is sent after the payload comes behind it, on a channel that has ended
  | next k f =>
    simp only [step] at hs
    split_ifs at hs with hfin
    obtain rfl := transmit_eq hs
    exact ⟨body, h.payload, push_append h.chan k f, fun hne => absurd hfin hne, h.outcome⟩
  | ret =>
    simp only [step] at hs
    split_ifs at hs with hj
    obtain rfl := Option.some.inj hs
    exact ⟨body, h.payload, h.chan, h.later, fun o ho => ⟨hj, (Option.some.inj ho).symm⟩⟩

theorem reach_inv {s : System n} (h : Lts.Reach (step codec job cap) (init n job) s) :
    ∃ body, Inv codec job s body :=
  h.invariant (I := fun s => ∃ body, Inv codec job s body) ⟨_, init_inv n codec job⟩
    fun ⟨_, hinv⟩ _ hs => step_inv hinv hs

end Invariant

/-! ## Delivery

The statement is about the return of `receive` and the return of `finish` separately:
neither waits for the other, and each side knows only what it has seen itself. -/

section Delivery

variable {n : Nat} {codec : BlockCodec} {job : Job} {cap : Fin n → Option Nat}

/-- What a normal return of `receive`, with the count `written` and the partial file
    `file`, says. -/
structure Delivered (codec : BlockCodec) (job : Job) (s : System n) (written : Nat)
    (file : Bytes) : Prop where
  /-- the partial file is the source -/
  file : file = job.content
  /-- every chunk was written, once, at its own offset -/
  chunks : s.recv.log.Perm job.chunks
  nodup : s.recv.log.Nodup
  /-- both counts are the declared size -/
  written : written = job.content.length
  contiguousPrefix : s.recv.ranges.front = job.content.length
  /-- each reader took the data frames enqueued for its channel and then the end mark -/
  got : ∀ k, (s.recv.taps k).got =
    (s.send.lanes k).enqueued.map (dataFrame codec job) ++ [.chunkEnd]
  /-- what is left in a channel was sent after the payload -/
  rest : ∀ k, s.chan k = s.later k

/-- What a normal return of `finish` says. -/
structure Drained (codec : BlockCodec) (job : Job) (s : System n) : Prop where
  /-- every chunk of the file was enqueued, once -/
  chunks : s.send.enqueuedChunks = (job.chunks : Multiset Chunk)
  queue : ∀ k, (s.send.lanes k).queue = []
  /-- on each channel left what was enqueued on it, in order, and then the end mark -/
  sent : ∀ k, (s.send.lanes k).sent =
    (s.send.lanes k).enqueued.map (dataFrame codec job) ++ [.chunkEnd]

/-- **Mux delivery.** In every run of sender and receiver over any number of channels: a
    normal return of `receive` has delivered the file, and a normal return of `finish` has
    sent every chunk once. -/
theorem receive_delivers (codec : BlockCodec) (job : Job) (cap : Fin n → Option Nat) (hn : 0 < n)
    (hprior : job.prior <+: job.content) {s : System n}
    (h : Lts.Reach (step codec job cap) (init n job) s) :
    (∀ written file, s.outcome = some (.ok written, file) →
      Delivered codec job s written file) ∧
    (s.send.pc = .finished → Drained codec job s) := by
  obtain ⟨body, hinv⟩ := reach_inv h
  refine ⟨fun written file ho => ?_, fun hfin => ?_⟩
  · obtain ⟨hj, hres⟩ := hinv.outcome _ ho
    have herr : s.recv.error = none := by
      cases herr : s.recv.error with
      | none => rfl
      | some error => simp [MuxRecv.result, herr] at hres
    simp only [MuxRecv.result, herr, Prod.mk.injEq, Except.ok.injEq] at hres
    obtain ⟨rfl, rfl⟩ := hres
    -- without an error every reader has met the end of its channel
    have hdone := hinv.payload.done_of_joined hj herr
    obtain ⟨hlog, hpart, hwritten, hfront, -, hbody⟩ := hinv.payload.arrived hn hdone
    exact {
      file := hpart.trans (Job.target_eq hprior)
      chunks := hlog
      nodup := hlog.nodup_iff.mpr (Pieces.nodup_cut kMuxChunk_pos)
      written := hwritten
      contiguousPrefix := hfront
      got := fun k => ((hinv.payload.link k).done (hinv.payload.send.lane k) (hdone k)).2.2.2
      rest := fun k => by rw [hinv.chan, hbody, List.nil_append] }
  · obtain ⟨hchunks, hlane⟩ := hinv.payload.drained hn hfin
    exact ⟨hchunks, fun k => (hlane k).1, fun k => (hlane k).2⟩

/-- A small file over two channels, its one chunk on the second. -/
def sampleJob : Job where
  relative := "a.txt"
  content := [104, 105, 33]
  prior := [104]
  useZstd := false
  fits := by decide
  resumes := by decide

/-- Stored blocks. -/
def storedCodec : BlockCodec where
  compress block := block
  decompress block _ := .ok block
  lossless _ := rfl

def sampleRun : List (Label 2) :=
  [.send .read, .send (.enqueue 1), .send .read, .send (.leave 0), .send (.take 1),
    .send (.emit 0), .take 0, .send (.emit 1), .take 1, .recv (.write 1), .send (.settle 1),
    .send (.leave 1), .send (.emit 1), .send .join, .next 0 .done, .recv (.count 1), .take 1, .ret]

theorem receive_delivers_sample :
    ∃ s : System 2, s.outcome = some (.ok 3, [104, 105, 33]) ∧
      Delivered storedCodec sampleJob s 3 [104, 105, 33] ∧ Drained storedCodec sampleJob s := by
  obtain ⟨s, hreach, hs⟩ := Lts.Reach.exists_of_run (step storedCodec sampleJob fun _ => some 1)
    (init 2 sampleJob) sampleRun
    (fun s => s.outcome = some (.ok 3, [104, 105, 33]) ∧ s.send.pc = .finished) (by decide)
  obtain ⟨hout, hfin⟩ := of_decide_eq_true hs
  have := receive_delivers storedCodec sampleJob (fun _ => some 1) (by decide)
    ⟨[105, 33], rfl⟩ hreach
  exact ⟨s, hout, this.1 _ _ hout, this.2 hfin⟩

/-- **A failed transfer can be resumed.** When `receive` throws, the partial file it leaves
    is the beginning of the source. -/
theorem failed_receive_resumable {s : System n}
    (h : Lts.Reach (step codec job cap) (init n job) s) (hprior : job.prior <+: job.content)
    {error : KikoError} {file : Bytes} (ho : s.outcome = some (.error error, file)) :
    file <+: job.content := by
  obtain ⟨body, hinv⟩ := reach_inv h
  obtain ⟨-, hres⟩ := hinv.outcome _ ho
  have hfile : file = s.recv.truncated := by
    cases herr : s.recv.error with
    | none => simp [MuxRecv.result, herr] at hres
    | some error => simpa [MuxRecv.result, herr] using congrArg Prod.snd hres
  rw [hfile, hinv.payload.recv.truncated_eq, Job.target_eq hprior]
  exact List.take_prefix _ _

end Delivery
end Kiko.Transfer.MuxDelivery
