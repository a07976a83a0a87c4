import Kiko.Transfer.Conversation
import Kiko.Transfer.MuxDelivery

/-!
# Many channels (`send_files_mux`, `receive_files_mux`)

The loop of `receive_files_mux` reads everything but payloads off channel 0, and of a skipped
file one `ChunkEnd` off every channel in turn. While a payload is open the readers of
`MuxReceiveSession` take the frames, each off its own channel.

```
   idle ──FileHeader──> await ──ResumeAck──> marker ───────────────────────FileEnd──> idle
    │                                        skipping 0 ──ChunkEnd──> … skipping n ──┘
    └──Done──> finished                      receiving ──ret──> payloadEnd ───────────┘
```

There is at least one channel (an empty list is refused before anything is read), so there
are `m + 1` of them.

The loop and the readers share one state, `MuxLoop`, because they share the file: what a
reader writes is seen by whoever opens the file next. While readers are open the loop is
blocked in `receive`, so a state is in exactly one of the two ways of going on, and
`MuxPc.reads` says which. A receiver that is told something it cannot take has no place in
this state, and `none` stands for it; that no run comes there is proved
(`Kiko.Transfer.MuxTransfer`), not assumed.
-/

set_option autoImplicit false

namespace Kiko.Transfer

open Lexical FileTree Dialogue

/-- Where `receive_files_mux` stands, over `n` channels. -/
inductive MuxPc (n : Nat)
  | idle
  | await (pending : Pending)
  | marker (setup : EntrySetup) (marker : Marker)
  /-- the end mark of channel `k` is next, or behind the last one the trailer -/
  | skipping (setup : EntrySetup) (k : Nat)
  /-- the readers are at work on the file at `out` -/
  | receiving (session : PayloadSession) (out : Place) (recv : MuxRecv n)
  | payloadEnd (session : PayloadSession) (written : Nat)
  | finished
  | thrown (error : KikoError)

structure MuxLoop (n : Nat) where
  loop : Loop
  pc : MuxPc n := .idle

section Receiver

variable {m : Nat} (env : ReceiveEnv) (codec : BlockCodec)

/-- The call is over. -/
def MuxPc.over {n : Nat} : MuxPc n → Bool
  | .finished | .thrown _ => true
  | _ => false

/-- The channel the loop reads, when it reads one itself. -/
def MuxPc.reads : MuxPc (m + 1) → Option (Fin (m + 1))
  | .receiving _ _ _ | .finished | .thrown _ => none
  | .skipping _ k => if h : k < m + 1 then some ⟨k, h⟩ else some 0
  | _ => some 0

/-- The partial file of a payload is created when there is no offset, and opened. -/
def ReceiveEnv.openMux (s : PayloadSession) : ReceiveM (Place × Bytes) := do
  let t ← ReceiveM.tree
  match env.partPlace t s.partPath with
  | none => throw ("failed to open output file: " ++ s.partPath.text)
  | some (place, content) =>
    if 0 < s.resumeOffset ∧ (t place).isNone then
      throw ("failed to open output file: " ++ s.partPath.text)
    else
      let content := if 0 < s.resumeOffset then content else []
      ReceiveM.change [place] (t.set place (.file content))
      return (place, content)

/-- The header's session stands: its file is opened, and the readers start. -/
def openMuxSession (n : Nat) : Session → ReceiveM (MuxPc n)
  | .marker setup marker => return .marker setup marker
  | .skipPayload setup => return .skipping setup 0
  | .receivePayload s => do
    let (out, content) ← env.openMux s
    return .receiving s out (MuxRecv.start n content s.resumeOffset)

/-- What the readers are told about a payload. -/
def PayloadSession.params (s : PayloadSession) : PayloadParams :=
  { relative := s.setup.relative
    declaredSize := s.setup.declaredSize
    resumeOffset := s.resumeOffset
    useZstd := s.setup.useZstd }

/-- A trailer, at the end of a payload. -/
def takePayloadEnd (s : PayloadSession) (written : Nat) (trailer : Message) : LoopM Unit :=
  if s.setup.declaredSize < written then
    throw ("received more data than declared for " ++ s.setup.relative)
  else do
    LoopM.countFile
    let size ← LoopM.onDisk (env.completeReceived s (trailer.get "sha256") written "")
    LoopM.addTotal size

/-- The loop takes a frame it has read itself: where it stands then, and what it sends before
    it reads on. -/
def onControl {n : Nat} (frame : Frame) (pc : MuxPc n) : LoopM (MuxPc n × List Frame) :=
  match pc with
  | .idle =>
    match frame with
    | .manifest text => do
      env.takeManifest text
      return (.idle, [])
    | .done => do
      takeDone
      return (.finished, [.ack])
    | .fileHeader header => do
      let pending ← env.takeFileHeader header
      return (.await pending, [.resume pending.request])
    | _ => throw "expected file header on control channel"
  | .await pending => do
    match ← LoopM.onDisk (env.onAck pending frame) with
    | .inl session => return (← LoopM.onDisk (openMuxSession env n session), [])
    | .inr pending => return (.await pending, [.resume pending.request])
  | .marker setup marker =>
    match frame with
    | .fileEnd _ => do
      env.endMarker setup marker
      return (.idle, [])
    | _ => throw "expected file end"
  | .skipping setup k =>
    if k < n then
      match frame with
      | .chunkEnd => return (.skipping setup (k + 1), [])
      | _ => throw "expected mux chunk end"
    else
      match frame with
      | .fileEnd _ => do
        endSkipped setup
        return (.idle, [])
      | _ => throw "expected file end"
  | .payloadEnd s written =>
    match frame with
    | .fileEnd trailer => do
      takePayloadEnd env s written trailer
      return (.idle, [])
    | _ => throw "expected file end"
  | .receiving .. | .finished | .thrown _ => return (pc, [])

/-- A step of the loop, with what it sends. -/
def MuxLoop.control {n : Nat} (r : MuxLoop n) (frame : Frame) : MuxLoop n × List Frame :=
  match onControl env frame r.pc r.loop with
  | .ok (pc, reply) loop => ({ loop := loop, pc := pc }, reply)
  | .error e loop => ({ loop := loop, pc := .thrown e }, [])

/-- The file that is open at a place becomes `file`. -/
def Loop.put (l : Loop) (out : Place) (file : Bytes) : Loop :=
  { l with disk := { l.disk with tree := l.disk.tree.set out (.file file) } }

@[simp] theorem Loop.put_put (l : Loop) (out : Place) (file file' : Bytes) :
    (l.put out file).put out file' = l.put out file' := by
  simp [Loop.put]

/-- The readers have gone on, and the file with them. -/
def MuxLoop.wrote {n : Nat} (r : MuxLoop n) (s : PayloadSession) (out : Place) (recv : MuxRecv n) :
    MuxLoop n :=
  { loop := r.loop.put out recv.part, pc := .receiving s out recv }

/-- The frame at the front of channel `k` is taken, by the loop or by a reader. -/
def MuxLoop.take (r : MuxLoop (m + 1)) (k : Fin (m + 1)) (frame : Frame) :
    Option (MuxLoop (m + 1) × List Frame) :=
  match r.pc with
  | .receiving s out recv => (recv.accept codec s.params k frame).map fun recv => (r.wrote s out recv, [])
  | pc => if pc.reads = some k then some (r.control env frame) else none

/-- A reader goes on without a frame. -/
def MuxLoop.work {n : Nat} (r : MuxLoop n) (move : RecvMove n) : Option (MuxLoop n) :=
  match r.pc with
  | .receiving s out recv => (move.run recv).map (r.wrote s out)
  | _ => none

/-- `receive` has returned, or thrown. -/
def MuxLoop.returned {n : Nat} (r : MuxLoop n) (s : PayloadSession) (out : Place)
    (result : Except KikoError Nat × Bytes) : MuxLoop n where
  loop := r.loop.put out result.2
  pc :=
    match result.1 with
    | .ok written => .payloadEnd s written
    | .error e => .thrown e

/-- The readers are joined, and `receive` returns. -/
def MuxLoop.ret {n : Nat} (r : MuxLoop n) : Option (MuxLoop n) :=
  match r.pc with
  | .receiving s out recv => if recv.joined then some (r.returned s out recv.result) else none
  | _ => none

/-- The loop finds the channel it reads closed. -/
def MuxLoop.closed (r : MuxLoop (m + 1)) : Option (MuxLoop (m + 1)) :=
  match r.pc with
  | .receiving .. | .finished | .thrown _ => none
  | .idle => some { r with pc := .thrown streamEnded }
  | .await _ => some { r with pc := .thrown "expected resume ack" }
  | .skipping _ k =>
    some { r with pc := .thrown (if k < m + 1 then "expected mux chunk end" else "expected file end") }
  | .marker .. | .payloadEnd .. => some { r with pc := .thrown "expected file end" }

end Receiver

/-! ## The sender

The sender's list of things to do is the one of the stream, with a payload as an entry of its
own: what becomes of it in the scheduler is not a matter of the script. Between two waits
there is at most one payload (`payloads_start`, `payloads_answer`), which is why one
scheduler is enough. -/

/-- What `send_files_mux` puts on its way: a frame on a channel, or a payload over all of
    them. -/
inductive Act (n : Nat)
  | frame (k : Fin n) (f : Frame)
  | payload (content : Bytes) (offset : Nat) (useZstd : Bool)

section Acts

variable {n : Nat}

def Act.isFrame : Act n → Bool
  | .frame .. => true
  | .payload .. => false

/-- What of some acts is on channel `k`. -/
def onChannel (k : Fin n) (acts : List (Act n)) : List Frame :=
  acts.filterMap fun
    | .frame j f => if j = k then some f else none
    | .payload .. => none

@[simp] theorem onChannel_nil (k : Fin n) : onChannel k [] = [] := rfl

@[simp] theorem onChannel_append (k : Fin n) (as bs : List (Act n)) :
    onChannel k (as ++ bs) = onChannel k as ++ onChannel k bs := List.filterMap_append

theorem onChannel_cons_self (k : Fin n) (f : Frame) (acts : List (Act n)) :
    onChannel k (.frame k f :: acts) = f :: onChannel k acts := by simp [onChannel]

theorem onChannel_cons_of_ne {k j : Fin n} (h : j ≠ k) (f : Frame) (acts : List (Act n)) :
    onChannel k (.frame j f :: acts) = onChannel k acts := by simp [onChannel, h]

/-- Frames that are on no channel are none at all. -/
theorem eq_nil_of_onChannel {acts : List (Act n)} (hframes : ∀ a ∈ acts, a.isFrame = true)
    (h : ∀ k, onChannel k acts = []) : acts = [] := by
  cases acts with
  | nil => rfl
  | cons a acts =>
    cases a with
    | frame k f =>
      have := h k
      rw [onChannel_cons_self] at this
      cases this
    | payload content offset useZstd => cases hframes _ (List.mem_cons_self ..)

/-- How many payloads there are. -/
def payloads (acts : List (Act n)) : Nat := acts.countP fun a => !a.isFrame

@[simp] theorem payloads_nil : payloads ([] : List (Act n)) = 0 := rfl

@[simp] theorem payloads_cons (a : Act n) (acts : List (Act n)) :
    payloads (a :: acts) = payloads acts + if a.isFrame then 0 else 1 := by
  cases h : a.isFrame <;> simp [payloads, h]

@[simp] theorem payloads_append (as bs : List (Act n)) :
    payloads (as ++ bs) = payloads as + payloads bs := List.countP_append

end Acts

section Sender

/-- `send_files_mux`. -/
def muxSend (prims : Primitives) (m : Nat) : SendOps prims (Act (m + 1)) where
  control f := .frame 0 f
  payload source session :=
    match session.action with
    | .skipPayload => (List.finRange (m + 1)).map fun k => .frame k .chunkEnd
    | .sendPayload =>
      [.payload source.content session.accepted (shouldCompressEntry source.entry)]
    | .markerComplete => []

variable {prims : Primitives} {m : Nat}

theorem payloads_announce (sources : List (Source prims)) :
    payloads ((muxSend prims m).announce sources).1 = 0 := by
  cases sources <;> rfl

theorem payloads_body (source : Source prims) (session : SendSession) :
    payloads ((muxSend prims m).body source session) ≤ 1 := by
  have hmarks : payloads ((List.finRange (m + 1)).map fun k => Act.frame k .chunkEnd) = 0 := by
    rw [payloads, List.countP_eq_zero]
    intro a ha
    obtain ⟨k, -, rfl⟩ := List.mem_map.mp ha
    simp [Act.isFrame]
  cases h : session.action <;> simp [SendOps.body, muxSend, h, hmarks, Act.isFrame]

/-- Between two waits the sender has one payload to send, or none. -/
theorem payloads_start (sources : List (Source prims)) :
    payloads ((muxSend prims m).start sources).todo ≤ 1 := by
  unfold SendOps.start
  cases encodeTransferManifest prims (sources.map (·.entry)) with
  | error e => exact Nat.zero_le _
  | ok text =>
    rw [payloads_cons, payloads_announce]
    exact Nat.zero_le _

/-- Between two waits the sender has one payload to send, or none. -/
theorem payloads_answer {s s' : SendLoop prims (Act (m + 1))} {f : Frame}
    (h : (muxSend prims m).answer s f = some s') : payloads s'.todo ≤ 1 := by
  unfold SendOps.answer at h
  split at h
  next source rest htodo _ =>
    split at h
    next e _ =>
      obtain rfl := Option.some.inj h
      dsimp only
      rw [htodo]
      exact Nat.zero_le _
    next session _ =>
      obtain rfl := Option.some.inj h
      have hbody := payloads_body (m := m) source session
      simp only [SendOps.entry, payloads_append, payloads_cons, payloads_nil, payloads_announce]
      simp only [muxSend, Act.isFrame, if_true] at hbody ⊢
      omega
  next htodo _ =>
    split at h <;>
    · obtain rfl := Option.some.inj h
      dsimp only
      rw [htodo]
      exact Nat.zero_le _
  next => cases h

end Sender

/-! ## The conversation

A payload takes many steps of many threads. What they come to is one step of the conversation:
the partial file becomes what it was and the rest of the source (`MuxLoop.feed`). A receiver
that is told something it cannot take in its place is out of step, `none`. -/

section Conversation

variable {m : Nat} (env : ReceiveEnv)

/-- What is sent is what the readers, at their start, have been told to expect. -/
structure PayloadFits {n : Nat} (s : PayloadSession) (recv : MuxRecv n) (content : Bytes)
    (offset : Nat) (useZstd : Bool) : Prop where
  size : s.setup.declaredSize = content.length
  resume : s.resumeOffset = offset
  zstd : s.setup.useZstd = useZstd
  start : recv = MuxRecv.start n recv.part offset
  prior : recv.part.length = offset
  fits : content.length ≤ u64Max
  resumes : offset ≤ content.length

open Classical in
/-- The payload is received, as a whole. -/
noncomputable def MuxLoop.payload {n : Nat} (r : MuxLoop n) (content : Bytes) (offset : Nat)
    (useZstd : Bool) : Option (MuxLoop n) :=
  match r.pc with
  | .receiving s out recv =>
    if PayloadFits s recv content offset useZstd then
      some
        { loop := r.loop.put out (recv.part ++ content.drop offset)
          pc := .payloadEnd s content.length }
    else none
  | _ => none

/-- What the receiver makes of what the sender puts on its way. -/
noncomputable def MuxLoop.feed (r : Option (MuxLoop (m + 1))) (act : Act (m + 1)) :
    Option (MuxLoop (m + 1)) × List Frame :=
  match r with
  | none => (none, [])
  | some r =>
    if r.pc.over then (some r, [])
    else
      match act with
      | .frame k f =>
        if r.pc.reads = some k then (some (r.control env f).1, (r.control env f).2) else (none, [])
      | .payload content offset useZstd => (r.payload content offset useZstd, [])

/-- `receive_files_mux`, as its conversation sees it. -/
noncomputable def muxReceiver (m : Nat) : Receiver (Option (MuxLoop (m + 1))) (Act (m + 1)) where
  view r :=
    match r with
    | none => .busy
    | some r =>
      match r.pc with
      | .idle => .idle r.loop
      | .await p => .await r.loop p
      | .finished => .finished r.loop
      | .thrown e => .thrown e r.loop
      | _ => .busy
  feed := MuxLoop.feed env
  idle l := some { loop := l }
  await l p := some { loop := l, pc := .await p }
  finished l := some { loop := l, pc := .finished }
  thrown e l := some { loop := l, pc := .thrown e }

end Conversation

/-! ## What the receiver makes of an honest sender

The laws that `Follows` asks for, one for each kind of thing the sender says. The entry is
the one with an argument: by its session it is a marker, a skipped file or a payload, and
each has its own lemma. -/

section Honest

variable {m : Nat} {env : ReceiveEnv} {source : Source env.prims} {l : Loop} {d : Disk}
  {s : PayloadSession}

/-- A frame on the channel that the loop reads is taken. -/
theorem MuxLoop.feed_frame {r : MuxLoop (m + 1)} {k : Fin (m + 1)} (hreads : r.pc.reads = some k)
    (f : Frame) :
    MuxLoop.feed env (some r) (.frame k f) = (some (r.control env f).1, (r.control env f).2) := by
  have hover : r.pc.over = false := by
    cases hpc : r.pc with
    | finished => simp [hpc, MuxPc.reads] at hreads
    | thrown e => simp [hpc, MuxPc.reads] at hreads
    | _ => rfl
  simp [MuxLoop.feed, hover, hreads]

theorem MuxLoop.drain_none (acts : List (Act (m + 1))) :
    drain (MuxLoop.feed env) none acts = (none, []) :=
  (drain_absorbed (fun _ => rfl) acts).1

theorem MuxLoop.drain_thrown (e : KikoError) (l : Loop) (acts : List (Act (m + 1))) :
    drain (MuxLoop.feed env) (some { loop := l, pc := .thrown e }) acts =
      (some { loop := l, pc := .thrown e }, []) :=
  (drain_absorbed (fun _ => rfl) acts).1

/-- The answer makes the session, and the session opens its file. -/
theorem MuxLoop.feed_ack {p : Pending} (h : Offers env source l.disk.tree p) :
    MuxLoop.feed env (some { loop := l, pc := (.await p : MuxPc (m + 1)) })
        (.frame 0 (.resumeAck (resumeAckMessage (agreedSession source p).accepted))) =
      match env.settleSession source p l.disk with
      | .ok session d =>
        match openMuxSession env (m + 1) session d with
        | .ok pc d => (some { loop := { l with disk := d }, pc := pc }, [])
        | .error e d => (some { loop := { l with disk := d }, pc := .thrown e }, [])
      | .error e d => (some { loop := { l with disk := d }, pc := .thrown e }, []) := by
  rw [feed_frame rfl]
  simp only [MuxLoop.control, onControl, onAck_eq h]
  simp only [bind, EStateM.bind, LoopM.onDisk, pure, EStateM.pure]
  cases env.settleSession source p l.disk with
  | error e d => rfl
  | ok session d =>
    cases hopen : openMuxSession env (m + 1) session d with
    | error e d => simp [EStateM.bind, LoopM.onDisk, hopen]
    | ok pc d => simp [EStateM.bind, EStateM.pure, LoopM.onDisk, hopen]

/-- What a trailer does, by what is open. -/
def MuxPc.atTrailer (env : ReceiveEnv) (trailer : Message) : MuxPc (m + 1) → Option (LoopM Unit)
  | .marker setup what => some (env.endMarker setup what)
  | .skipping setup k => if k < m + 1 then none else some (endSkipped setup)
  | .payloadEnd s written => some (takePayloadEnd env s written trailer)
  | _ => none

/-- A trailer ends an entry as its session says. -/
theorem MuxLoop.feed_fileEnd {pc : MuxPc (m + 1)} {trailer : Message} {step : LoopM Unit}
    (hend : pc.atTrailer env trailer = some step) (l : Loop) :
    (MuxLoop.feed env (some { loop := l, pc := pc }) (.frame 0 (.fileEnd trailer))).2 = [] ∧
      (muxReceiver env m).Shows
        (MuxLoop.feed env (some { loop := l, pc := pc }) (.frame 0 (.fileEnd trailer))).1
        (verdict step l) := by
  have hreads : pc.reads = some 0 := by
    cases pc with
    | skipping setup k =>
      simp only [MuxPc.atTrailer] at hend
      split_ifs at hend with hk
      simp [MuxPc.reads, hk]
    | receiving => cases hend
    | finished => cases hend
    | thrown e => cases hend
    | _ => rfl
  have hframe : onControl env (.fileEnd trailer) pc = (do step; return (.idle, [])) := by
    cases pc with
    | marker setup marker =>
      obtain rfl := Option.some.inj hend
      rfl
    | skipping setup k =>
      simp only [MuxPc.atTrailer] at hend
      split_ifs at hend with hk
      obtain rfl := Option.some.inj hend
      simp [onControl, hk]
    | payloadEnd s written =>
      obtain rfl := Option.some.inj hend
      rfl
    | _ => cases hend
  rw [MuxLoop.feed_frame hreads]
  simp only [MuxLoop.control, hframe, verdict, bind, EStateM.bind]
  cases step l with
  | ok _ l' => exact ⟨rfl, rfl⟩
  | error e l' => exact ⟨rfl, l', rfl, rfl⟩

/-! ### A skipped file -/

/-- The end marks from channel `j` on. -/
theorem MuxLoop.drain_chunkEnds (l : Loop) (setup : EntrySetup) {j : Nat} (hj : j ≤ m + 1) :
    drain (MuxLoop.feed env) (some { loop := l, pc := (.skipping setup j : MuxPc (m + 1)) })
        (((List.finRange (m + 1)).drop j).map fun k => .frame k .chunkEnd) =
      (some { loop := l, pc := .skipping setup (m + 1) }, []) := by
  induction hk : m + 1 - j generalizing j with
  | zero =>
    obtain rfl : j = m + 1 := by omega
    rw [List.drop_of_length_le (by simp)]
    rfl
  | succ i ih =>
    have hlt : j < m + 1 := by omega
    have hdrop : (List.finRange (m + 1)).drop j =
        ⟨j, hlt⟩ :: (List.finRange (m + 1)).drop (j + 1) := by
      rw [List.drop_eq_getElem_cons (by simpa using hlt), List.getElem_finRange]
      rfl
    have hcontrol : MuxLoop.control env { loop := l, pc := (.skipping setup j : MuxPc (m + 1)) }
        .chunkEnd = ({ loop := l, pc := .skipping setup (j + 1) }, []) := by
      simp only [MuxLoop.control, onControl, if_pos hlt]
      rfl
    rw [hdrop, List.map_cons, drain_cons,
      feed_frame (k := ⟨j, hlt⟩) (by simp [MuxPc.reads, hlt]), hcontrol,
      ih (by omega) (by omega)]
    rfl

/-! ### A payload -/

/-- A partial file that can be resumed holds what was hashed when it is open. -/
theorem openMux_eq (hres : Resumes env source d.tree s) {place : Place} {content : Bytes}
    (hp : env.partPlace d.tree s.partPath = some (place, content)) :
    env.openMux s d = .ok (place, s.hashed)
      { d with tree := d.tree.set place (.file s.hashed), touched := d.touched ++ [place] } := by
  obtain ⟨-, -, -, hwhole⟩ := partPlace_offered hres.offered hp
  have hkept : (if 0 < s.resumeOffset then content else []) = s.hashed := by
    rw [hres.offset]
    split_ifs with hpos
    · exact (hwhole (List.ne_nil_of_length_pos hpos)).1
    · exact (List.eq_nil_of_length_eq_zero (Nat.eq_zero_of_not_pos hpos)).symm
  have hthere : ¬ (0 < s.resumeOffset ∧ (d.tree place).isNone = true) := by
    rintro ⟨hpos, hnone⟩
    rw [hres.offset] at hpos
    rw [(hwhole (List.ne_nil_of_length_pos hpos)).2] at hnone
    cases hnone
  simp only [ReceiveEnv.openMux, bind_tree, hp, if_neg hthere, hkept, bind_change]
  rfl

/-- The digest taken from the file is the one taken on the way. -/
theorem completeReceived_empty {file : Bytes}
    (hstat : env.symlinkStatus d.tree s.partPath = some (.file file)) (expected : String)
    (written : Nat) :
    env.completeReceived s expected written "" d =
      env.completeReceived s expected file.length (env.prims.sha256Hex file) d := by
  have hread : readFile d.tree env.cwd s.partPath = some file := readFile_of_lstat hstat
  have hne : env.prims.sha256Hex file ≠ "" := env.prims.sha256Hex_ne file
  simp only [ReceiveEnv.completeReceived, bind_tree]
  cases env.validateReceiveTargetParent d.tree s.setup.currentPath s.setup.relative with
  | error e => rfl
  | ok _ =>
    simp only [ReceiveM.check, pure_bind, bind_tree]
    cases env.validateReceivePartPath d.tree s.partPath s.setup.relative with
    | error e => rfl
    | ok _ =>
      simp only [pure_bind, if_true, if_neg hne, ReceiveEnv.verifyPartFileDigest]
      simp only [bind, EStateM.bind, ReceiveM.tree, get, getThe, MonadStateOf.get, EStateM.get,
        pure, EStateM.pure, hread]

/-- The trailer finds the payload where `takePayload` puts it. -/
theorem verdict_payloadEnd (hres : Resumes env source d.tree s) {place : Place} {content : Bytes}
    (hp : env.partPlace d.tree s.partPath = some (place, content)) {file : Bytes}
    (hfile : file = s.hashed ++ source.content.drop s.resumeOffset) :
    verdict (takePayloadEnd env s source.content.length
        (endMessage (env.prims.sha256Hex source.content)))
        { l with disk := { d with
          tree := d.tree.set place (.file file), touched := d.touched ++ [place] } } =
      verdict (env.takePayload source s) { l with disk := d } := by
  obtain ⟨hloc, hleaf, hroot, -⟩ := partPlace_offered hres.offered hp
  have hstore : env.storePart s file d = .ok () { d with
      tree := d.tree.set place (.file file), touched := d.touched ++ [place] } := by
    simp only [ReceiveEnv.storePart, bind_tree, hp]
    exact change_ok.mpr rfl
  have hstored := onDisk_ok (l := { l with disk := d }).mpr ⟨_, hstore, rfl⟩
  have hstat : env.symlinkStatus (d.tree.set place (.file file)) s.partPath = some (.file file) :=
    lstat_set_file hleaf hloc hroot
  have hsize : ¬ s.setup.declaredSize < source.content.length := by rw [hres.size]; omega
  simp only [ReceiveEnv.takePayload, takePayloadEnd, if_neg hsize, endMessage_sha256, ← hfile,
    verdict, bind_of_ok hstored]
  have hcomplete := completeReceived_empty (s := s)
    (d := { d with tree := d.tree.set place (.file file), touched := d.touched ++ [place] }) hstat
    (env.prims.sha256Hex source.content) source.content.length
  simp only [bind, EStateM.bind, LoopM.onDisk, LoopM.countFile, modify, modifyGet,
    MonadStateOf.modifyGet, EStateM.modifyGet, hcomplete]
  cases env.completeReceived s (env.prims.sha256Hex source.content) file.length
    (env.prims.sha256Hex file) { d with
      tree := d.tree.set place (.file file), touched := d.touched ++ [place] } with
  | ok size d' => rfl
  | error e d' => rfl

/-- **A payload, from its answer to its trailer.** -/
theorem MuxLoop.drain_payload (hres : Resumes env source d.tree s) (l : Loop) :
    match openMuxSession env (m + 1) (.receivePayload s) d with
    | .error e d' => verdict (env.takePayload source s) { l with disk := d } = .error (e, d')
    | .ok pc d' =>
      let acts : List (Act (m + 1)) :=
        [.payload source.content s.resumeOffset (shouldCompressEntry source.entry),
          .frame 0 (.fileEnd (endMessage (env.prims.sha256Hex source.content)))]
      (drain (MuxLoop.feed env) (some { loop := { l with disk := d' }, pc := pc }) acts).2 = [] ∧
        (muxReceiver env m).Shows
          (drain (MuxLoop.feed env) (some { loop := { l with disk := d' }, pc := pc }) acts).1
          (verdict (env.takePayload source s) { l with disk := d }) := by
  cases hp : env.partPlace d.tree s.partPath with
  -- The partial file cannot be opened: the loop and `takePayload` stop with one error.
  | none =>
    have hopen : env.openMux s d = .error ("failed to open output file: " ++ s.partPath.text) d := by
      simp only [ReceiveEnv.openMux, bind_tree, hp]
      rfl
    have hstore : LoopM.onDisk (env.storePart s (s.hashed ++ source.content.drop s.resumeOffset))
        { l with disk := d } =
          .error ("failed to open output file: " ++ s.partPath.text) { l with disk := d } := by
      simp only [LoopM.onDisk, ReceiveEnv.storePart, bind_tree, hp]
      rfl
    simp only [openMuxSession, bind_of_error hopen, ReceiveEnv.takePayload, verdict,
      bind_of_error hstore]
  | some x =>
    obtain ⟨place, content⟩ := x
    simp only [openMuxSession, bind_of_ok (openMux_eq hres hp), pure, EStateM.pure]
    have hsize := source.size_eq hres.kind
    have hlength := hres.offered.length_le
    -- What the sender puts on its way is what the readers have been told to expect.
    have hfits : PayloadFits s (MuxRecv.start (m + 1) s.hashed s.resumeOffset) source.content
        s.resumeOffset (shouldCompressEntry source.entry) :=
      { size := hres.size
        resume := rfl
        zstd := hres.zstd
        start := rfl
        prior := hres.offset.symm
        fits := hsize ▸ source.size_le
        resumes := by rw [hres.offset, ← hres.size]; exact hlength }
    have hpayload : MuxLoop.payload
        { loop := { l with disk := { d with
            tree := d.tree.set place (.file s.hashed), touched := d.touched ++ [place] } }
          pc := (.receiving s place (MuxRecv.start (m + 1) s.hashed s.resumeOffset) :
            MuxPc (m + 1)) }
        source.content s.resumeOffset (shouldCompressEntry source.entry) =
      some
        { loop := { l with disk := { d with
            tree := d.tree.set place (.file (s.hashed ++ source.content.drop s.resumeOffset))
            touched := d.touched ++ [place] } }
          pc := .payloadEnd s source.content.length } := by
      simp only [MuxLoop.payload, if_pos hfits, Loop.put, Tree.set_set]
      rfl
    simp only [drain_cons, drain_nil, List.append_nil]
    have hfeed : MuxLoop.feed env (some
        { loop := { l with disk := { d with
            tree := d.tree.set place (.file s.hashed), touched := d.touched ++ [place] } }
          pc := (.receiving s place (MuxRecv.start (m + 1) s.hashed s.resumeOffset) :
            MuxPc (m + 1)) })
        (.payload source.content s.resumeOffset (shouldCompressEntry source.entry)) =
          (_, []) := congrArg (·, []) hpayload
    rw [hfeed, List.nil_append, ← verdict_payloadEnd hres hp rfl]
    exact feed_fileEnd rfl _

/-- An entry, once its session stands. -/
theorem MuxLoop.drain_session {p : Pending} (hoff : Offers env source l.disk.tree p)
    {session : Session} (hs : env.settleSession source p l.disk = .ok session d) :
    match openMuxSession env (m + 1) session d with
    | .error e d' => verdict (env.afterSession source session) { l with disk := d } = .error (e, d')
    | .ok pc d' =>
      let acts := (muxSend env.prims m).body source (agreedSession source p) ++
        [.frame 0 (.fileEnd (endMessage (trailerSha256 source (agreedSession source p))))]
      (drain (MuxLoop.feed env) (some { loop := { l with disk := d' }, pc := pc }) acts).2 = [] ∧
        (muxReceiver env m).Shows
          (drain (MuxLoop.feed env) (some { loop := { l with disk := d' }, pc := pc }) acts).1
          (verdict (env.afterSession source session) { l with disk := d }) := by
  have haction := settleSession_action hs
  cases session with
  | marker setup marker =>
    have hbody : (muxSend env.prims m).body source (agreedSession source p) = [] := by
      simp [SendOps.body, haction, Session.action]
    simp only [openMuxSession, pure, EStateM.pure, hbody, List.nil_append, drain_cons, drain_nil,
      List.append_nil]
    exact feed_fileEnd rfl _
  -- a skipped file: the ends of the other channels, and no payload
  | skipPayload setup =>
    have hbody : (muxSend env.prims m).body source (agreedSession source p) =
        ((List.finRange (m + 1)).drop 0).map fun k => .frame k .chunkEnd := by
      simp [SendOps.body, haction, Session.action, muxSend]
    have hskip : ∀ trailer, (.skipping setup (m + 1) : MuxPc (m + 1)).atTrailer env trailer =
        some (endSkipped setup) := fun _ => by simp [MuxPc.atTrailer]
    simp only [openMuxSession, pure, EStateM.pure, hbody, drain_append,
      drain_chunkEnds _ _ (Nat.zero_le (m + 1)), drain_cons, drain_nil, List.nil_append,
      List.append_nil]
    exact feed_fileEnd (hskip _) _
  -- a payload from the agreed offset on, whose trailer has the digest of the whole file
  | receivePayload s =>
    obtain ⟨hres, hacc⟩ := settleSession_resumes hoff hs
    have hbody : (muxSend env.prims m).body source (agreedSession source p) =
        [.payload source.content s.resumeOffset (shouldCompressEntry source.entry)] := by
      simp [SendOps.body, haction, Session.action, muxSend, hacc]
    have htrailer : trailerSha256 source (agreedSession source p) =
        env.prims.sha256Hex source.content := by
      simp [trailerSha256, haction, Session.action]
    rw [hbody, htrailer]
    exact drain_payload hres l

/-- **`receive_files_mux` follows `send_files_mux`.** -/
theorem mux_follows (env : ReceiveEnv) (m : Nat) :
    Follows env (muxSend env.prims m) (muxReceiver env m) where
  view_idle _ := rfl
  view_await _ _ := rfl
  view_finished _ := rfl
  view_thrown _ _ := rfl
  absorbs _ _ _ := rfl
  absorbs_finished _ _ := rfl
  manifest l text := by
    change (MuxLoop.feed env (some { loop := l }) (.frame 0 (.manifest text))).2 = [] ∧
      (muxReceiver env m).Shows
        (MuxLoop.feed env (some { loop := l }) (.frame 0 (.manifest text))).1 _
    rw [MuxLoop.feed_frame rfl]
    simp only [MuxLoop.control, onControl, verdict, bind, EStateM.bind]
    cases env.takeManifest text l with
    | ok _ l' => exact ⟨rfl, rfl⟩
    | error e l' => exact ⟨rfl, l', rfl, rfl⟩
  fileHeader l header := by
    change MuxLoop.feed env (some { loop := l }) (.frame 0 (.fileHeader header)) = _
    rw [MuxLoop.feed_frame rfl]
    simp only [MuxLoop.control, onControl, bind, EStateM.bind]
    cases env.takeFileHeader header l <;> rfl
  done l := by
    change MuxLoop.feed env (some { loop := l }) (.frame 0 .done) = _
    rw [MuxLoop.feed_frame rfl]
    simp only [MuxLoop.control, onControl, bind, EStateM.bind]
    cases takeDone l <;> rfl
  entry l p source hoff := by
    change (drain (MuxLoop.feed env) (some { loop := l, pc := .await p })
        (.frame 0 (.resumeAck (resumeAckMessage (agreedSession source p).accepted)) ::
          (_ ++ _))).2 = [] ∧
      (muxReceiver env m).Shows (drain (MuxLoop.feed env) (some { loop := l, pc := .await p })
        (.frame 0 (.resumeAck (resumeAckMessage (agreedSession source p).accepted)) ::
          (_ ++ _))).1 _
    -- the answer settles the session or throws, and then the act is the one of the session
    rw [drain_cons, MuxLoop.feed_ack hoff, verdict_exchange]
    cases hs : env.settleSession source p l.disk with
    | error e d =>
      simp only [MuxLoop.drain_thrown, List.append_nil]
      exact ⟨trivial, _, rfl, rfl⟩
    | ok session d =>
      have hdrain := MuxLoop.drain_session (m := m) hoff hs
      cases hopen : openMuxSession env (m + 1) session d with
      | error e d' =>
        rw [hopen] at hdrain
        simp only [hopen, MuxLoop.drain_thrown, List.append_nil, hdrain]
        exact ⟨trivial, _, rfl, rfl⟩
      | ok pc d' =>
        rw [hopen] at hdrain
        simp only [hopen, List.nil_append]
        exact hdrain

end Honest
end Kiko.Transfer
