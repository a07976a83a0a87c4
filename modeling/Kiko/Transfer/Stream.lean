import Kiko.Transfer.Conversation

/-!
# One stream (`send_files`, `receive_files`)

`receive_files` is a loop that takes a frame and switches on its tag; the constructor of
`ReceiveFileSession` reads its answer off the same channel in between. Cut at every read,
it is a state machine: `StreamPc` says what is open, and `onFrame` is the switch.

```
   idle ──FileHeader──> await ──ResumeAck──> marker | skipping | payload ──FileEnd──> idle
    │                     ▲ │                                  └─Data─┘
    │                     └─┘ (a second question)
    └──Done──> finished
```

The compressor is a parameter that gives back what it was given (`StreamCodec`).

The code interleaves reading and deciding, and an error thrown in the constructor of the
session ends the call as one thrown in the loop does. So a step is: take one frame, go on
to the next read or to the end, and say what was sent on the way. Errors of the file
system are those of `ReceiveM`, and those of a closed connection come from `closed`, which
is a step of its own since a peer may close at any time.
-/

set_option autoImplicit false

namespace Kiko.Transfer

open Lexical FileTree Dialogue

/-! ## Streaming compression

What the code feeds to the compressor is cut at its read buffer; what comes out may be cut
anywhere and may be empty, and an empty frame is not sent. The one thing that is relied on
is said of whole sequences: decompressing all that was made of some chunks gives their
bytes. -/

/-- An output frame, if there is something to send. -/
def nonempty (out : Bytes) : List Bytes := if out = [] then [] else [out]

/-- The payloads `send_files` makes of the chunks it reads: each is compressed, and then the
    stream is finished. -/
def compressAll {Enc : Type} (compress : Enc → Bytes → Bool → Enc × Bytes) :
    Enc → List Bytes → List Bytes
  | enc, [] => nonempty (compress enc [] true).2
  | enc, chunk :: chunks =>
    nonempty (compress enc chunk false).2 ++
      compressAll compress (compress enc chunk false).1 chunks

/-- Payloads decompressed one after the other, with room for `room` bytes. -/
def decompressAll {Dec : Type} (decompress : Dec → Bytes → Nat → Except KikoError (Dec × Bytes)) :
    Dec → Nat → List Bytes → Except KikoError Bytes
  | _, _, [] => .ok []
  | dec, room, payload :: payloads => do
    let (dec, out) ← decompress dec payload room
    let rest ← decompressAll decompress dec (room - out.length) payloads
    .ok (out ++ rest)

/-- `ZstdStreamCompressor` and `ZstdStreamDecompressor`, of which the code relies on one
    thing: what was compressed comes back. -/
structure StreamCodec where
  Enc : Type
  Dec : Type
  encoder : Enc
  decoder : Dec
  compress : Enc → Bytes → Bool → Enc × Bytes
  decompress : Dec → Bytes → Nat → Except KikoError (Dec × Bytes)
  lossless : ∀ (chunks : List Bytes) (room : Nat), chunks.flatten.length ≤ room →
    decompressAll decompress decoder room (compressAll compress encoder chunks) =
      .ok chunks.flatten

/-! ## The sender -/

section Sender

variable {prims : Primitives} (codec : StreamCodec)

/-- The payloads of a file, read on from an offset. -/
def streamPayloads (useZstd : Bool) (content : Bytes) (offset : Nat) : List Bytes :=
  let chunks := (Pieces.cut kPlainChunk offset (content.drop offset)).map (·.bytes)
  if useZstd then compressAll codec.compress codec.encoder chunks else chunks

/-- `send_files`. -/
def streamSend : SendOps prims Frame where
  control frame := frame
  payload source session :=
    match session.action with
    | .sendPayload =>
      (streamPayloads codec (shouldCompressEntry source.entry) source.content
        session.accepted).map .data
    | _ => []

end Sender

/-! ## The receiver

The switch on the tag, with each branch in a definition of its own where the mux loop has
the same one (`Kiko.Transfer.TransferLoop`). What is not expected at a place is an error
with the text of the code. -/

/-- A payload that is being received. -/
structure StreamPayload (codec : StreamCodec) where
  session : PayloadSession
  /-- the file `out` has open -/
  out : Place
  currentTotal : Nat
  /-- what the hasher has seen -/
  hashed : Bytes
  decompressor : codec.Dec

/-- Where `receive_files` stands. -/
inductive StreamPc (codec : StreamCodec)
  | idle
  | await (pending : Pending)
  | marker (setup : EntrySetup) (marker : Marker)
  | skipping (setup : EntrySetup)
  | payload (payload : StreamPayload codec)
  | finished
  | thrown (error : KikoError)

structure StreamRecv (codec : StreamCodec) where
  loop : Loop
  pc : StreamPc codec := .idle

section Receiver

variable {codec : StreamCodec} (env : ReceiveEnv)

/-- The output stream of a payload is opened: to append when there is an offset, else the
    file is cut to nothing. -/
def ReceiveEnv.openStream (s : PayloadSession) : ReceiveM Place := do
  let t ← ReceiveM.tree
  match env.partPlace t s.partPath with
  | none => throw ("failed to open output file: " ++ s.partPath.text)
  | some (place, content) =>
    ReceiveM.change [place] (t.set place (.file (if 0 < s.resumeOffset then content else [])))
    return place

/-- Bytes are written at the end of an open file. -/
def append (out : Place) (bytes : Bytes) : ReceiveM Unit := do
  let t ← ReceiveM.tree
  match t out with
  | some (.file content) => ReceiveM.change [] (t.set out (.file (content ++ bytes)))
  | _ => pure ()

/-- `commit_received_payload`. -/
def commitReceivedPayload (s : StreamPayload codec) (bytes : Bytes) : ReceiveM (StreamPayload codec) :=
  if bytes = [] then return s
  else do
    append s.out bytes
    return { s with hashed := s.hashed ++ bytes, currentTotal := s.currentTotal + bytes.length }

/-- A data frame of an open payload. -/
def takeData (s : StreamPayload codec) (payload : Bytes) : ReceiveM (StreamPayload codec) :=
  let setup := s.session.setup
  if setup.useZstd then do
    ReceiveM.check (ensureDeclaredSpace s.currentTotal setup.declaredSize 0 setup.relative)
    let (dec, bytes) ← ReceiveM.check
      (codec.decompress s.decompressor payload (setup.declaredSize - s.currentTotal))
    commitReceivedPayload { s with decompressor := dec } bytes
  else do
    ReceiveM.check (if payload = [] then .ok () else
      ensureDeclaredSpace s.currentTotal setup.declaredSize payload.length setup.relative)
    commitReceivedPayload s payload

/-- The header's session stands: its file is opened. -/
def openSession : Session → ReceiveM (StreamPc codec)
  | .marker setup marker => return .marker setup marker
  | .skipPayload setup => return .skipping setup
  | .receivePayload s => do
    let out ← env.openStream s
    return .payload
      { session := s, out := out, currentTotal := s.resumeOffset, hashed := s.hashed
        decompressor := codec.decoder }

/-- A file end frame. -/
def takeFileEnd (trailer : Message) : StreamPc codec → LoopM Unit
  | .marker setup marker => env.endMarker setup marker
  | .skipping setup => endSkipped setup
  | .payload s => do
    let size ← LoopM.onDisk (env.completeReceived s.session (trailer.get "sha256") s.currentTotal
      (env.prims.sha256Hex s.hashed))
    LoopM.addTotal size
    LoopM.countFile
  | _ => throw "file end before file header"

/-- `current_file` is set. -/
def StreamPc.busy : StreamPc codec → Bool
  | .marker .. | .skipping _ | .payload _ => true
  | _ => false

/-- The call is over. -/
def StreamPc.over : StreamPc codec → Bool
  | .finished | .thrown _ => true
  | _ => false

/-- The receiver takes a frame: where it stands then, and what it sends before it reads on. -/
def onFrame (frame : Frame) (pc : StreamPc codec) : LoopM (StreamPc codec × List Frame) :=
  match pc, frame with
  | .await pending, frame => do
    match ← LoopM.onDisk (env.onAck pending frame) with
    | .inl session => return (← LoopM.onDisk (openSession env session), [])
    | .inr pending => return (.await pending, [.resume pending.request])
  | pc, .manifest text => do
    env.takeManifest text
    return (pc, [])
  | pc, .fileHeader header =>
    if pc.busy then throw "file header before previous file end"
    else do
      let pending ← env.takeFileHeader header
      return (.await pending, [.resume pending.request])
  | .payload s, .data payload => do
    return (.payload (← LoopM.onDisk (takeData s payload)), [])
  | .skipping setup, .data _ => return (.skipping setup, [])
  | .marker _ _, .data _ => throw "data frame for non-file entry"
  | _, .data _ => throw "data frame before file header"
  | pc, .fileEnd trailer => do
    takeFileEnd env trailer pc
    return (.idle, [])
  | pc, .done =>
    if pc.busy then throw "transfer done before file end"
    else do
      takeDone
      return (.finished, [.ack])
  | _, _ => throw "unknown transfer frame tag"

/-- The receiver takes a frame, unless it is over. -/
def StreamRecv.feed (r : StreamRecv codec) (frame : Frame) : StreamRecv codec × List Frame :=
  match r.pc with
  | .finished | .thrown _ => (r, [])
  | pc =>
    match onFrame env frame pc r.loop with
    | .ok (pc, reply) loop => ({ loop := loop, pc := pc }, reply)
    | .error e loop => ({ loop := loop, pc := .thrown e }, [])

/-- The receiver finds the channel closed. -/
def StreamRecv.closed (r : StreamRecv codec) : StreamRecv codec :=
  match r.pc with
  | .finished | .thrown _ => r
  | .await _ => { r with pc := .thrown "expected resume ack" }
  | _ => { r with pc := .thrown streamEnded }

/-- `receive_files`, as its conversation sees it. -/
def streamReceiver (codec : StreamCodec) : Receiver (StreamRecv codec) Frame where
  view r :=
    match r.pc with
    | .idle => .idle r.loop
    | .await p => .await r.loop p
    | .finished => .finished r.loop
    | .thrown e => .thrown e r.loop
    | _ => .busy
  feed := StreamRecv.feed env
  idle l := { loop := l }
  await l p := { loop := l, pc := .await p }
  finished l := { loop := l, pc := .finished }
  thrown e l := { loop := l, pc := .thrown e }

end Receiver

/-! ## What the receiver makes of an honest sender

From a single data frame to a payload by induction on the chunks (`drain_payloads`), and
from there to an entry, and to the laws of `Follows`. -/

section Honest

variable {codec : StreamCodec} {env : ReceiveEnv} {source : Source env.prims} {l : Loop}

/-- The receiver is live where a frame is taken. -/
theorem feed_eq {pc : StreamPc codec} (hpc : pc.over = false) (frame : Frame) :
    StreamRecv.feed env { loop := l, pc := pc } frame =
      match onFrame env frame pc l with
      | .ok (pc, reply) loop => ({ loop := loop, pc := pc }, reply)
      | .error e loop => ({ loop := loop, pc := .thrown e }, []) := by
  cases pc with
  | finished => cases hpc
  | thrown e => cases hpc
  | _ => rfl

/-- The answer makes the session, and the session opens its file. -/
theorem feed_ack {p : Pending} (h : Offers env source l.disk.tree p) :
    StreamRecv.feed env { loop := l, pc := (.await p : StreamPc codec) }
        (.resumeAck (resumeAckMessage (agreedSession source p).accepted)) =
      match env.settleSession source p l.disk with
      | .ok session d =>
        match openSession env session d with
        | .ok pc d => ({ loop := { l with disk := d }, pc := pc }, [])
        | .error e d => ({ loop := { l with disk := d }, pc := .thrown e }, [])
      | .error e d => ({ loop := { l with disk := d }, pc := .thrown e }, []) := by
  rw [feed_eq rfl]
  simp only [onFrame, onAck_eq h]
  simp only [bind, EStateM.bind, LoopM.onDisk, pure, EStateM.pure]
  cases env.settleSession source p l.disk with
  | error e d => rfl
  | ok session d =>
    cases hopen : (openSession env session d : EStateM.Result _ _ (StreamPc codec)) with
    | error e d => simp [EStateM.bind, LoopM.onDisk, hopen]
    | ok pc d => simp [EStateM.bind, EStateM.pure, LoopM.onDisk, hopen]

/-- A verdict with an error leaves the receiver over. -/
theorem drain_thrown (e : KikoError) (l : Loop) (frames : List Frame) :
    drain (StreamRecv.feed env) { loop := l, pc := (.thrown e : StreamPc codec) } frames =
      ({ loop := l, pc := .thrown e }, []) :=
  (drain_absorbed (fun _ => rfl) frames).1

/-- A trailer ends an entry as its session says. -/
theorem feed_fileEnd {pc : StreamPc codec} (hpc : pc.busy = true) (trailer : Message) (l : Loop) :
    (StreamRecv.feed env { loop := l, pc := pc } (.fileEnd trailer)).2 = [] ∧
      (streamReceiver env codec).Shows
        (StreamRecv.feed env { loop := l, pc := pc } (.fileEnd trailer)).1
        (verdict (takeFileEnd env trailer pc) l) := by
  have hframe : onFrame env (.fileEnd trailer) pc =
      (do takeFileEnd env trailer pc; return (.idle, [])) := by
    cases pc with
    | idle => cases hpc
    | await p => cases hpc
    | finished => cases hpc
    | thrown e => cases hpc
    | _ => rfl
  have hover : pc.over = false := by
    cases pc with
    | finished => cases hpc
    | thrown e => cases hpc
    | _ => rfl
  rw [feed_eq hover, hframe]
  simp only [verdict, bind, EStateM.bind]
  cases takeFileEnd env trailer pc l with
  | ok _ l' => exact ⟨rfl, rfl⟩
  | error e l' => exact ⟨rfl, l', rfl, rfl⟩

/-! ### A payload -/

variable {d : Disk} {t : Tree} {s : PayloadSession} {out : Place} {cur : Bytes}

/-- The receiver in the middle of a payload: `cur` is what the partial file holds, what was
    hashed, and what is counted. -/
def midPayload (l : Loop) (d : Disk) (t : Tree) (s : PayloadSession) (out : Place) (cur : Bytes)
    (dec : codec.Dec) : StreamRecv codec where
  loop := { l with disk := { d with tree := t.set out (.file cur) } }
  pc := .payload
    { session := s, out := out, currentTotal := cur.length, hashed := cur, decompressor := dec }

theorem commit_eq (bytes : Bytes) (dec : codec.Dec) :
    commitReceivedPayload
        { session := s, out := out, currentTotal := cur.length, hashed := cur, decompressor := dec }
        bytes { d with tree := t.set out (.file cur) } =
      .ok { session := s, out := out, currentTotal := (cur ++ bytes).length, hashed := cur ++ bytes
            decompressor := dec } { d with tree := t.set out (.file (cur ++ bytes)) } := by
  unfold commitReceivedPayload
  split_ifs with hnil
  · subst hnil
    simp [pure, EStateM.pure]
  · have happend : append out bytes { d with tree := t.set out (.file cur) } =
        .ok () { d with tree := t.set out (.file (cur ++ bytes)) } := by
      simp only [append, bind_tree, Tree.set_self]
      rw [change_ok]
      simp
    rw [bind_of_ok happend, List.length_append]
    rfl

/-- Bytes that fit are taken as they are. -/
theorem feed_data_raw (hzstd : s.setup.useZstd = false) {payload : Bytes}
    (hfits : cur.length + payload.length ≤ s.setup.declaredSize) (dec : codec.Dec) :
    StreamRecv.feed env (midPayload l d t s out cur dec) (.data payload) =
      (midPayload l d t s out (cur ++ payload) dec, []) := by
  have hcheck : (if payload = [] then .ok () else
      ensureDeclaredSpace cur.length s.setup.declaredSize payload.length s.setup.relative) =
        (.ok () : Except KikoError Unit) := by
    rw [ensureDeclaredSpace_ok hfits, ite_self]
  rw [midPayload, feed_eq rfl]
  simp only [onFrame, takeData, hzstd, Bool.false_eq_true, if_false, hcheck, ReceiveM.check,
    pure_bind]
  rw [bind_of_ok (onDisk_ok.mpr ⟨_, commit_eq payload dec, rfl⟩)]
  rfl

/-- A compressed payload is taken as what it decompresses to. -/
theorem feed_data_zstd (hzstd : s.setup.useZstd = true) {payload bytes : Bytes}
    {dec dec' : codec.Dec} (hfits : cur.length ≤ s.setup.declaredSize)
    (hdec : codec.decompress dec payload (s.setup.declaredSize - cur.length) = .ok (dec', bytes)) :
    StreamRecv.feed env (midPayload l d t s out cur dec) (.data payload) =
      (midPayload l d t s out (cur ++ bytes) dec', []) := by
  have hspace : ensureDeclaredSpace cur.length s.setup.declaredSize 0 s.setup.relative = .ok () :=
    ensureDeclaredSpace_ok hfits
  rw [midPayload, feed_eq rfl]
  simp only [onFrame, takeData, hzstd, if_true, hspace, hdec, ReceiveM.check, pure_bind]
  rw [bind_of_ok (onDisk_ok.mpr ⟨_, commit_eq bytes dec', rfl⟩)]
  rfl

theorem drain_data_raw (hzstd : s.setup.useZstd = false) (dec : codec.Dec) (payloads : List Bytes)
    (hfits : cur.length + payloads.flatten.length ≤ s.setup.declaredSize) :
    drain (StreamRecv.feed env) (midPayload l d t s out cur dec) (payloads.map .data) =
      (midPayload l d t s out (cur ++ payloads.flatten) dec, []) := by
  induction payloads generalizing cur with
  | nil => simp
  | cons payload payloads ih =>
    simp only [List.flatten_cons, List.length_append] at hfits
    have hhead : cur.length + payload.length ≤ s.setup.declaredSize := by omega
    rw [List.map_cons, drain_cons, feed_data_raw hzstd hhead dec,
      ih (by rw [List.length_append]; omega), List.flatten_cons, List.append_assoc]
    rfl

theorem drain_data_zstd (hzstd : s.setup.useZstd = true) {dec : codec.Dec} {payloads : List Bytes}
    {bytes : Bytes} (hfits : cur.length + bytes.length ≤ s.setup.declaredSize)
    (hdec : decompressAll codec.decompress dec (s.setup.declaredSize - cur.length) payloads =
      .ok bytes) :
    ∃ dec', drain (StreamRecv.feed env) (midPayload l d t s out cur dec) (payloads.map .data) =
      (midPayload l d t s out (cur ++ bytes) dec', []) := by
  induction payloads generalizing cur dec bytes with
  | nil =>
    obtain rfl := Except.ok.inj hdec
    exact ⟨dec, by simp⟩
  | cons payload payloads ih =>
    simp only [decompressAll, bind, Except.bind] at hdec
    split at hdec
    next => cases hdec
    next x hhead =>
      obtain ⟨dec₁, head⟩ := x
      split at hdec
      next => cases hdec
      next rest hrest =>
        obtain rfl := Except.ok.inj hdec
        simp only [List.length_append] at hfits
        have hroom : s.setup.declaredSize - cur.length - head.length =
            s.setup.declaredSize - (cur ++ head).length := by
          rw [List.length_append]
          omega
        rw [hroom] at hrest
        obtain ⟨dec', hdrain⟩ := ih (by rw [List.length_append]; omega) hrest
        refine ⟨dec', ?_⟩
        rw [List.map_cons, drain_cons, feed_data_zstd hzstd (by omega) hhead, hdrain,
          List.append_assoc]
        rfl

/-- **What a sender reads on from the offset, a receiver has.** -/
theorem drain_payloads (hres : Resumes env source d.tree s) :
    ∃ dec, drain (StreamRecv.feed env) (midPayload l d t s out s.hashed codec.decoder)
      ((streamPayloads codec s.setup.useZstd source.content s.resumeOffset).map .data) =
        (midPayload l d t s out (s.hashed ++ source.content.drop s.resumeOffset) dec, []) := by
  have hflat := Pieces.flatten_cut kPlainChunk_pos s.resumeOffset
    (source.content.drop s.resumeOffset)
  have hfits : s.hashed.length + (source.content.drop s.resumeOffset).length ≤
      s.setup.declaredSize := by
    have := hres.offered.length_le
    rw [List.length_drop, hres.offset, hres.size] at *
    omega
  unfold streamPayloads
  cases hzstd : s.setup.useZstd with
  | false =>
    refine ⟨codec.decoder, ?_⟩
    simp only [Bool.false_eq_true, if_false]
    rw [drain_data_raw hzstd, hflat]
    rwa [hflat]
  | true =>
    simp only [if_true]
    refine drain_data_zstd hzstd hfits ?_
    have := codec.lossless
      ((Pieces.cut kPlainChunk s.resumeOffset (source.content.drop s.resumeOffset)).map (·.bytes))
      (s.setup.declaredSize - s.hashed.length) (by rw [hflat]; omega)
    rwa [hflat] at this

/-- The two ways to open a partial file that can be resumed differ in what they go on to
    write only. -/
theorem openStream_eq (hres : Resumes env source d.tree s) {place : Place} {content : Bytes}
    (hp : env.partPlace d.tree s.partPath = some (place, content)) :
    env.openStream s d =
      .ok place { d with tree := d.tree.set place (.file s.hashed), touched := d.touched ++ [place] } := by
  have hkept : (if 0 < s.resumeOffset then content else []) = s.hashed := by
    obtain ⟨-, -, -, hwhole⟩ := partPlace_offered hres.offered hp
    rw [hres.offset]
    split_ifs with hpos
    · exact (hwhole (List.ne_nil_of_length_pos hpos)).1
    · exact (List.eq_nil_of_length_eq_zero (Nat.eq_zero_of_not_pos hpos)).symm
  simp only [ReceiveEnv.openStream, bind_tree, hp, bind_change, hkept]
  rfl

/-- The trailer finds the payload where `takePayload` puts it. -/
theorem verdict_payload {place : Place} {content : Bytes} {dec : codec.Dec}
    (hp : env.partPlace d.tree s.partPath = some (place, content)) (file : Bytes)
    (hfile : file = s.hashed ++ source.content.drop s.resumeOffset) :
    verdict (takeFileEnd env (endMessage (env.prims.sha256Hex source.content))
        (.payload { session := s, out := place, currentTotal := file.length, hashed := file
                    decompressor := dec }))
        { l with disk := { d with
          tree := d.tree.set place (.file file), touched := d.touched ++ [place] } } =
      verdict (env.takePayload source s) { l with disk := d } := by
  have hstore : env.storePart s file d = .ok () { d with
      tree := d.tree.set place (.file file), touched := d.touched ++ [place] } := by
    simp only [ReceiveEnv.storePart, bind_tree, hp]
    exact change_ok.mpr rfl
  have hstored := onDisk_ok (l := { l with disk := d }).mpr ⟨_, hstore, rfl⟩
  simp only [ReceiveEnv.takePayload, takeFileEnd, endMessage_sha256, ← hfile, verdict,
    bind_of_ok hstored]
  simp only [bind, EStateM.bind, LoopM.onDisk]
  cases env.completeReceived s (env.prims.sha256Hex source.content) file.length
    (env.prims.sha256Hex file) { d with
      tree := d.tree.set place (.file file), touched := d.touched ++ [place] } with
  | ok size d' => rfl
  | error e d' => rfl

/-- **A payload, from its answer to its trailer.** -/
theorem drain_payload (hres : Resumes env source d.tree s) (l : Loop) :
    match openSession env (.receivePayload s) d with
    | .error e d' => verdict (env.takePayload source s) { l with disk := d } = .error (e, d')
    | .ok (pc : StreamPc codec) d' =>
      let frames := (streamPayloads codec s.setup.useZstd source.content s.resumeOffset).map .data ++
        [.fileEnd (endMessage (env.prims.sha256Hex source.content))]
      (drain (StreamRecv.feed env) { loop := { l with disk := d' }, pc := pc } frames).2 = [] ∧
        (streamReceiver env codec).Shows
          (drain (StreamRecv.feed env) { loop := { l with disk := d' }, pc := pc } frames).1
          (verdict (env.takePayload source s) { l with disk := d }) := by
  cases hp : env.partPlace d.tree s.partPath with
  | none =>
    have hopen : env.openStream s d = .error ("failed to open output file: " ++ s.partPath.text) d := by
      simp only [ReceiveEnv.openStream, bind_tree, hp]
      rfl
    have hstore : LoopM.onDisk (env.storePart s (s.hashed ++ source.content.drop s.resumeOffset))
        { l with disk := d } =
          .error ("failed to open output file: " ++ s.partPath.text) { l with disk := d } := by
      simp only [LoopM.onDisk, ReceiveEnv.storePart, bind_tree, hp]
      rfl
    simp only [openSession, bind_of_error hopen, ReceiveEnv.takePayload, verdict,
      bind_of_error hstore]
  | some x =>
    obtain ⟨place, content⟩ := x
    simp only [openSession, bind_of_ok (openStream_eq hres hp), pure, EStateM.pure, hres.offset]
    -- from the open file through the data frames, and then the trailer
    have hdrain : ∃ dec : codec.Dec, drain (StreamRecv.feed env)
        (midPayload l { d with touched := d.touched ++ [place] } d.tree s place s.hashed
          codec.decoder) _ = _ := drain_payloads hres
    obtain ⟨dec, hdrain⟩ := hdrain
    simp only [midPayload, hres.offset] at hdrain
    rw [drain_append, hdrain]
    simp only [drain_cons, drain_nil, List.nil_append, List.append_nil]
    rw [← verdict_payload hp _ (by rw [hres.offset])]
    exact feed_fileEnd rfl _ _

theorem feed_manifest (l : Loop) (text : ManifestText) :
    StreamRecv.feed env { loop := l, pc := (.idle : StreamPc codec) } (.manifest text) =
      match env.takeManifest text l with
      | .ok _ l' => ({ loop := l' }, [])
      | .error e l' => ({ loop := l', pc := .thrown e }, []) := by
  rw [feed_eq rfl]
  simp only [onFrame, bind, EStateM.bind]
  cases env.takeManifest text l <;> rfl

theorem feed_fileHeader (l : Loop) (header : Message) :
    StreamRecv.feed env { loop := l, pc := (.idle : StreamPc codec) } (.fileHeader header) =
      match env.takeFileHeader header l with
      | .ok p l' => ({ loop := l', pc := .await p }, [.resume p.request])
      | .error e l' => ({ loop := l', pc := .thrown e }, []) := by
  have hframe : onFrame env (.fileHeader header) (.idle : StreamPc codec) =
      (do
        let pending ← env.takeFileHeader header
        return (.await pending, [.resume pending.request])) := rfl
  rw [feed_eq rfl, hframe]
  simp only [bind, EStateM.bind]
  cases env.takeFileHeader header l <;> rfl

theorem feed_done (l : Loop) :
    StreamRecv.feed env { loop := l, pc := (.idle : StreamPc codec) } .done =
      match takeDone l with
      | .ok _ l' => ({ loop := l', pc := .finished }, [.ack])
      | .error e l' => ({ loop := l', pc := .thrown e }, []) := by
  have hframe : onFrame env .done (.idle : StreamPc codec) =
      (do takeDone; return (.finished, [.ack])) := rfl
  rw [feed_eq rfl, hframe]
  simp only [bind, EStateM.bind]
  cases takeDone l <;> rfl

/-- An entry, once its session stands. -/
theorem drain_session (codec : StreamCodec) {p : Pending} (hoff : Offers env source l.disk.tree p) {session : Session}
    (hs : env.settleSession source p l.disk = .ok session d) :
    match openSession env session d with
    | .error e d' => verdict (env.afterSession source session) { l with disk := d } = .error (e, d')
    | .ok (pc : StreamPc codec) d' =>
      let frames := (streamSend codec).body source (agreedSession source p) ++
        [.fileEnd (endMessage (trailerSha256 source (agreedSession source p)))]
      (drain (StreamRecv.feed env) { loop := { l with disk := d' }, pc := pc } frames).2 = [] ∧
        (streamReceiver env codec).Shows
          (drain (StreamRecv.feed env) { loop := { l with disk := d' }, pc := pc } frames).1
          (verdict (env.afterSession source session) { l with disk := d }) := by
  have haction := settleSession_action hs
  cases session with
  -- Nothing is sent between answer and trailer, and the trailer ends the entry.
  | marker setup marker =>
    have hbody : (streamSend codec).body source (agreedSession source p) = [] := by
      simp [SendOps.body, haction, Session.action]
    simp only [openSession, pure, EStateM.pure, hbody, List.nil_append, drain_cons, drain_nil,
      List.append_nil]
    exact feed_fileEnd rfl _ _
  -- Of a skipped file the sender says nothing but the trailer either.
  | skipPayload setup =>
    have hbody : (streamSend codec).body source (agreedSession source p) = [] := by
      simp [SendOps.body, haction, Session.action, streamSend]
    simp only [openSession, pure, EStateM.pure, hbody, List.nil_append, drain_cons, drain_nil,
      List.append_nil]
    exact feed_fileEnd rfl _ _
  | receivePayload s =>
    obtain ⟨hres, hacc⟩ := settleSession_resumes hoff hs
    have hbody : (streamSend codec).body source (agreedSession source p) =
        (streamPayloads codec s.setup.useZstd source.content s.resumeOffset).map .data := by
      simp [SendOps.body, haction, Session.action, streamSend, hres.zstd, hacc]
    have htrailer : trailerSha256 source (agreedSession source p) =
        env.prims.sha256Hex source.content := by
      simp [trailerSha256, haction, Session.action]
    rw [hbody, htrailer]
    exact drain_payload hres l

/-- **`receive_files` follows `send_files`.** -/
theorem stream_follows (env : ReceiveEnv) (codec : StreamCodec) :
    Follows env (streamSend codec) (streamReceiver env codec) where
  view_idle _ := rfl
  view_await _ _ := rfl
  view_finished _ := rfl
  view_thrown _ _ := rfl
  absorbs _ _ _ := rfl
  absorbs_finished _ _ := rfl
  manifest l text := by
    change (StreamRecv.feed env { loop := l, pc := .idle } (.manifest text)).2 = [] ∧
      (streamReceiver env codec).Shows
        (StreamRecv.feed env { loop := l, pc := .idle } (.manifest text)).1 _
    rw [feed_manifest, verdict]
    cases env.takeManifest text l with
    | ok _ l' => exact ⟨rfl, rfl⟩
    | error e l' => exact ⟨rfl, l', rfl, rfl⟩
  fileHeader := feed_fileHeader
  done := feed_done
  entry l p source hoff := by
    change (drain (StreamRecv.feed env) { loop := l, pc := .await p }
        (.resumeAck (resumeAckMessage (agreedSession source p).accepted) :: (_ ++ _))).2 = [] ∧
      (streamReceiver env codec).Shows (drain (StreamRecv.feed env) { loop := l, pc := .await p }
        (.resumeAck (resumeAckMessage (agreedSession source p).accepted) :: (_ ++ _))).1 _
    rw [drain_cons, feed_ack hoff, verdict_exchange]
    cases hs : env.settleSession source p l.disk with
    | error e d =>
      simp only [drain_thrown, List.append_nil]
      exact ⟨trivial, _, rfl, rfl⟩
    | ok session d =>
      have hdrain := drain_session codec hoff hs
      cases hopen : (openSession env session d : EStateM.Result _ _ (StreamPc codec)) with
      | error e d' =>
        rw [hopen] at hdrain
        simp only [hopen, drain_thrown, List.append_nil, hdrain]
        exact ⟨trivial, _, rfl, rfl⟩
      | ok pc d' =>
        rw [hopen] at hdrain
        simp only [hopen, List.nil_append]
        exact hdrain

end Honest
end Kiko.Transfer
