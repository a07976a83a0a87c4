import Kiko.Transfer.ReceivePlan

/-!
# One entry, from its header to its end (`transfer/transfer_file_session`)

Both constructors hold a dialogue: the sender announces an entry, the receiver asks where
to resume, the sender answers. Each is cut here at its waits.

```
   sender                                      receiver
   makeFileHeader ────── FileHeader ─────────> prepare : Pending
   onResume       <───── Resume ────────────── Pending.request
                  ────── ResumeAck ──────────> onAck : Session, or Pending once more
```

A duplicate that the sender does not confirm is the one case with a second question:
`try_skip_existing_duplicate` answers false and the constructor goes on to ask again.
What follows a settled session (marker, skipped file, payload) and ends the entry is
`completeMarker`, `completeSkipped` and `completeReceived`.

A constructor that waits for the network in its middle is no function of its arguments.
Cut at the waits it is three: what comes before the question, what the other side
answers, what is made of the answer. The values between them (`Pending`, `Session`) hold
exactly what the C++ object holds at that point, so a field of the class that is not set
yet has no counterpart.

A mux session and a stream session run the same dialogue over their first channel, and
both loops use these definitions as they stand.
-/

set_option autoImplicit false

namespace Kiko.Transfer

open Lexical FileTree

/-! ## The sender

The precompressed extensions and the metadata are part of the header a receiver may
refuse, so they are kept as the source has them. -/

/-- `is_precompressed_ext`. -/
def isPrecompressedExt (ext : String) : Bool :=
  ["7z", "avi", "br", "bz2", "flac", "gif", "gz", "jpeg", "jpg", "lz4", "mkv", "mov", "mp3",
    "mp4", "ogg", "opus", "png", "rar", "webp", "xz", "zip", "zst", "tgz", "tbz2", "txz", "wasm",
    "pdf", "heic", "heif", "avif", "jxl"].contains ext

/-- `lower_ext`. -/
def lowerExt (path : FsPath) : String :=
  (String.ofList (path.extension.toList.dropWhile (· = '.'))).map Char.toLower

/-- `should_compress_entry`. -/
def shouldCompressEntry (entry : FileEntry) : Bool :=
  transferEntryKind entry = .file && !isPrecompressedExt (lowerExt (FsPath.ofString entry.absolute))

/-- `append_metadata_fields`. -/
def metadataFields (entry : FileEntry) : List (String × String) :=
  (if 0 < entry.mtimeMs then [("mtime_ms", toString entry.mtimeMs)] else []) ++
    (if 0 < entry.mode then [("mode", toString entry.mode)] else [])

/-- `make_file_header`. -/
def makeFileHeader (entry : FileEntry) : Message :=
  match transferEntryKind entry with
  | .symlink =>
    { type := "file",
      fields := [("path", entry.relative), ("size", "0"), ("compress", "none"),
        ("kind", "symlink"), ("target", entry.linkTarget)] }
  | .directory =>
    { type := "file",
      fields := [("path", entry.relative), ("size", "0"), ("compress", "none")] ++
        metadataFields entry }
  | .file =>
    { type := "file",
      fields := [("path", entry.relative), ("size", toString entry.size),
        ("imohash", entry.imohash),
        ("compress", if shouldCompressEntry entry then "zstd" else "none")] ++
        metadataFields entry }

/-- The message of `send_resume`. -/
def resumeMessage (offset : Nat) (prefixSha256 : String := "") (completeSkip : Bool := false) :
    Message :=
  { type := "resume",
    fields := [("offset", toString offset)] ++
      (if prefixSha256 ≠ "" then [("prefix_sha256", prefixSha256)] else []) ++
      (if completeSkip then [("complete_skip", "1")] else []) }

structure ResumeRequest where
  offset : Nat
  prefixSha256 : String
  completeSkip : Bool
deriving DecidableEq, Repr

/-- `recv_resume_request`. -/
def recvResumeRequest (frame : Frame) (entry : FileEntry) : Except KikoError ResumeRequest :=
  match frame with
  | .resume message => do
    let asked ← message.getU64 "offset" 0
    let offset := if entry.size < asked then 0 else asked
    .ok { offset := offset
          prefixSha256 := message.get "prefix_sha256"
          completeSkip := offset = entry.size && message.get "complete_skip" = "1" }
  | _ => .error "expected resume frame"

/-- The message of `send_resume_ack`. -/
def resumeAckMessage (acceptedOffset : Nat) : Message :=
  { type := "resume_ack", fields := [("offset", toString acceptedOffset)] }

inductive SendFileAction
  | markerComplete
  | skipPayload
  | sendPayload
deriving DecidableEq, Repr

/-- A `SendFileSession` whose dialogue is over: what it does, and the offset it has
    acknowledged and sends its payload from. -/
structure SendSession where
  action : SendFileAction
  accepted : Nat
deriving DecidableEq, Repr

section Sender

variable {prims : Primitives}

/-- `validate_complete_skip_source`. -/
def validateCompleteSkipSource (source : Source prims) : Except KikoError Unit :=
  if source.content.length ≠ source.entry.size ∨ source.entry.imohash = "" ∨
      prims.imohashHex source.content ≠ source.entry.imohash then
    .error ("source file changed since manifest: " ++ source.entry.relative)
  else .ok ()

/-- The rest of `SendFileSession::SendFileSession`, once the resume request is there. -/
def onResume (source : Source prims) (frame : Frame) : Except KikoError SendSession := do
  let resume ← recvResumeRequest frame source.entry
  if transferEntryKind source.entry ≠ .file then
    .ok { action := .markerComplete, accepted := resume.offset }
  else if resume.completeSkip ∧ resume.offset = source.entry.size then
    validateCompleteSkipSource source
    .ok { action := .skipPayload, accepted := source.entry.size }
  else if source.content.length < resume.offset then
    .error ("source shorter than resume offset: " ++ source.entry.relative)
  else
    let prefixSha256 := prims.sha256Hex (source.content.take resume.offset)
    if 0 < resume.offset ∧ resume.prefixSha256 ≠ "" ∧ resume.prefixSha256 ≠ prefixSha256 then
      .ok { action := .sendPayload, accepted := 0 }
    else .ok { action := .sendPayload, accepted := resume.offset }

/-- The trailer of `finish`. -/
def endMessage (sha256 : String) : Message := { type := "end", fields := [("sha256", sha256)] }

/-- The digest in the trailer: of the whole content after a payload, of nothing else. -/
def trailerSha256 (source : Source prims) (session : SendSession) : String :=
  match session.action with
  | .sendPayload => prims.sha256Hex source.content
  | _ => kEmptySha256

/-- What `complete` and `complete_skipped` add to the sender's total. -/
def sentTotal (source : Source prims) (session : SendSession) : Nat :=
  match session.action with
  | .markerComplete => 0
  | .skipPayload => source.entry.size
  | .sendPayload => source.content.length

end Sender

/-! ## The receiver: up to the question

The checks come in the order of the constructor. Which of them fails first decides what
the error says and what has been made on the disk by then. -/

/-- What `ReceiveFileSession` knows of its entry. -/
structure EntrySetup where
  header : Message
  relative : String
  currentPath : FsPath
  declaredSize : Nat
  useZstd : Bool
  planned : Option ReceivePlanEntry
deriving DecidableEq, Repr

/-- What a marker entry leaves to be done at its end. -/
inductive Marker
  | directory
  | symlink (target : String) (skip : Bool)
deriving DecidableEq, Repr

/-- A `ReceiveFileSession` that has asked where to resume. -/
inductive Pending
  | marker (setup : EntrySetup) (marker : Marker)
  | conflictSkip (setup : EntrySetup)
  | duplicate (setup : EntrySetup)
  /-- `hashed` is what of the partial file has gone through the hasher -/
  | payload (setup : EntrySetup) (partPath : FsPath) (hashed : Bytes) (prefixSha256 : String)
deriving DecidableEq, Repr

namespace Pending

def setup : Pending → EntrySetup
  | marker setup _ | conflictSkip setup | duplicate setup | payload setup _ _ _ => setup

/-- The offset it has asked for. -/
def offset : Pending → Nat
  | marker _ _ => 0
  | conflictSkip setup | duplicate setup => setup.declaredSize
  | payload _ _ hashed _ => hashed.length

/-- The question it has asked. -/
def request : Pending → Message
  | marker _ _ => resumeMessage 0
  | conflictSkip setup | duplicate setup => resumeMessage setup.declaredSize "" true
  | payload _ _ hashed prefixSha256 => resumeMessage hashed.length prefixSha256

end Pending

/-- `report_renamed_conflict`. -/
def reportRenamedConflict (relative : String) (renamed : FsPath) : ReceiveM Unit :=
  ReceiveM.status ("renamed conflict " ++ relative ++ " -> " ++ renamed.filename)

namespace ReceiveEnv

variable (env : ReceiveEnv)

open ReceiveM

/-- The conflict policy's part for a target that is not planned, or planned to be renamed:
    where the entry goes. -/
def resolveConflictPath (setup : EntrySetup) : ReceiveM FsPath := do
  match setup.planned with
  | some planned =>
    if planned.action = .rename then reportRenamedConflict setup.relative setup.currentPath
    return setup.currentPath
  | none =>
    if env.policy = .rename ∧ env.pathExistsNoFollow (← tree) setup.currentPath then
      let renamed ← check (env.uniqueConflictPath (← tree) setup.currentPath)
      reportRenamedConflict setup.relative renamed
      return renamed
    else return setup.currentPath

/-- The plan, or without a plan the policy, skips the entry because its target exists. -/
def skipsExisting (t : Tree) (setup : EntrySetup) : Bool :=
  match setup.planned with
  | some planned => planned.action = .skip
  | none => env.policy = .skip && env.pathExistsNoFollow t setup.currentPath

/-- The constructor's branch for a symbolic link. -/
def prepareSymlink (setup : EntrySetup) : ReceiveM Pending := do
  let target := setup.header.get "target"
  check (validateSafeSymlinkTarget setup.relative target)
  if env.skipsExisting (← tree) setup then
    status ("skipped existing " ++ setup.relative)
    check (env.validateReceiveTargetParent (← tree) setup.currentPath setup.relative)
    return .marker setup (.symlink target true)
  else
    let current ← env.resolveConflictPath setup
    check (env.validateReceiveTargetParent (← tree) current setup.relative)
    return .marker { setup with currentPath := current } (.symlink target false)

/-- The constructor's branch for a directory. -/
def prepareDirectory (setup : EntrySetup) : ReceiveM Pending := do
  check (env.validateReceiveTargetParent (← tree) setup.currentPath setup.relative)
  env.createDirectories setup.currentPath
  env.applyFileMetadata setup.currentPath setup.header
  return .marker setup .directory

/-- What there is of the partial file of `current` is offered. -/
def offerPartial (setup : EntrySetup) (current : FsPath) : ReceiveM Pending := do
  let part := partPathFor current
  check (env.validateReceivePartPath (← tree) part setup.relative)
  let have_ ← check (env.resumablePartSize (← tree) part setup.declaredSize)
  let t ← tree
  match if 0 < have_ then env.hashExistingPartPrefix t part have_ else none with
  | some bytes =>
    return .payload { setup with currentPath := current } part bytes (env.prims.sha256Hex bytes)
  | none => return .payload { setup with currentPath := current } part [] ""

/-- The constructor's last part: a payload is expected. -/
def preparePayload (setup : EntrySetup) : ReceiveM Pending := do
  let current ← env.resolveConflictPath setup
  check (env.validateReceiveTargetParent (← tree) current setup.relative)
  env.createParent current
  env.offerPartial setup current

/-- `try_skip_existing_duplicate`, up to its question: the target is a file with the
    sender's sampled digest. -/
def isDuplicate (t : Tree) (setup : EntrySetup) : Bool :=
  let declared := setup.header.get "imohash"
  match env.symlinkStatus t setup.currentPath with
  | some (.file content) => declared ≠ "" && env.prims.imohashHex content = declared
  | _ => false

/-- The constructor's branch for a file. -/
def prepareFile (setup : EntrySetup) : ReceiveM Pending := do
  if env.skipsExisting (← tree) setup then
    status ("skipped existing " ++ setup.relative)
    return .conflictSkip setup
  else if env.isDuplicate (← tree) setup then return .duplicate setup
  else env.preparePayload setup

/-- Where an entry goes: as its plan says, or without a plan under its own path. -/
def headerTarget (plan : Option ReceivePlan) (header : Message) (relative : String)
    (declaredSize : Nat) : Except KikoError FsPath :=
  match plan, findReceivePlanEntry plan relative with
  | some _, none => .error ("file header was not listed in manifest: " ++ relative)
  | _, some planned => do
    validateReceivePlanHeader planned header relative declaredSize
    .ok planned.targetPath
  | none, none => safeJoin env.outputDir relative

/-- The constructor's first part: what the header says is checked. -/
def entrySetup (t : Tree) (plan : Option ReceivePlan) (header : Message) :
    Except KikoError EntrySetup :=
  let relative := header.get "path"
  if relative = "" then .error "file header missing path"
  else do
    let declaredSize ← header.getU64 "size" 0
    let current ← env.headerTarget plan header relative declaredSize
    env.validateReceiveTargetParent t current relative
    .ok { header := header
          relative := relative
          currentPath := current
          declaredSize := declaredSize
          useZstd := header.get "compress" "zstd" ≠ "none"
          planned := findReceivePlanEntry plan relative }

/-- `ReceiveFileSession::ReceiveFileSession`, up to its question. -/
def prepare (plan : Option ReceivePlan) (header : Message) : ReceiveM Pending := do
  let setup ← check (env.entrySetup (← tree) plan header)
  if isSymlinkHeader header then env.prepareSymlink setup
  else if isDirHeader setup.relative setup.declaredSize then env.prepareDirectory setup
  else env.prepareFile setup

/-! ## The receiver: the answer

The partial file may have changed since it was hashed; it is opened as it is then, and
cut to what was accepted. -/

end ReceiveEnv

/-- A payload that is about to come. -/
structure PayloadSession where
  setup : EntrySetup
  partPath : FsPath
  resumeOffset : Nat
  /-- what the hasher has seen -/
  hashed : Bytes
deriving DecidableEq, Repr

/-- A `ReceiveFileSession` whose dialogue is over, by its action. -/
inductive Session
  | marker (setup : EntrySetup) (marker : Marker)
  | skipPayload (setup : EntrySetup)
  | receivePayload (session : PayloadSession)
deriving DecidableEq, Repr

/-- `recv_resume_ack`. -/
def recvResumeAck (frame : Frame) (requestedOffset declaredSize : Nat) (relative : String) :
    Except KikoError Nat :=
  match frame with
  | .resumeAck message => do
    let accepted ← message.getU64 "offset" 0
    if declaredSize < accepted ∨ requestedOffset < accepted then
      .error ("invalid resume ack for " ++ relative)
    else .ok accepted
  | _ => .error "expected resume ack"

namespace ReceiveEnv

variable (env : ReceiveEnv)

open ReceiveM

/-- The place a stream on a partial file writes to, and what stands there. -/
def partPlace (t : Tree) (part : FsPath) : Option (Place × Bytes) :=
  (openPlace t env.cwd part).map fun place =>
    match t place with
    | some (.file content) => (place, content)
    | _ => (place, [])

/-- `resize_file`, on a file. -/
def resizeFile (part : FsPath) (size : Nat) (relative : String) : ReceiveM Unit := do
  match env.partPlace (← tree) part with
  | some (place, content) =>
    if ((← tree) place).isNone then throw ("failed to truncate partial file for " ++ relative)
    else
      change [place] ((← tree).set place
        (.file (content.take size ++ List.replicate (size - content.length) 0)))
  | none => throw ("failed to truncate partial file for " ++ relative)

/-- The sender has accepted `accepted` bytes of the partial file. -/
def acceptOffset (setup : EntrySetup) (part : FsPath) (hashed : Bytes) (accepted : Nat) :
    ReceiveM PayloadSession := do
  if accepted = hashed.length then
    return { setup := setup, partPath := part, resumeOffset := accepted, hashed := hashed }
  else
    status ("resume rejected, restarting " ++ setup.relative)
    let t ← tree
    match if 0 < accepted then env.hashExistingPartPrefix t part accepted else some [] with
    | none => throw ("partial file changed during resume setup: " ++ setup.relative)
    | some bytes =>
      env.resizeFile part accepted setup.relative
      return { setup := setup, partPath := part, resumeOffset := accepted, hashed := bytes }

/-- The rest of the constructor, once the sender's answer is there: the session, or the
    next question. -/
def onAck (pending : Pending) (frame : Frame) : ReceiveM (Session ⊕ Pending) := do
  match pending with
  | .marker setup marker =>
    let _ ← check (recvResumeAck frame 0 0 setup.relative)
    return .inl (.marker setup marker)
  | .conflictSkip setup =>
    let accepted ← check
      (recvResumeAck frame setup.declaredSize setup.declaredSize setup.relative)
    if accepted ≠ setup.declaredSize then
      throw ("sender rejected conflict skip for " ++ setup.relative)
    else return .inl (.skipPayload setup)
  | .duplicate setup =>
    let accepted ← check
      (recvResumeAck frame setup.declaredSize setup.declaredSize setup.relative)
    if accepted ≠ setup.declaredSize then return .inr (← env.preparePayload setup)
    else
      env.applyFileMetadata setup.currentPath setup.header
      status ("skipped duplicate " ++ setup.relative)
      return .inl (.skipPayload setup)
  | .payload setup part hashed _ =>
    let accepted ← check (recvResumeAck frame hashed.length setup.declaredSize setup.relative)
    return .inl (.receivePayload (← env.acceptOffset setup part hashed accepted))

/-! ## The receiver: the end of an entry

Everything is on the disk by now but for the name: what follows is a verification and a
move. -/

/-- `complete_marker`. -/
def completeMarker (setup : EntrySetup) (marker : Marker) : ReceiveM Unit := do
  match marker with
  | .symlink target false =>
    check (env.validateReceiveTargetParent (← tree) setup.currentPath setup.relative)
    env.createSafeSymlink setup.currentPath setup.relative target
  | _ => pure ()

/-- `complete_received`; an empty `actualSha256` stands for a digest still to be taken from
    the file. -/
def completeReceived (session : PayloadSession) (expectedSha256 : String) (receivedSize : Nat)
    (actualSha256 : String) : ReceiveM Nat := do
  let setup := session.setup
  check (env.validateReceiveTargetParent (← tree) setup.currentPath setup.relative)
  check (env.validateReceivePartPath (← tree) session.partPath setup.relative)
  if actualSha256 = "" then
    env.verifyPartFileDigest session.partPath setup.relative setup.declaredSize expectedSha256
  else
    env.verifyReceivedDigest session.partPath setup.relative receivedSize setup.declaredSize
      expectedSha256 actualSha256
  env.finalizePartFile session.partPath setup.currentPath
  env.applyFileMetadata setup.currentPath setup.header
  return setup.declaredSize

end ReceiveEnv
end Kiko.Transfer
