import Kiko.Transfer.FileSession

/-!
# What the transfer loops share (`transfer/transfer_stream`, `transfer/mux_transfer`)

`receive_files` and `receive_files_mux` are two loops over the same variables; apart from the
payload of an entry they take the same steps, which are defined here once. On the other
side `send_transfer_files` is one loop for both paths, with the payload a parameter, and so
it is here (`SendOps`).

A blocking thread is cut at its waits. Between two waits the sender only sends, so it is a
list of things to put on its way (`todo`) and what it waits for then (`Wait`).

That the sharing is right can be read off the source: the two receive loops differ in the
branch for a payload and in nothing else, down to the texts of their errors. So each step
here is stated once, and the two state machines, `Kiko.Transfer.Stream` and
`Kiko.Transfer.Mux`, call it.
-/

set_option autoImplicit false

namespace Kiko.Transfer

/-! ## The receiver

The steps are in a monad of their own over the variables of the loop and the disk, so that a
step that throws leaves both as far as it had come, as the code does. -/

/-- The variables of a receive loop that outlast an entry. -/
structure Loop where
  disk : Disk
  plan : Option ReceivePlan := none
  sawManifest : Bool := false
  sawFileHeader : Bool := false
  fileCount : Nat := 0
  grandTotal : Nat := 0

/-- A step of a receive loop. -/
abbrev LoopM := EStateM KikoError Loop

namespace LoopM

def onDisk {α : Type} (m : ReceiveM α) : LoopM α := fun l =>
  match m l.disk with
  | .ok a d => .ok a { l with disk := d }
  | .error e d => .error e { l with disk := d }

/-- A file is counted. -/
def countFile : LoopM Unit := modify fun l => { l with fileCount := l.fileCount + 1 }

/-- The bytes of a file are added to the total, a `std::uint64_t`. -/
def addTotal (size : Nat) : LoopM Unit :=
  modify fun l => { l with grandTotal := (l.grandTotal + size) % 2 ^ 64 }

end LoopM

namespace ReceiveEnv

open LoopM

variable (env : ReceiveEnv)

/-- A manifest frame. -/
def takeManifest (text : ManifestText) : LoopM Unit := do
  if (← get).sawFileHeader then throw "transfer manifest arrived after file headers"
  else if (← get).sawManifest then throw "duplicate transfer manifest"
  else
    let manifest ← onDisk (ReceiveM.check (decodeTransferManifest env.prims text))
    let plan ← onDisk (env.preflightTransferManifest manifest)
    modify fun l => { l with plan := some plan, sawManifest := true }

/-- A file header frame, up to the question where to resume. -/
def takeFileHeader (header : Message) : LoopM Pending := do
  modify fun l => { l with sawFileHeader := true }
  let relative := header.get "path"
  if relative = "" then throw "file header missing path"
  else
    let plan ← onDisk (ReceiveM.check (recordReceivePlanHeader (← get).plan relative))
    modify fun l => { l with plan := plan }
    onDisk (env.prepare plan header)

/-- The end of a marker entry. -/
def endMarker (setup : EntrySetup) (marker : Marker) : LoopM Unit := do
  onDisk (env.completeMarker setup marker)
  countFile

end ReceiveEnv

/-- The end of a skipped file, with `complete_skipped`. -/
def endSkipped (setup : EntrySetup) : LoopM Unit := do
  LoopM.countFile
  LoopM.addTotal setup.declaredSize

/-- A `Done` frame, up to the ack. -/
def takeDone : LoopM Unit := do
  LoopM.onDisk (ReceiveM.check (validateReceivePlanComplete (← get).plan))

/-- What a closed connection is to a loop that waits for a frame. -/
def streamEnded : KikoError := "transfer stream ended unexpectedly"

/-! ## The sender

`SendOps` is what the two paths differ in: how a frame goes out on the control channel, and
what becomes of a payload. Everything else, and above all the order, is common to both. -/

/-- What a sender with nothing left to send waits for. -/
inductive Wait (prims : Primitives)
  /-- the resume request of `source`; `rest` comes after it -/
  | resume (source : Source prims) (rest : List (Source prims))
  | ack
  | returned
  | thrown (error : KikoError)

/-- The sender waits no more. -/
def Wait.over {prims : Primitives} : Wait prims → Bool
  | .returned | .thrown _ => true
  | _ => false

/-- `send_transfer_files`, between two waits. -/
structure SendLoop (prims : Primitives) (α : Type) where
  todo : List α
  wait : Wait prims
  grandTotal : Nat := 0

/-- What a path makes of the sender's steps: a frame on the control channel, and
    `send_payload`. -/
structure SendOps (prims : Primitives) (α : Type) where
  control : Frame → α
  payload : Source prims → SendSession → List α

namespace SendOps

variable {prims : Primitives} {α : Type} (ops : SendOps prims α)

/-- The next header, or `Done`. -/
def announce : List (Source prims) → List α × Wait prims
  | [] => ([ops.control .done], .ack)
  | source :: rest => ([ops.control (.fileHeader (makeFileHeader source.entry))], .resume source rest)

/-- `send_transfer_files`, up to the first wait. -/
def start (sources : List (Source prims)) : SendLoop prims α :=
  match encodeTransferManifest prims (sources.map (·.entry)) with
  | .error e => { todo := [], wait := .thrown e }
  | .ok text =>
    { todo := ops.control (.manifest text) :: (ops.announce sources).1
      wait := (ops.announce sources).2 }

/-- What is sent between the answer of a session and its trailer. -/
def body (source : Source prims) (session : SendSession) : List α :=
  match session.action with
  | .markerComplete => []
  | .skipPayload | .sendPayload => ops.payload source session

/-- What is sent for an entry once its session stands. -/
def entry (source : Source prims) (session : SendSession) : List α :=
  ops.control (.resumeAck (resumeAckMessage session.accepted)) :: (ops.body source session ++
    [ops.control (.fileEnd (endMessage (trailerSha256 source session)))])

/-- The frame the sender waits for is there. -/
def answer (s : SendLoop prims α) (frame : Frame) : Option (SendLoop prims α) :=
  match s.todo, s.wait with
  | [], .resume source rest =>
    match onResume source frame with
    | .error e => some { s with wait := .thrown e }
    | .ok session => some
      { todo := ops.entry source session ++ (ops.announce rest).1
        wait := (ops.announce rest).2
        grandTotal := (s.grandTotal + sentTotal source session) % 2 ^ 64 }
  | [], .ack =>
    match frame with
    | .ack => some { s with wait := .returned }
    | _ => some { s with wait := .thrown "expected transfer ack" }
  | _, _ => none

end SendOps
end Kiko.Transfer
