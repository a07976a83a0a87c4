import Kiko.Lib.FileTree
import Kiko.Transfer.Wire

/-!
# The receiver's file system (`transfer/transfer_receive_paths`, `transfer/transfer_resume`)

What the receiver does to the tree it writes into, under a path resolution that follows
links as the system does (`Lib/FileTree`). The checks compare lexical normal forms, as the
source does; the operations that follow a check resolve the path they are given.

Everything runs in `ReceiveM`, which keeps the tree, the reporter's status lines and a
history of the places touched, also when an error is thrown. Not kept: modification times
and permissions, and progress reports. A temporary link is made under a random name, which
is taken to be one that names nothing yet.

The order of a check and the operation it guards is kept, and so is what happens in between.
Errors of the file system are those the tree can have: something is no directory, something
stands in the way, nothing is there. Those it cannot have, a disk that fails or a permission
that is missing, would end the call at the same points with the same effect on what was done
before, which is none.

The history of touched places is a ghost, and it is written by the two operations every
change goes through (`change`, `touch`), so that no change can be made without it.
-/

set_option autoImplicit false

namespace Kiko.Transfer

open Lexical FileTree

abbrev Tree := FileTree.Tree Bytes

/-- `ConflictPolicy`. -/
inductive ConflictPolicy
  | overwrite
  | skip
  | rename
deriving DecidableEq, Repr

/-- What both sides compute the same way: the two digests as lowercase hex, neither ever
    empty, and the length of a manifest's JSON text. -/
structure Primitives where
  sha256Hex : Bytes → String
  imohashHex : Bytes → String
  manifestTextSize : ManifestText → Nat
  sha256Hex_ne : ∀ content, sha256Hex content ≠ ""
  imohashHex_ne : ∀ content, imohashHex content ≠ ""

/-- What a receive call is given, and what the system answers it. -/
structure ReceiveEnv where
  prims : Primitives
  outputDir : FsPath
  policy : ConflictPolicy
  /-- the current directory -/
  cwd : Place
  /-- the `random_code` in the name of a temporary link -/
  linkCode : String := ""
  /-- `receive_filesystem_is_case_insensitive` -/
  caseInsensitive : Except KikoError Bool := .ok false
  /-- the space available to the output directory -/
  available : Except KikoError Nat

/-- What the reporter is told about the plan (`ReceivePlanSummary`). -/
structure ReceivePlanSummary where
  itemCount : Nat := 0
  totalBytes : Nat := 0
  overwriteCount : Nat := 0
  skipCount : Nat := 0
  renameCount : Nat := 0
  resumeCount : Nat := 0
  skipBytes : Nat := 0
  resumeBytes : Nat := 0
deriving DecidableEq, Repr

inductive Report
  | status (text : String)
  | receivePlan (summary : ReceivePlanSummary)
deriving DecidableEq, Repr

/-- What a receive call changes: the tree, and the reporter's log. -/
structure Disk where
  tree : Tree
  log : List Report := []
  /-- history: the places created, opened for writing, renamed, removed, or given metadata -/
  touched : List Place := []

/-- A step of the receiver: it may throw, and what it did before that stays. -/
abbrev ReceiveM := EStateM KikoError Disk

namespace ReceiveM

def status (text : String) : ReceiveM Unit :=
  modify fun d => { d with log := d.log ++ [.status text] }

/-- The tree changes, at these places. -/
def change (places : List Place) (t : Tree) : ReceiveM Unit :=
  modify fun d => { d with tree := t, touched := d.touched ++ places }

/-- A place is acted on in a way the tree does not show. -/
def touch (places : List Place) : ReceiveM Unit :=
  modify fun d => { d with touched := d.touched ++ places }

def tree : ReceiveM Tree := return (← get).tree

/-- A check that looks at the tree, or at nothing. -/
def check {α : Type} (result : Except KikoError α) : ReceiveM α :=
  match result with
  | .ok a => pure a
  | .error e => throw e

end ReceiveM

open ReceiveM

namespace ReceiveEnv

variable (env : ReceiveEnv)

/-- `symlink_status`. -/
def symlinkStatus (t : Tree) (p : FsPath) : Option (Node Bytes) := lstat t env.cwd p

/-- `path_exists_no_follow`. -/
def pathExistsNoFollow (t : Tree) (p : FsPath) : Bool := (env.symlinkStatus t p).isSome

end ReceiveEnv

/-! ## Names and headers

Pure checks of texts. They know of no tree, and they are all there is between a header and
the disk for an entry without a plan. -/

/-- `is_safe_relative_symlink_target`. -/
def isSafeRelativeSymlinkTarget (target : FsPath) : Bool :=
  !target.isEmpty && !target.isAbsolute && !target.parts.contains ".."

def endsInSlash (text : String) : Bool := text.toList.getLast? = some '/'

def hasNul (text : String) : Bool := text.toList.contains '\x00'

/-- `is_dir_header`. -/
def isDirHeader (path : String) (size : Nat) : Bool := size = 0 && path ≠ "" && endsInSlash path

/-- `is_symlink_header`. -/
def isSymlinkHeader (header : Message) : Bool :=
  header.type = "symlink" || header.get "kind" = "symlink"

/-- `validate_safe_symlink_target`. -/
def validateSafeSymlinkTarget (relative target : String) : Except KikoError Unit :=
  if relative = "" ∨ endsInSlash relative = true then
    .error ("refusing invalid symlink path: " ++ relative)
  else if hasNul target then .error ("refusing null byte in symlink target for " ++ relative)
  else if isSafeRelativeSymlinkTarget (FsPath.ofString target) then .ok ()
  else .error ("refusing unsafe symlink target for " ++ relative ++ ": " ++ target)

/-- `safe_join`. -/
def safeJoin (base : FsPath) (relative : String) : Except KikoError FsPath :=
  let rel := FsPath.ofString relative
  if hasNul relative then .error "refusing null byte in transfer path"
  else if rel.isAbsolute then .error ("refusing absolute path in transfer: " ++ relative)
  else if rel.parts.contains ".." then
    .error ("refusing path traversal in transfer: " ++ relative)
  else .ok (base.join rel)

/-- `part_path_for`. -/
def partPathFor (p : FsPath) : FsPath := p.concat ".kikopart"

namespace ReceiveEnv

variable (env : ReceiveEnv)

/-- `unique_conflict_path`. -/
def uniqueConflictPath (t : Tree) (p : FsPath) (reserved : FsPath → Bool := fun _ => false) :
    Except KikoError FsPath :=
  let stem := if p.stem ≠ "" then p.stem else if p.filename ≠ "" then p.filename else "received"
  let candidate (i : Nat) : FsPath :=
    p.parent.join { parts := [stem ++ " (" ++ toString i ++ ")" ++ p.extension] }
  let free (i : Nat) : Bool :=
    !reserved (candidate i) && !env.pathExistsNoFollow t (candidate i) &&
      !env.pathExistsNoFollow t (partPathFor (candidate i))
  match (List.range' 1 9999).find? free with
  | some i => .ok (candidate i)
  | none => .error ("could not choose a non-conflicting filename for " ++ p.text)

/-- `absolute_normalized`. -/
def absoluteNormalized (p : FsPath) (relative : String) : Except KikoError FsPath :=
  match p.absolute env.cwd with
  | some q => .ok q.normal
  | none => .error ("failed to resolve receive path for " ++ relative)

/-- The walk of `validate_receive_target_parent` from the output directory down to the
    parent: `current` is where it stands. -/
def walkParent (t : Tree) (relative : String) (current : FsPath) : List String → Except KikoError Unit
  | [] => .ok ()
  | part :: rest =>
    if part = "." then walkParent t relative current rest
    else if part = ".." then .error ("refusing receive parent traversal: " ++ relative)
    else
      let next := current.join { parts := [part] }
      match env.symlinkStatus t next with
      | none | some .dir => walkParent t relative next rest
      | some (.symlink _) => .error ("refusing symbolic link in receive parent path: " ++ relative)
      | some (.file _) =>
        .error ("receive parent is not a directory for " ++ relative ++ ": " ++ next.text)

/-- `validate_receive_target_parent`. -/
def validateReceiveTargetParent (t : Tree) (target : FsPath) (relative : String) :
    Except KikoError Unit := do
  let root ← env.absoluteNormalized env.outputDir relative
  let full ← env.absoluteNormalized target relative
  if ¬ root.hasPrefix full then
    .error ("refusing receive target outside output directory: " ++ relative)
  else if ¬ (weaklyCanonical t [] root.parts).isPrefixOf (weaklyCanonical t [] full.parent.parts) then
    .error ("refusing receive path through a symbolic link outside output directory: " ++ relative)
  else env.walkParent t relative root (full.parent.relativeParts root)

/-- `validate_receive_part_path`. -/
def validateReceivePartPath (t : Tree) (part : FsPath) (relative : String) :
    Except KikoError Unit :=
  match env.symlinkStatus t part with
  | none | some (.file _) => .ok ()
  | some _ => .error ("refusing unsafe partial file for " ++ relative ++ ": " ++ part.text)

/-- `resumable_part_size`. -/
def resumablePartSize (t : Tree) (part : FsPath) (declaredSize : Nat) : Except KikoError Nat :=
  match env.symlinkStatus t part with
  | none => .ok 0
  | some (.file content) => .ok (if declaredSize < content.length then 0 else content.length)
  | some _ => .error ("refusing unsafe partial file: " ++ part.text)

/-- `hash_existing_part_prefix`: the bytes it has hashed. -/
def hashExistingPartPrefix (t : Tree) (part : FsPath) (length : Nat) : Option Bytes :=
  match env.symlinkStatus t part with
  | some (.file content) => if length ≤ content.length then some (content.take length) else none
  | _ => none

/-! ## What changes the tree

Each under the path it is given, resolved then and there: the check may have been made of
another tree, if something else has been received in between. -/

/-- `create_directories`. -/
def createDirectories (p : FsPath) : ReceiveM Unit := do
  let t ← tree
  match if p.isEmpty then none else mkdirs t [] (origin env.cwd p) p.parts with
  | some made => change made.made made.tree
  | none => throw "cannot create directories"

/-- The directories above a target are made. -/
def createParent (current : FsPath) : ReceiveM Unit :=
  if current.parent.isEmpty then pure () else env.createDirectories current.parent

/-- `apply_file_metadata`: the permissions first, then the time. -/
def applyFileMetadata (current : FsPath) (header : Message) : ReceiveM Unit := do
  let t ← tree
  let places := ((locate t env.cwd current).bind (real t maxLinks)).toList
  let mode ← check (header.getU64 "mode" 0)
  touch (if mode % 2 ^ 32 &&& 0o111 ≠ 0 then places else [])
  let mtimeMs ← check (header.getU64 "mtime_ms" 0)
  touch (if mtimeMs ≠ 0 then places else [])

/-- `file_size`. -/
def fileSize (t : Tree) (p : FsPath) : Option Nat := (readFile t env.cwd p).map List.length

/-- `remove`, of a file. -/
def removeFile (p : FsPath) : ReceiveM Unit := do
  match locate (← tree) env.cwd p with
  | some place =>
    if isDir (← tree) place then pure () else change [place] ((← tree).remove place)
  | none => pure ()

/-- The checks of `verify_received_digest`. -/
def receivedError (t : Tree) (part : FsPath) (relative : String) (receivedSize declaredSize : Nat)
    (expectedSha256 actualSha256 : String) : Option KikoError :=
  if receivedSize ≠ declaredSize then
    some ("received " ++ toString receivedSize ++ " bytes for " ++ relative ++ ", expected " ++
      toString declaredSize)
  else if env.fileSize t part ≠ some declaredSize then
    some ("received file size mismatch for " ++ relative ++ " (stored " ++
      ((env.fileSize t part).map toString).getD "unknown" ++ ", expected " ++
      toString declaredSize ++ ")")
  else if actualSha256 ≠ expectedSha256 then
    some ("integrity check failed for " ++ relative ++ " (expected " ++ expectedSha256 ++
      ", got " ++ actualSha256 ++ ")")
  else none

/-- `verify_received_digest`: what fails here also loses its partial file. -/
def verifyReceivedDigest (part : FsPath) (relative : String) (receivedSize declaredSize : Nat)
    (expectedSha256 actualSha256 : String) : ReceiveM Unit := do
  match env.receivedError (← tree) part relative receivedSize declaredSize expectedSha256
      actualSha256 with
  | none => pure ()
  | some error =>
    env.removeFile part
    throw error

/-- `verify_part_file_digest`. -/
def verifyPartFileDigest (part : FsPath) (relative : String) (declaredSize : Nat)
    (expectedSha256 : String) : ReceiveM Unit := do
  match readFile (← tree) env.cwd part with
  | some content =>
    env.verifyReceivedDigest part relative content.length declaredSize expectedSha256
      (env.prims.sha256Hex content)
  | none =>
    env.removeFile part
    throw ("received 0 bytes for " ++ relative ++ ", expected " ++ toString declaredSize)

/-- What stands at a place, a file or a link, is moved to `current` in one step
    (`atomic_replace_file`): whatever stands there is replaced, a directory is not. -/
def atomicReplaceFile (source : Place) (node : Node Bytes) (current : FsPath) (context : String) :
    ReceiveM Unit := do
  let failure := context ++ current.text ++ ": failed to replace " ++ current.text ++ ": "
  let t ← tree
  match locate t env.cwd current with
  | none => throw (failure ++ "No such file or directory")
  | some target =>
    if isDir t target then throw (failure ++ "Is a directory")
    else change [source, target] ((t.remove source).set target node)

/-- `finalize_part_file`, for a partial file that is a file. -/
def finalizePartFile (part current : FsPath) : ReceiveM Unit := do
  let context := "failed to finalize file "
  let t ← tree
  match (locate t env.cwd part).bind fun source => (t source).map (source, ·) with
  | some (source, .file content) => env.atomicReplaceFile source (.file content) current context
  | _ => throw (context ++ current.text ++ ": failed to replace " ++ current.text ++
      ": No such file or directory")

/-- `create_safe_symlink`; the link is made under a fresh name and moved into place. -/
def createSafeSymlink (current : FsPath) (relative target : String) : ReceiveM Unit := do
  check (validateSafeSymlinkTarget relative target)
  env.createParent current
  let t ← tree
  match locate t env.cwd (current.concat (".linktmp-" ++ env.linkCode)) with
  | none =>
    throw ("failed to create temporary symlink for " ++ current.text ++
      ": No such file or directory")
  | some temporary =>
    if (t temporary).isSome then
      throw ("failed to create temporary symlink for " ++ current.text ++ ": File exists")
    else
      touch [temporary]
      env.atomicReplaceFile temporary (.symlink target) current "failed to finalize symlink "

end ReceiveEnv
end Kiko.Transfer
