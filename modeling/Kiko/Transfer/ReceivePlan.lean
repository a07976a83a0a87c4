import Kiko.Transfer.Manifest

/-!
# The receive plan (`transfer/receive_plan`)

From the manifest the receiver plans every entry before it takes a single file: where the
entry goes, whether it is written, skipped or renamed, that no two entries get in each
other's way, and that the space suffices. `preflightTransferManifest` is the source's loop,
one entry a round; its sets are lists, since only membership is asked of them.

A plan is made once and consulted for each header. That it is consulted rightly is a matter
of three functions at the end of the module: one finds the entry of a header and counts it,
one compares the header with what was planned, one asks at the end whether all have been
counted.

Free space is a number the environment gives, as the system gives it to the source. What is
compared with it is the most that is needed at one time: what has to be written up to an
entry, less what the targets that were replaced before it have given back.
-/

set_option autoImplicit false

namespace Kiko.Transfer

open Lexical FileTree

inductive ReceivePlanAction
  | write
  | skip
  | rename
deriving DecidableEq, Repr

structure ReceivePlanEntry where
  manifest : TransferManifestEntry
  targetPath : FsPath
  action : ReceivePlanAction := .write
deriving DecidableEq, Repr

/-- `ReceivePlan`; the entries, by path, in manifest order. -/
structure ReceivePlan where
  entries : List (String × ReceivePlanEntry) := []
  receivedPaths : List String := []
deriving DecidableEq, Repr

/-! ## Collisions

Targets are compared by a key, the normal form without a slash at its end. The keys of
files are kept on their own as well, since a file on the way to a target is an obstacle and
a directory is none. Whether letters are told apart by case is asked of the system only
when two keys differ in nothing else. -/

/-- `kReceiveFreeSpaceReserveBytes`. -/
def kReceiveFreeSpaceReserveBytes : Nat := 64 * 1024 * 1024

def foldCase (p : FsPath) : FsPath := { p with parts := p.parts.map fun part => part.map Char.toLower }

/-- `target_key`. -/
def targetKey (p : FsPath) (foldAsciiCase : Bool := false) : FsPath :=
  if foldAsciiCase then foldCase p.normal.stripped else p.normal.stripped

/-- `key_is_parent_of`. -/
def keyIsParentOf (parent child : FsPath) : Bool := parent ≠ child && parent.hasPrefix child

/-- `plan_collision_error`. -/
def planCollisionError (target : FsPath) (directory : Bool)
    (reservedTargets reservedFiles : List FsPath) (foldAsciiCase : Bool) : Option String :=
  let key := targetKey target foldAsciiCase
  if key ∈ reservedTargets then some "target collision"
  else if target.properPrefixes.any fun parent =>
      !parent.isEmpty && reservedFiles.contains (targetKey parent foldAsciiCase) then
    some "parent is already a file"
  else if !directory && reservedTargets.any (keyIsParentOf key) then
    some "target would replace a planned directory"
  else none

/-- `add_saturating`. -/
def addSaturating (total value : Nat) : Nat := if u64Max - total ≤ value then u64Max else total + value

/-- The loop variables of `preflight_transfer_manifest`. -/
structure Preflight where
  seenPaths : List String := []
  reservedTargets : List FsPath := []
  reservedFiles : List FsPath := []
  foldedTargets : List FsPath := []
  foldedFiles : List FsPath := []
  caseInsensitive : Option Bool := none
  computedTotal : Nat := 0
  cumulativeWriteBytes : Nat := 0
  cumulativeReclaimedBytes : Nat := 0
  peakRequiredBytes : Nat := 0
  plan : ReceivePlan := {}
  summary : ReceivePlanSummary := {}

namespace ReceiveEnv

variable (env : ReceiveEnv)

/-- `reclaimable_target_size`. -/
def reclaimableTargetSize (t : Tree) (target : FsPath) : Nat :=
  match env.symlinkStatus t target with
  | some (.file content) => content.length
  | _ => 0

/-- The checks of a manifest entry by its kind, with the total they add to. -/
def checkPlanKind (total : Nat) (entry : TransferManifestEntry) : Except KikoError Nat := do
  if entry.kind = "symlink" then
    if entry.size ≠ 0 then .error ("transfer manifest symlink must have size 0: " ++ entry.path)
    else
      validateSafeSymlinkTarget entry.path entry.target
      .ok total
  else if entry.kind = "dir" then
    if ¬ endsInSlash entry.path then
      .error ("transfer manifest directory path must end with /: " ++ entry.path)
    else if entry.size ≠ 0 then
      .error ("transfer manifest directory must have size 0: " ++ entry.path)
    else .ok total
  else if entry.kind = "file" then
    if endsInSlash entry.path then
      .error ("transfer manifest file path must not end with /: " ++ entry.path)
    else addManifestSize total entry.size entry.path
  else .error ("transfer manifest contains unknown entry kind: " ++ entry.kind)

/-- What is planned for an entry whose path joins to `current`: the action and the target. -/
def planAction (t : Tree) (reservedTargets : List FsPath) (entry : TransferManifestEntry)
    (current : FsPath) : Except KikoError (ReceivePlanAction × FsPath) :=
  if entry.kind = "dir" then
    match env.symlinkStatus t current with
    | none | some .dir => .ok (.write, current)
    | some _ => .error ("receive plan directory target is not a directory: " ++ entry.path)
  else if env.pathExistsNoFollow t current then
    match env.policy with
    | .skip => .ok (.skip, current)
    | .rename => do
      let target ← env.uniqueConflictPath t current fun candidate =>
        reservedTargets.contains (targetKey candidate)
      .ok (.rename, target)
    | .overwrite =>
      if env.symlinkStatus t current = some .dir then
        .error ("receive plan file target is a directory: " ++ entry.path)
      else .ok (.write, current)
  else .ok (.write, current)

/-- The target of a planned entry is reserved, when nothing stands in its way. -/
def reserveTarget (st : Preflight) (entry : TransferManifestEntry) (target : FsPath) :
    Except KikoError Preflight := do
  let directory : Bool := entry.kind = "dir"
  if let some collision :=
      planCollisionError target directory st.reservedTargets st.reservedFiles false then
    .error ("receive plan " ++ collision ++ " for " ++ entry.path)
  let mut insensitive := st.caseInsensitive
  if insensitive.getD true then
    if let some collision :=
        planCollisionError target directory st.foldedTargets st.foldedFiles true then
      let found ← match insensitive with
        | some b => .ok b
        | none => env.caseInsensitive
      insensitive := some found
      if found then
        .error ("receive plan case-insensitive " ++ collision ++ " for " ++ entry.path)
  let key := targetKey target
  let folded := targetKey target true
  return { st with
    caseInsensitive := insensitive
    reservedTargets := key :: st.reservedTargets
    foldedTargets := folded :: st.foldedTargets
    reservedFiles := if directory then st.reservedFiles else key :: st.reservedFiles
    foldedFiles := if directory then st.foldedFiles else folded :: st.foldedFiles }

/-- One round of `preflight_transfer_manifest`. -/
def planEntry (t : Tree) (st : Preflight) (entry : TransferManifestEntry) :
    Except KikoError Preflight := do
  if entry.path = "" then .error "transfer manifest entry missing path"
  if entry.path ∈ st.seenPaths then
    .error ("transfer manifest contains duplicate path: " ++ entry.path)
  let current ← safeJoin env.outputDir entry.path
  let existing := env.pathExistsNoFollow t current
  let total ← checkPlanKind st.computedTotal entry
  let (action, target) ← env.planAction t st.reservedTargets entry current
  env.validateReceiveTargetParent t target entry.path
  let isFile : Bool := entry.kind = "file"
  let mut resume := 0
  if action = .write ∧ isFile then
    env.validateReceivePartPath t (partPathFor target) entry.path
    resume ← env.resumablePartSize t (partPathFor target) entry.size
  let mut st := { st with seenPaths := entry.path :: st.seenPaths, computedTotal := total }
  let mut summary := st.summary
  if action = .write ∧ ¬ entry.kind = "dir" ∧ existing then
    summary := { summary with overwriteCount := summary.overwriteCount + 1 }
  if 0 < resume then
    summary := { summary with
      resumeCount := summary.resumeCount + 1
      resumeBytes := summary.resumeBytes + resume }
  if action = .skip then
    summary := { summary with
      skipCount := summary.skipCount + 1
      skipBytes := summary.skipBytes + if isFile then entry.size else 0 }
  else
    st ← env.reserveTarget st entry target
    if action = .rename then summary := { summary with renameCount := summary.renameCount + 1 }
  if isFile ∧ action ≠ .skip then
    let written ← addManifestSize st.cumulativeWriteBytes (entry.size - resume) entry.path
    let live := written - st.cumulativeReclaimedBytes
    let reclaimed := if existing ∧ action = .write then
      addSaturating st.cumulativeReclaimedBytes (env.reclaimableTargetSize t target)
      else st.cumulativeReclaimedBytes
    st := { st with
      cumulativeWriteBytes := written
      peakRequiredBytes := max st.peakRequiredBytes live
      cumulativeReclaimedBytes := reclaimed }
  let planned : ReceivePlanEntry := { manifest := entry, targetPath := target, action := action }
  return { st with
    summary := summary
    plan := { st.plan with entries := st.plan.entries ++ [(entry.path, planned)] } }

/-- `ensure_receive_space`. -/
def ensureReceiveSpace (peakRequiredBytes : Nat) : Except KikoError Unit := do
  if peakRequiredBytes = 0 then .ok ()
  else
    let available ← env.available
    if available - kReceiveFreeSpaceReserveBytes < peakRequiredBytes then
      .error ("not enough free space to receive files (need " ++ toString peakRequiredBytes ++
        " bytes plus reserve, available " ++ toString available ++ ")")
    else .ok ()

/-- `preflight_transfer_manifest`, on the tree as it stands. -/
def preflight (t : Tree) (manifest : TransferManifest) :
    Except KikoError (ReceivePlan × ReceivePlanSummary) := do
  let start : Preflight :=
    { summary := { itemCount := manifest.entries.length, totalBytes := manifest.totalSize } }
  let st ← manifest.entries.foldlM (env.planEntry t) start
  if st.computedTotal ≠ manifest.totalSize then
    .error "transfer manifest total size changed during preflight"
  else
    env.ensureReceiveSpace st.peakRequiredBytes
    .ok (st.plan, st.summary)

/-- `preflight_transfer_manifest`, with what it reports. -/
def preflightTransferManifest (manifest : TransferManifest) : ReceiveM ReceivePlan := do
  let (plan, summary) ← ReceiveM.check (env.preflight (← ReceiveM.tree) manifest)
  ReceiveM.status ("manifest: " ++ toString manifest.entries.length ++ " item(s), " ++
    toString manifest.totalSize ++ " bytes")
  modify fun d => { d with log := d.log ++ [.receivePlan summary] }
  return plan

end ReceiveEnv

/-! ## The plan in use

A header that is not in the manifest, or is there with another kind or size, is refused
before anything is asked about it. -/

/-- `find_receive_plan_entry`. -/
def findReceivePlanEntry (plan : Option ReceivePlan) (relative : String) :
    Option ReceivePlanEntry :=
  plan.bind fun p => p.entries.lookup relative

/-- `record_receive_plan_header`. -/
def recordReceivePlanHeader (plan : Option ReceivePlan) (relative : String) :
    Except KikoError (Option ReceivePlan) :=
  match plan with
  | none => .ok none
  | some p =>
    if (p.entries.lookup relative).isNone then
      .error ("file header was not listed in manifest: " ++ relative)
    else if relative ∈ p.receivedPaths then
      .error ("duplicate file header for manifest entry: " ++ relative)
    else .ok (some { p with receivedPaths := p.receivedPaths ++ [relative] })

/-- `validate_receive_plan_complete`. -/
def validateReceivePlanComplete (plan : Option ReceivePlan) : Except KikoError Unit :=
  match plan with
  | none => .ok ()
  | some p =>
    if p.receivedPaths.length = p.entries.length then .ok ()
    else
      let sorted := p.entries.mergeSort fun a b => a.1 ≤ b.1
      match sorted.find? fun entry => !p.receivedPaths.contains entry.1 with
      | some entry => .error ("transfer ended before manifest entry: " ++ entry.1)
      | none => .error "transfer manifest completion mismatch"

/-- The kind a header announces. -/
def headerKind (header : Message) (relative : String) (declaredSize : Nat) : String :=
  if isSymlinkHeader header then "symlink"
  else if isDirHeader relative declaredSize then "dir"
  else "file"

/-- `validate_receive_plan_header`. -/
def validateReceivePlanHeader (planned : ReceivePlanEntry) (header : Message) (relative : String)
    (declaredSize : Nat) : Except KikoError Unit :=
  let kind := headerKind header relative declaredSize
  if planned.manifest.kind ≠ kind then
    .error ("file header kind does not match manifest for " ++ relative)
  else if planned.manifest.size ≠ declaredSize then
    .error ("file header size does not match manifest for " ++ relative)
  else if kind = "symlink" ∧ planned.manifest.target ≠ header.get "target" then
    .error ("file header symlink target does not match manifest for " ++ relative)
  else .ok ()

end Kiko.Transfer
