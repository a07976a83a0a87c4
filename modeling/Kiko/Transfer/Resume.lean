import Kiko.Transfer.Agreement
import Kiko.Transfer.Footprint

/-!
# A transfer that finds a partial file

Where a receiver finds something at the partial file of a target, it offers it: length and digest go
out with the question where to resume, and the sender compares them with the beginning of its file. The
whole module follows one file through that. What is found may be anything; what counts of it
(`validOffset`) is all of it or nothing, and from there on both sides do what they do without a
partial file.

One thing goes before all that. The plan asks for as much free space as is still to come behind what
can be offered, and of a partial file longer than its source nothing can be offered: its bytes are
taken for lost, although the file is written over them. So what can be said of a partial file that is
there (`Abandoned`) is kept apart from the check of the space (`Leftover`), and the transfer goes right
exactly when the check passes (`resume_correct_iff`).
-/

set_option autoImplicit false

namespace Kiko.Transfer

open Lexical FileTree

/-- A check that passes. -/
theorem bind_check {α β : Type} {result : Except KikoError α} {a : α} {f : α → ReceiveM β} {d : Disk}
    (h : result = .ok a) : (ReceiveM.check result >>= f) d = f a d := by
  subst h
  rfl

/-! ## The manifest of one file

One file is enough for what is to be said, since a partial file belongs to one target. Its manifest
goes through the codec and the plan as any other. -/

section Space

variable {env : ReceiveEnv}

/-- Beside the reserve there is space for as much. -/
def ReceiveEnv.HasSpace (env : ReceiveEnv) (need : Nat) : Prop :=
  need = 0 ∨ ∃ available, env.available = .ok available ∧ kReceiveFreeSpaceReserveBytes + need ≤ available

theorem ensureReceiveSpace_ok {need : Nat} : env.ensureReceiveSpace need = .ok () ↔ env.HasSpace need := by
  unfold ReceiveEnv.ensureReceiveSpace ReceiveEnv.HasSpace
  by_cases hneed : need = 0
  · exact iff_of_true (if_pos hneed) (.inl hneed)
  · rw [if_neg hneed]
    cases env.available with
    | error e =>
      refine iff_of_false nofun ?_
      rintro (hnone | ⟨available, havailable, -⟩)
      · exact hneed hnone
      · cases havailable
    | ok available =>
      rw [show (Except.ok available : Except KikoError Nat) = pure available from rfl, pure_bind]
      generalize kReceiveFreeSpaceReserveBytes = reserve
      by_cases hshort : available - reserve < need
      · rw [if_pos hshort]
        refine iff_of_false nofun ?_
        rintro (hnone | ⟨_, havailable, hspace⟩)
        · exact hneed hnone
        · obtain rfl := Except.ok.inj havailable
          omega
      · rw [if_neg hshort]
        exact iff_of_true rfl (.inr ⟨available, rfl, by omega⟩)

/-- Where there is space for more there is space for less. -/
theorem ReceiveEnv.HasSpace.mono {need more : Nat} (h : env.HasSpace more) (hle : need ≤ more) : env.HasSpace need := by
  rcases h with hnone | ⟨available, havailable, hmore⟩
  · exact .inl (by omega)
  · exact .inr ⟨available, havailable, by omega⟩

end Space

section Plan

variable {env : ReceiveEnv} {t : Tree} {entry : TransferManifestEntry} {target : FsPath} {resume : Nat}

theorem planCollisionError_first (directory fold : Bool) :
    planCollisionError target directory [] [] fold = none := by
  simp [planCollisionError]

/-- A file whose target is not there is planned to be written, where there is space for what is to come. -/
theorem preflight_absent (hpath : entry.path ≠ "") (hkind : entry.kind = "file")
    (hslash : endsInSlash entry.path = false) (hsize : entry.size ≤ u64Max)
    (hjoin : safeJoin env.outputDir entry.path = .ok target)
    (hparent : env.validateReceiveTargetParent t target entry.path = .ok ())
    (habsent : env.symlinkStatus t target = none)
    (hpart : env.validateReceivePartPath t (partPathFor target) entry.path = .ok ())
    (hresume : env.resumablePartSize t (partPathFor target) entry.size = .ok resume) :
    ∃ summary, env.preflight t { entries := [entry], totalSize := entry.size } =
      (env.ensureReceiveSpace (entry.size - resume)).map fun _ =>
        ({ entries := [(entry.path, { manifest := entry, targetPath := target })] }, summary) := by
  have hfit : addManifestSize 0 entry.size entry.path = .ok entry.size := by
    simp [addManifestSize, Nat.not_lt.mpr hsize]
  have hwritten : addManifestSize 0 (entry.size - resume) entry.path = .ok (entry.size - resume) := by
    have : ¬ u64Max < entry.size - resume := by omega
    simp [addManifestSize, this]
  have hcheck : ReceiveEnv.checkPlanKind 0 entry = .ok entry.size := by
    simp [ReceiveEnv.checkPlanKind, hkind, hslash, hfit]
  have haction : env.planAction t [] entry target = .ok (.write, target) := by
    simp [ReceiveEnv.planAction, hkind, ReceiveEnv.pathExistsNoFollow, habsent]
  refine ⟨if 0 < resume then { itemCount := 1, totalBytes := entry.size, resumeCount := 1, resumeBytes := resume }
    else { itemCount := 1, totalBytes := entry.size }, ?_⟩
  simp only [ReceiveEnv.preflight, List.foldlM_cons, List.foldlM_nil]
  by_cases hpos : 0 < resume <;> cases hspace : env.ensureReceiveSpace (entry.size - resume) <;>
    simp [ReceiveEnv.planEntry, ReceiveEnv.reserveTarget, hpath, hjoin, hcheck, haction, hparent, hkind, hpart, hresume,
      planCollisionError_first, hwritten, ReceiveEnv.pathExistsNoFollow, habsent, bind, Except.bind, pure, Except.pure,
      Except.map, hspace, hpos]

end Plan

section Decode

variable {prims : Primitives} {entry : FileEntry} {text : ManifestText}

/-- The manifest of one file, as it is sent and as it is read. -/
theorem decode_single (hkind : transferEntryKind entry = .file) (hmode : entry.mode < 2 ^ 32)
    (h : encodeTransferManifest prims [entry] = .ok text) :
    entry.relative ≠ "" ∧
      decodeTransferManifest prims text = .ok { entries := [manifestEntry entry], totalSize := entry.size } := by
  unfold encodeTransferManifest at h
  rw [if_neg (by simp [kMaxTransferManifestEntries])] at h
  obtain ⟨⟨total, estimate⟩, hround, h⟩ := exists_of_bind_ok h
  dsimp only at h
  split_ifs at h with hlarge
  obtain rfl := Except.ok.inj h
  rw [List.foldlM_cons] at hround
  obtain ⟨acc, hentry, hround⟩ := exists_of_bind_ok hround
  obtain rfl : acc = (total, estimate) := Except.ok.inj hround
  unfold encodeManifestEntry at hentry
  obtain ⟨_, hfields, hentry⟩ := exists_of_bind_ok hentry
  dsimp only at hentry
  split_ifs at hentry
  obtain ⟨total', htotal, hentry⟩ := exists_of_bind_ok hentry
  obtain ⟨rfl, -⟩ := Prod.mk.inj (Except.ok.inj hentry)
  have hsize : total' = entry.size := by
    unfold addManifestSize at htotal
    split_ifs at htotal
    rw [← Except.ok.inj htotal, Nat.zero_add]
  subst hsize
  have hpath : entry.relative ≠ "" := by
    intro hnil
    rw [validateManifestEntryFields, if_pos hnil] at hfields
    cases hfields
  refine ⟨hpath, ?_⟩
  rw [hkind] at hfields
  have hname : (manifestEntry entry).kind = "file" := by simp [manifestEntry, hkind, transferEntryKindName]
  have hround : decodeManifestEntry 0 (manifestEntry entry) = .ok entry.size := by
    have hsmall : ¬ 2 ^ 32 ≤ (manifestEntry entry).mode := Nat.not_le.mpr hmode
    simp only [decodeManifestEntry, if_neg hsmall, hname, if_true]
    have hfields' : validateManifestEntryFields (manifestEntry entry).path "file" (manifestEntry entry).target
        (manifestEntry entry).imohash = .ok () := hfields
    rw [hfields']
    exact htotal
  unfold decodeTransferManifest
  rw [if_neg hlarge]
  simp [hround, bind, Except.bind, pure, Except.pure, kMaxTransferManifestEntries]

end Decode

/-! ## A file that was left half done

Nothing is asked of the content that was found. What is asked is that the sender can announce its file,
that the target is not there yet, and that what stands at the partial path is a file. -/

/-- What of a partial file is offered: all of it, unless it is longer than the file will be. -/
def offeredOf (declaredSize : Nat) (found : Bytes) : Bytes := if declaredSize < found.length then [] else found

/-- The sender has this one file; where the receiver would put it there is nothing yet, but something
    stands at its partial file. -/
structure Abandoned (env : ReceiveEnv) (source : Source env.prims) (d : Disk) (target : FsPath) (found : Bytes) :
    Prop where
  file : transferEntryKind source.entry = .file
  slash : endsInSlash source.entry.relative = false
  mode : source.entry.mode < 2 ^ 32
  mtime : source.entry.mtimeMs ≤ u64Max
  /-- the sender can announce it -/
  told : ∃ text, encodeTransferManifest env.prims [source.entry] = .ok text
  sane : Sane d.tree
  here : look d.tree env.cwd = some .dir
  joined : safeJoin env.outputDir source.entry.relative = .ok target
  parent : env.validateReceiveTargetParent d.tree target source.entry.relative = .ok ()
  absent : env.symlinkStatus d.tree target = none
  part : env.symlinkStatus d.tree (partPathFor target) = some (.file found)

/-- What is left, and space for what is to come behind what is offered of it. -/
structure Leftover (env : ReceiveEnv) (source : Source env.prims) (d : Disk) (target : FsPath) (found : Bytes) : Prop
    extends Abandoned env source d target found where
  space : env.HasSpace (source.entry.size - (offeredOf source.entry.size found).length)

section Beside

variable {env : ReceiveEnv} {t : Tree} {target : FsPath} {found : Bytes}

/-- A target and its partial file, in one directory. -/
structure Beside (env : ReceiveEnv) (t : Tree) (target : FsPath) (dir : Place) : Prop where
  named : endsOpen target = false
  above : walk t maxLinks (origin env.cwd target) target.parts.dropLast = some dir
  isDir : look t dir = some .dir
  located : locate t env.cwd target = some (dir ++ [target.filename])
  partLocated : locate t env.cwd (partPathFor target) = some (dir ++ [target.filename ++ ".kikopart"])

theorem endsOpen_partPathFor (target : FsPath) : endsOpen (partPathFor target) = false := by
  have hne (name other : String) (h : other.length < 9) : name ++ ".kikopart" ≠ other :=
    partName_ne name (by omega)
  simp only [endsOpen, partPathFor, FsPath.concat, List.getLast?_concat, isSkip]
  simp [hne _ "" (by decide), hne _ "." (by decide), hne _ ".." (by decide)]

/-- Where a partial file stands and its target does not, the way to both is there. -/
theorem exists_beside (hsane : Sane t) (hhere : look t env.cwd = some .dir) (hne : target.parts ≠ [])
    (hup : target.parts.getLast? ≠ some "..") (habsent : env.symlinkStatus t target = none)
    (hpart : env.symlinkStatus t (partPathFor target) = some (.file found)) :
    ∃ dir, Beside env t target dir ∧ t (dir ++ [target.filename]) = none ∧
      t (dir ++ [target.filename ++ ".kikopart"]) = some (.file found) := by
  obtain ⟨place, hplace, hlook⟩ := Option.bind_eq_some_iff.mp hpart
  have hloc := hplace
  rw [locate_of_named (endsOpen_partPathFor target)] at hplace
  obtain ⟨dir, hwalk, rfl⟩ := Option.map_eq_some_iff.mp hplace
  have hwalk' : walk t maxLinks (origin env.cwd target) target.parts.dropLast = some dir := by
    have hparts : (partPathFor target).parts.dropLast = target.parts.dropLast := List.dropLast_concat ..
    rw [hparts] at hwalk
    exact hwalk
  have hdir : look t dir = some .dir := hsane.dir_of_walk (look_origin hhere) hwalk'
  have hname : (partPathFor target).filename = target.filename ++ ".kikopart" := by
    simp [partPathFor, FsPath.concat, FsPath.filename]
  rw [hname] at hloc hlook
  have hnamed : endsOpen target = false := by
    by_contra hopen
    rw [Bool.not_eq_false] at hopen
    -- then the target would be the directory itself
    obtain ⟨init, last, hparts⟩ : ∃ init last, target.parts = init ++ [last] :=
      ⟨_, _, (List.dropLast_append_getLast hne).symm⟩
    have hskip : isSkip last = true := by
      rw [endsOpen, hparts, List.getLast?_concat] at hopen
      rw [hparts, List.getLast?_concat] at hup
      have : last ≠ ".." := fun heq => hup (heq ▸ rfl)
      simpa [this] using hopen
    have hempty : ¬ target.isEmpty = true := by simp [FsPath.isEmpty, hne]
    rw [hparts, List.dropLast_concat] at hwalk'
    have hself : locate t env.cwd target = some dir := by
      rw [locate, if_pos hopen, resolve, if_neg hempty, hparts, walk_append, hwalk', Option.bind_some, walk_skip hskip]
      simp [maxLinks, walk, walkWith]
    rw [ReceiveEnv.symlinkStatus, lstat, hself, Option.bind_some, hdir] at habsent
    cases habsent
  have htarget : locate t env.cwd target = some (dir ++ [target.filename]) := by
    rw [locate_of_named hnamed, hwalk', Option.map_some]
  refine ⟨dir, ⟨hnamed, hwalk', hdir, htarget, hloc⟩, ?_, ?_⟩
  · rwa [ReceiveEnv.symlinkStatus, lstat, htarget, Option.bind_some, look, if_neg (by simp)] at habsent
  · rwa [look, if_neg (by simp)] at hlook

end Beside

section Question

variable {env : ReceiveEnv} {source : Source env.prims} {d : Disk} {target : FsPath} {found : Bytes}

theorem Abandoned.parts (h : Abandoned env source d target found) :
    target.parts ≠ [] ∧ target.parts.getLast? ≠ some ".." := by
  have hbelow := below_of_safeJoin h.joined
  obtain ⟨-, hup, -⟩ := safeJoin_ok h.joined
  split_ifs at hbelow with hrel
  · have hlast := hbelow.last
    refine ⟨fun hnil => ?_, ?_⟩
    · simp [hnil] at hlast
    · rw [hlast]
      simp
  · have hlast := hbelow.last
    refine ⟨fun hnil => ?_, fun heq => ?_⟩
    · rw [hnil, List.getLast?_nil, eq_comm, List.getLast?_eq_none_iff] at hlast
      exact hrel hlast
    · rw [heq] at hlast
      exact hup (List.mem_of_getLast? hlast.symm)

theorem Abandoned.beside (h : Abandoned env source d target found) :
    ∃ dir, Beside env d.tree target dir ∧ d.tree (dir ++ [target.filename]) = none ∧
      d.tree (dir ++ [target.filename ++ ".kikopart"]) = some (.file found) :=
  exists_beside h.sane h.here h.parts.1 h.parts.2 h.absent h.part

/-- The directories above the target are there. -/
theorem Beside.createParent {dir : Place} (hb : Beside env d.tree target dir) (hsane : Sane d.tree)
    (hhere : look d.tree env.cwd = some .dir) : env.createParent target d = .ok () d := by
  unfold ReceiveEnv.createParent
  split_ifs with hempty
  · rfl
  · have hmade := hsane.mkdirs_of_walk (look_origin (p := target) hhere) (Nat.le_refl _) hb.above []
    have horigin : origin env.cwd target.parent = origin env.cwd target := rfl
    have hparts : target.parent.parts = target.parts.dropLast := rfl
    simp only [ReceiveEnv.createDirectories, bind_tree, if_neg hempty, horigin, hparts, hmade]
    rw [change_ok]
    simp

end Question

/-! ## The question

What is offered is either all of what was found or nothing; a partial file that is longer than the
source is known to be no beginning of it. -/

/-- The digest that goes with what is offered. -/
def offeredSha256 (prims : Primitives) (offered : Bytes) : String :=
  if offered = [] then "" else prims.sha256Hex offered

section Asked

variable {env : ReceiveEnv} {source : Source env.prims} {d : Disk} {target : FsPath} {found : Bytes}

/-- The plan for the one file, with its header seen. -/
def plannedFor (entry : FileEntry) (target : FsPath) (received : List String) : ReceivePlan :=
  { entries := [(entry.relative, { manifest := manifestEntry entry, targetPath := target })]
    receivedPaths := received }

/-- What the receiver knows of the file. -/
def setupFor (entry : FileEntry) (target : FsPath) : EntrySetup where
  header := makeFileHeader entry
  relative := entry.relative
  currentPath := target
  declaredSize := entry.size
  useZstd := shouldCompressEntry entry
  planned := some { manifest := manifestEntry entry, targetPath := target }

/-- What it asks. -/
def questionFor (source : Source env.prims) (target : FsPath) (found : Bytes) : Pending :=
  .payload (setupFor source.entry target) (partPathFor target) (offeredOf source.entry.size found)
    (offeredSha256 env.prims (offeredOf source.entry.size found))

theorem Abandoned.resumable (h : Abandoned env source d target found) :
    env.resumablePartSize d.tree (partPathFor target) source.entry.size =
      .ok (offeredOf source.entry.size found).length := by
  rw [ReceiveEnv.resumablePartSize, h.part, offeredOf]
  dsimp only
  split_ifs
  · rfl
  · rfl

theorem Abandoned.partPath (h : Abandoned env source d target found) :
    env.validateReceivePartPath d.tree (partPathFor target) source.entry.relative = .ok () := by
  rw [ReceiveEnv.validateReceivePartPath, h.part]

/-- The plan of the one file is made where there is space for what is to come. -/
theorem Abandoned.preflight (h : Abandoned env source d target found) :
    ∃ text summary, encodeTransferManifest env.prims [source.entry] = .ok text ∧
      decodeTransferManifest env.prims text =
        .ok { entries := [manifestEntry source.entry], totalSize := source.entry.size } ∧
      env.preflight d.tree { entries := [manifestEntry source.entry], totalSize := source.entry.size } =
        (env.ensureReceiveSpace (source.entry.size - (offeredOf source.entry.size found).length)).map fun _ =>
          (plannedFor source.entry target [], summary) := by
  obtain ⟨text, htext⟩ := h.told
  obtain ⟨hpath, hdecode⟩ := decode_single h.file h.mode htext
  have hkind : (manifestEntry source.entry).kind = "file" := by
    simp [manifestEntry, h.file, transferEntryKindName]
  obtain ⟨summary, hplan⟩ := preflight_absent hpath hkind h.slash
    (show (manifestEntry source.entry).size ≤ u64Max from source.size_le) h.joined h.parent h.absent h.partPath h.resumable
  exact ⟨text, summary, htext, hdecode, hplan⟩

/-- The manifest is taken, and the file is planned to be written where it belongs. -/
theorem Leftover.takeManifest (h : Leftover env source d target found) :
    ∃ text log, encodeTransferManifest env.prims [source.entry] = .ok text ∧
      env.takeManifest text { disk := d } =
        .ok () { disk := { d with log := log }, plan := some (plannedFor source.entry target [])
                 sawManifest := true } := by
  obtain ⟨text, summary, htext, hdecode, hplan⟩ := h.preflight
  rw [ensureReceiveSpace_ok.mpr h.space] at hplan
  refine ⟨text, d.log ++ [.status ("manifest: " ++ toString 1 ++ " item(s), " ++ toString source.entry.size ++
    " bytes")] ++ [.receivePlan summary], htext, ?_⟩
  have hpreflight : env.preflightTransferManifest
      { entries := [manifestEntry source.entry], totalSize := source.entry.size } d =
      .ok (plannedFor source.entry target []) { d with log := d.log ++
        [.status ("manifest: " ++ toString 1 ++ " item(s), " ++ toString source.entry.size ++ " bytes")] ++
        [.receivePlan summary] } := by
    simp only [ReceiveEnv.preflightTransferManifest, bind_tree, hplan, Except.map, ReceiveM.check, pure_bind, bind_status,
      bind_modify]
    rfl
  have hcheck : LoopM.onDisk (ReceiveM.check (decodeTransferManifest env.prims text)) { disk := d } =
      .ok { entries := [manifestEntry source.entry], totalSize := source.entry.size } { disk := d } := by
    rw [hdecode]
    rfl
  simp only [ReceiveEnv.takeManifest, bind_get, Bool.false_eq_true, if_false]
  rw [bind_of_ok hcheck, bind_of_ok (onDisk_ok.mpr ⟨_, hpreflight, rfl⟩)]
  rfl

/-- Without the space the manifest is refused, before anything is asked. -/
theorem Abandoned.refused (h : Abandoned env source d target found)
    (hspace : ¬ env.HasSpace (source.entry.size - (offeredOf source.entry.size found).length)) :
    ∃ text e, encodeTransferManifest env.prims [source.entry] = .ok text ∧
      env.ensureReceiveSpace (source.entry.size - (offeredOf source.entry.size found).length) = .error e ∧
      env.takeManifest text { disk := d } = .error e { disk := d } := by
  obtain ⟨text, summary, htext, hdecode, hplan⟩ := h.preflight
  cases hchecked : env.ensureReceiveSpace (source.entry.size - (offeredOf source.entry.size found).length) with
  | ok _ => exact absurd (ensureReceiveSpace_ok.mp hchecked) hspace
  | error e =>
    rw [hchecked] at hplan
    refine ⟨text, e, htext, rfl, ?_⟩
    have hpreflight : env.preflightTransferManifest
        { entries := [manifestEntry source.entry], totalSize := source.entry.size } d = .error e d := by
      simp only [ReceiveEnv.preflightTransferManifest, bind_tree, hplan, Except.map, ReceiveM.check]
      rfl
    have hcheck : LoopM.onDisk (ReceiveM.check (decodeTransferManifest env.prims text)) { disk := d } =
        .ok { entries := [manifestEntry source.entry], totalSize := source.entry.size } { disk := d } := by
      rw [hdecode]
      rfl
    have hstop : LoopM.onDisk (env.preflightTransferManifest
        { entries := [manifestEntry source.entry], totalSize := source.entry.size }) { disk := d } =
          .error e { disk := d } := by
      simp only [LoopM.onDisk, hpreflight]
    simp only [ReceiveEnv.takeManifest, bind_get, Bool.false_eq_true, if_false]
    rw [bind_of_ok hcheck, bind_of_error hstop]

/-- What the header says agrees with the plan. -/
theorem Abandoned.entrySetup (h : Abandoned env source d target found) :
    env.entrySetup d.tree (some (plannedFor source.entry target [source.entry.relative]))
        (makeFileHeader source.entry) = .ok (setupFor source.entry target) := by
  obtain ⟨text, htext⟩ := h.told
  obtain ⟨hpath, -⟩ := decode_single h.file h.mode htext
  have hlink : isSymlinkHeader (makeFileHeader source.entry) = false := by
    rw [Bool.eq_false_iff, ne_eq, isSymlinkHeader_iff, h.file]
    exact TransferEntryKind.noConfusion
  have hfind : findReceivePlanEntry (some (plannedFor source.entry target [source.entry.relative]))
      source.entry.relative = some { manifest := manifestEntry source.entry, targetPath := target } := by
    simp [findReceivePlanEntry, plannedFor]
  have hvalid : validateReceivePlanHeader { manifest := manifestEntry source.entry, targetPath := target }
      (makeFileHeader source.entry) source.entry.relative source.entry.size = .ok () := by
    have hheader : headerKind (makeFileHeader source.entry) source.entry.relative source.entry.size = "file" := by
      simp [headerKind, hlink, isDirHeader, h.slash]
    simp [validateReceivePlanHeader, hheader, manifestEntry, h.file, transferEntryKindName]
  have htarget : env.headerTarget (some (plannedFor source.entry target [source.entry.relative]))
      (makeFileHeader source.entry) source.entry.relative source.entry.size = .ok target := by
    simp only [ReceiveEnv.headerTarget, hfind, hvalid, bind, Except.bind]
  simp only [ReceiveEnv.entrySetup, header_path, if_neg hpath, header_size h.file, htarget, h.parent, hfind, bind,
    Except.bind]
  rw [header_compress h.file]
  rfl

theorem Abandoned.prepare (h : Abandoned env source d target found) (log : List Report) :
    env.prepare (some (plannedFor source.entry target [source.entry.relative])) (makeFileHeader source.entry)
        { d with log := log } = .ok (questionFor source target found) { d with log := log } := by
  obtain ⟨dir, hbeside, -, -⟩ := h.beside
  have hlink : ¬ isSymlinkHeader (makeFileHeader source.entry) = true := by
    rw [isSymlinkHeader_iff, h.file]
    exact TransferEntryKind.noConfusion
  have hdir : ¬ isDirHeader (setupFor source.entry target).relative
      (setupFor source.entry target).declaredSize = true := by
    simp [isDirHeader, setupFor, h.slash]
  have hskip : ¬ env.skipsExisting d.tree (setupFor source.entry target) = true := by
    simp [ReceiveEnv.skipsExisting, setupFor]
  have hduplicate : ¬ env.isDuplicate d.tree (setupFor source.entry target) = true := by
    simp [ReceiveEnv.isDuplicate, setupFor, h.absent]
  -- nothing stands at the target, so no conflict is resolved
  have hresolve : env.resolveConflictPath (setupFor source.entry target) { d with log := log } =
      .ok target { d with log := log } := by
    simp [ReceiveEnv.resolveConflictPath, setupFor]
    rfl
  have hcreate : env.createParent target { d with log := log } = .ok () { d with log := log } :=
    hbeside.createParent (d := { d with log := log }) h.sane h.here
  -- what is offered is read from the partial file
  have hoffer : env.offerPartial (setupFor source.entry target) target { d with log := log } =
      .ok (questionFor source target found) { d with log := log } := by
    have hread {length : Nat} (hle : length ≤ found.length) :
        env.hashExistingPartPrefix d.tree (partPathFor target) length = some (found.take length) := by
      rw [ReceiveEnv.hashExistingPartPrefix, h.part]
      exact if_pos hle
    have hlong : (offeredOf source.entry.size found).length ≤ found.length := by
      unfold offeredOf
      split_ifs <;> simp
    have htake : found.take (offeredOf source.entry.size found).length = offeredOf source.entry.size found := by
      unfold offeredOf
      split_ifs <;> simp
    have hpartPath : env.validateReceivePartPath d.tree (partPathFor target) (setupFor source.entry target).relative =
        .ok () := h.partPath
    have hresumable : env.resumablePartSize d.tree (partPathFor target) (setupFor source.entry target).declaredSize =
        .ok (offeredOf source.entry.size found).length := h.resumable
    rw [ReceiveEnv.offerPartial, bind_tree, bind_check hpartPath, bind_tree, bind_check hresumable, bind_tree]
    dsimp only
    rw [hread hlong, htake]
    by_cases hnil : offeredOf source.entry.size found = []
    · simp [hnil, questionFor, offeredSha256, setupFor]
      rfl
    · have hpos : 0 < (offeredOf source.entry.size found).length := List.length_pos_of_ne_nil hnil
      rw [if_pos hpos]
      simp [hnil, questionFor, offeredSha256, setupFor]
      rfl
  rw [ReceiveEnv.prepare, bind_tree, bind_check h.entrySetup, if_neg hlink, if_neg hdir, ReceiveEnv.prepareFile, bind_tree,
    if_neg hskip, bind_tree, if_neg hduplicate, ReceiveEnv.preparePayload, bind_of_ok hresolve, bind_tree,
    bind_check (show env.validateReceiveTargetParent d.tree target (setupFor source.entry target).relative = .ok () from
      h.parent), bind_of_ok hcreate]
  exact hoffer

/-- The header is taken, and what stands at the partial file is offered. -/
theorem Abandoned.takeFileHeader (h : Abandoned env source d target found) (log : List Report) :
    env.takeFileHeader (makeFileHeader source.entry)
        { disk := { d with log := log }, plan := some (plannedFor source.entry target []), sawManifest := true } =
      .ok (questionFor source target found)
        { disk := { d with log := log }, plan := some (plannedFor source.entry target [source.entry.relative])
          sawManifest := true, sawFileHeader := true } := by
  obtain ⟨text, htext⟩ := h.told
  obtain ⟨hpath, -⟩ := decode_single h.file h.mode htext
  have hrecord : recordReceivePlanHeader (some (plannedFor source.entry target [])) source.entry.relative =
      .ok (some (plannedFor source.entry target [source.entry.relative])) := by
    simp [recordReceivePlanHeader, plannedFor]
  have hcheck (l : Loop) : LoopM.onDisk (ReceiveM.check
      (recordReceivePlanHeader (some (plannedFor source.entry target [])) source.entry.relative)) l =
        .ok (some (plannedFor source.entry target [source.entry.relative])) l := by
    rw [hrecord]
    rfl
  simp only [ReceiveEnv.takeFileHeader, bind_modify, header_path, if_neg hpath, bind_get]
  rw [bind_of_ok (hcheck _), bind_modify]
  exact onDisk_ok.mpr ⟨_, h.prepare log, rfl⟩

end Asked

/-! ## The answer

The sender compares a digest of its own first bytes. `Distinct` is what the digest has to be good for
here, on two given contents, and not for all. -/

/-- How much of a partial file counts: all of it where the file begins so, and else nothing. -/
def validOffset (content found : Bytes) : Nat := if found <+: content then found.length else 0

/-- The digests tell what was found from as much of the file's beginning. -/
def Distinct (prims : Primitives) (content found : Bytes) : Prop :=
  found.length ≤ content.length → found ≠ content.take found.length →
    prims.sha256Hex found ≠ prims.sha256Hex (content.take found.length)

section Answered

variable {env : ReceiveEnv} {source : Source env.prims} {d : Disk} {target : FsPath} {found : Bytes}

theorem validOffset_le (content found : Bytes) : validOffset content found ≤ content.length := by
  unfold validOffset
  split_ifs with h
  · exact h.length_le
  · exact Nat.zero_le _

/-- What counts has been offered. -/
theorem validOffset_le_offered (content found : Bytes) :
    validOffset content found ≤ (offeredOf content.length found).length := by
  unfold validOffset
  split_ifs with h
  · rw [offeredOf, if_neg (Nat.not_lt.mpr h.length_le)]
  · exact Nat.zero_le _

/-- Space for all that does not count yet is space for what the plan asks for. -/
theorem Abandoned.leftover (h : Abandoned env source d target found)
    (hroom : env.HasSpace (source.entry.size - validOffset source.content found)) :
    Leftover env source d target found := by
  refine ⟨h, hroom.mono (Nat.sub_le_sub_left ?_ _)⟩
  rw [source.size_eq h.file]
  exact validOffset_le_offered _ _

theorem take_validOffset {content found : Bytes} (h : validOffset content found ≠ 0) :
    found = content.take (validOffset content found) := by
  unfold validOffset at h ⊢
  split_ifs at h ⊢ with hprefix
  · exact List.prefix_iff_eq_take.mp hprefix
  · exact absurd rfl h

/-- **Both sides come to the offset that counts.** -/
theorem agreedOffset_eq (hsize : source.entry.size = source.content.length)
    (hdistinct : Distinct env.prims source.content found) :
    agreedOffset source (offeredOf source.entry.size found)
        (offeredSha256 env.prims (offeredOf source.entry.size found)) = validOffset source.content found := by
  unfold agreedOffset validOffset
  by_cases hlong : source.entry.size < found.length
  · have hnot : ¬ found <+: source.content := by
      intro hprefix
      have := hprefix.length_le
      omega
    simp [offeredOf, hlong, hnot]
  · have hoffered : offeredOf source.entry.size found = found := by rw [offeredOf, if_neg hlong]
    rw [hoffered]
    by_cases hnil : found = []
    · subst hnil
      simp
    · have hne := env.prims.sha256Hex_ne found
      have hpos : 0 < found.length := List.length_pos_of_ne_nil hnil
      simp only [offeredSha256, if_neg hnil, hpos, ne_eq, hne, not_false_eq_true, true_and]
      by_cases hprefix : found <+: source.content
      · have htake := List.prefix_iff_eq_take.mp hprefix
        rw [if_pos hprefix, ← htake, if_neg (by simp)]
      · have hdiffer := hdistinct (by omega) fun heq => hprefix (List.prefix_iff_eq_take.mpr heq)
        rw [if_neg hprefix, if_pos hdiffer]

/-- What the receiver knows once the answer is there. -/
def sessionFor (source : Source env.prims) (target : FsPath) (found : Bytes) : PayloadSession where
  setup := setupFor source.entry target
  partPath := partPathFor target
  resumeOffset := validOffset source.content found
  hashed := source.content.take (validOffset source.content found)

/-- What stands at the partial file when it is opened. -/
def keptOf (source : Source env.prims) (found : Bytes) : Bytes :=
  if validOffset source.content found = (offeredOf source.entry.size found).length then found else []

/-- A path to a file that is there, when the file has been rewritten. -/
theorem partPlace_set {part : FsPath} {place : Place} (t : Tree) {content content' : Bytes}
    (hloc : locate t env.cwd part = some place) (hfile : t place = some (.file content)) (hne : place ≠ []) :
    env.partPlace (t.set place (.file content')) part = some (place, content') := by
  have hleaf : Leaf t place := .inr ⟨content, hfile⟩
  have hlook : look (t.set place (.file content')) place = some (.file content') := by
    rw [look, if_neg hne, Tree.set_self]
  simp [ReceiveEnv.partPlace, openPlace, locate_set_file hleaf, hloc, hlook]

theorem Abandoned.settleSession (h : Abandoned env source d target found)
    (hdistinct : Distinct env.prims source.content found) {place : Place}
    (hloc : locate d.tree env.cwd (partPathFor target) = some place)
    (hfile : d.tree place = some (.file found)) (hne : place ≠ []) (log : List Report) :
    ∃ log' touched, env.settleSession source (questionFor source target found) { d with log := log } =
      .ok (.receivePayload (sessionFor source target found))
        { tree := d.tree.set place (.file (keptOf source found)), log := log', touched := touched } := by
  have hsize := source.size_eq h.file
  have hagreed := agreedOffset_eq hsize hdistinct
  have hself : d.tree.set place (.file found) = d.tree := by
    unfold Tree.set
    rw [← hfile, Function.update_eq_self]
  simp only [ReceiveEnv.settleSession, questionFor, hagreed, ReceiveEnv.acceptOffset]
  by_cases hsame : validOffset source.content found = (offeredOf source.entry.size found).length
  · -- all that was offered counts, also when nothing was
    refine ⟨log, d.touched, ?_⟩
    have hoffered : offeredOf source.entry.size found = source.content.take (validOffset source.content found) := by
      by_cases hzero : validOffset source.content found = 0
      · rw [hzero, List.take_zero, ← List.length_eq_zero_iff, ← hsame, hzero]
      · have hfound := take_validOffset hzero
        have hle := validOffset_le source.content found
        rw [← hfound, offeredOf, if_neg]
        rw [hfound, List.length_take]
        omega
    have hkept : keptOf source found = found := if_pos hsame
    rw [hkept, hself]
    simp only [← hsame]
    rw [hoffered]
    rfl
  -- nothing counts of what was offered, so the file is cut to nothing and started over
  · have hzero : validOffset source.content found = 0 := by
      by_contra hpos
      have hfound := take_validOffset hpos
      have hle := validOffset_le source.content found
      refine hsame ?_
      have hlen : found.length = validOffset source.content found := by
        rw [hfound, List.length_take]
        rw [← hfound]
        omega
      rw [offeredOf, if_neg (by omega), hlen]
    have hpart : env.partPlace d.tree (partPathFor target) = some (place, found) := by
      rw [← hself]
      exact partPlace_set d.tree hloc hfile hne
    have hkept : keptOf source found = [] := if_neg hsame
    have hdiffer : 0 ≠ (offeredOf source.entry.size found).length := hzero ▸ hsame
    have hresize (relative : String) (log : List Report) :
        env.resizeFile (partPathFor target) 0 relative { d with log := log } =
          .ok () { tree := d.tree.set place (.file []), log := log, touched := d.touched ++ [place] } := by
      simp only [ReceiveEnv.resizeFile, bind_tree, hpart, hfile, Option.isNone_some, Bool.false_eq_true, if_false]
      rw [change_ok]
      simp
    refine ⟨log ++ [.status ("resume rejected, restarting " ++ source.entry.relative)], d.touched ++ [place], ?_⟩
    rw [hkept]
    simp only [hzero, if_neg hdiffer, bind_assoc, bind_status, bind_tree, Nat.lt_irrefl, if_false]
    rw [bind_of_ok (hresize _ _)]
    simp only [sessionFor, hzero, List.take_zero]
    rfl

end Answered

/-! ## The payload

The partial file is rewritten and moved. What is checked of the way to the target has nothing to do
with what a file on it says, so no check is made twice. -/

section Completed

variable {env : ReceiveEnv} {source : Source env.prims} {d : Disk} {target : FsPath} {found : Bytes}

/-- What a file says is no matter to the way to a target. -/
theorem walkParent_rewritten {t : Tree} {place : Place} {content content' : Bytes} (h : t place = some (.file content))
    (relative : String) (current : FsPath) (parts : List String) :
    env.walkParent (t.set place (.file content')) relative current parts = env.walkParent t relative current parts := by
  induction parts generalizing current with
  | nil => rfl
  | cons part rest ih =>
    rw [ReceiveEnv.walkParent, ReceiveEnv.walkParent]
    split_ifs
    · exact ih current
    · rfl
    · dsimp only
      rcases lstat_rewritten content' h (current.join { parts := [part] }) with
        hlstat | ⟨hlstat, hlstat'⟩
      · rw [ReceiveEnv.symlinkStatus, ReceiveEnv.symlinkStatus, hlstat]
        cases lstat t env.cwd (current.join { parts := [part] }) with
        | none => exact ih _
        | some node =>
          cases node with
          | file c => rfl
          | dir => exact ih _
          | symlink link => rfl
      · rw [ReceiveEnv.symlinkStatus, ReceiveEnv.symlinkStatus, hlstat, hlstat']

theorem validateReceiveTargetParent_rewritten {t : Tree} {place : Place} {content content' : Bytes}
    (h : t place = some (.file content)) (target : FsPath) (relative : String) :
    env.validateReceiveTargetParent (t.set place (.file content')) target relative =
      env.validateReceiveTargetParent t target relative := by
  simp only [ReceiveEnv.validateReceiveTargetParent, weaklyCanonical_rewritten h, walkParent_rewritten h]

theorem remove_set (t : Tree) (place : Place) (node : Node Bytes) : (t.set place node).remove place = t.remove place :=
  Function.update_idem ..

/-- Permissions and time are set. -/
theorem applyFileMetadata_source (hfile : transferEntryKind source.entry = .file) (hmode : source.entry.mode < 2 ^ 32)
    (hmtime : source.entry.mtimeMs ≤ u64Max) (current : FsPath) (d : Disk) :
    ∃ touched, env.applyFileMetadata current (makeFileHeader source.entry) d =
      .ok () { d with touched := touched } := by
  have hmodeField : ∃ mode, (makeFileHeader source.entry).getU64 "mode" 0 = .ok mode := by
    by_cases hpos : 0 < source.entry.mode
    · refine ⟨source.entry.mode, Message.getU64_eq ?_ (by unfold u64Max; omega)⟩
      unfold makeFileHeader metadataFields
      split_ifs <;> simp [hfile, Message.get, List.lookup]
    · refine ⟨0, ?_⟩
      unfold makeFileHeader metadataFields
      split_ifs <;> simp [hfile, Message.getU64, Message.get, List.lookup]
  have hmtimeField : ∃ mtimeMs, (makeFileHeader source.entry).getU64 "mtime_ms" 0 = .ok mtimeMs := by
    by_cases hpos : 0 < source.entry.mtimeMs
    · refine ⟨source.entry.mtimeMs, Message.getU64_eq ?_ hmtime⟩
      unfold makeFileHeader metadataFields
      simp [hfile, hpos, Message.get, List.lookup]
    · refine ⟨0, ?_⟩
      unfold makeFileHeader metadataFields
      split_ifs <;> simp [hfile, Message.getU64, Message.get, List.lookup]
  obtain ⟨mode, hmode⟩ := hmodeField
  obtain ⟨mtimeMs, hmtime⟩ := hmtimeField
  let places := ((locate d.tree env.cwd current).bind (real d.tree maxLinks)).toList
  refine ⟨d.touched ++ (if mode % 2 ^ 32 &&& 0o111 ≠ 0 then places else []) ++
    (if mtimeMs ≠ 0 then places else []), ?_⟩
  rw [ReceiveEnv.applyFileMetadata, bind_tree, bind_check hmode, bind_touch, bind_check hmtime]
  rfl

/-- Where the file goes when all of it is there. -/
theorem Abandoned.completeReceived (h : Abandoned env source d target found) {dir : Place}
    (hb : Beside env d.tree target dir) (habsent : d.tree (dir ++ [target.filename]) = none)
    (hfile : d.tree (dir ++ [target.filename ++ ".kikopart"]) = some (.file found)) (log : List Report)
    (touched : List Place) :
    ∃ touched', env.completeReceived (sessionFor source target found) (env.prims.sha256Hex source.content)
        source.content.length (env.prims.sha256Hex source.content)
        { tree := d.tree.set (dir ++ [target.filename ++ ".kikopart"]) (.file source.content), log := log
          touched := touched } =
      .ok source.entry.size
        { tree := (d.tree.remove (dir ++ [target.filename ++ ".kikopart"])).set (dir ++ [target.filename])
            (.file source.content), log := log, touched := touched' } := by
  set place := dir ++ [target.filename ++ ".kikopart"] with hplace
  set t := d.tree.set place (.file source.content) with ht
  have hsize := source.size_eq h.file
  have hne : place ≠ [] := by simp [hplace]
  have hleaf : Leaf d.tree place := .inr ⟨found, hfile⟩
  have hother : dir ++ [target.filename] ≠ place := by
    intro heq
    rw [hplace] at heq
    have hname : target.filename = target.filename ++ ".kikopart" := by simpa using List.append_cancel_left heq
    exact partName_ne target.filename (Nat.lt_add_of_pos_right (by omega)) hname.symm
  -- the checks of the way to the target pass again: only the partial file has changed
  have hvalid : env.validateReceiveTargetParent t target source.entry.relative = .ok () := by
    rw [ht, validateReceiveTargetParent_rewritten hfile]
    exact h.parent
  have hstat : env.symlinkStatus t (partPathFor target) = some (.file source.content) :=
    lstat_set_file hleaf hb.partLocated hne
  have hpartPath : env.validateReceivePartPath t (partPathFor target) source.entry.relative = .ok () := by
    rw [ReceiveEnv.validateReceivePartPath, hstat]
  have hread : env.fileSize t (partPathFor target) = some source.entry.size := by
    rw [ReceiveEnv.fileSize, readFile_of_lstat hstat, Option.map_some, hsize]
  -- the digest is that of the source
  have hverify (d' : Disk) (hd : d'.tree = t) : env.verifyReceivedDigest (partPathFor target) source.entry.relative
      source.content.length source.entry.size (env.prims.sha256Hex source.content) (env.prims.sha256Hex source.content) d' =
        .ok () d' := by
    have hgood : env.receivedError t (partPathFor target) source.entry.relative source.content.length source.entry.size
        (env.prims.sha256Hex source.content) (env.prims.sha256Hex source.content) = none := by
      simp [ReceiveEnv.receivedError, hsize.symm, hread]
    rw [ReceiveEnv.verifyReceivedDigest, bind_tree, hd, hgood]
    rfl
  have hlocated : locate t env.cwd target = some (dir ++ [target.filename]) := by
    rw [ht, locate_set_file hleaf, hb.located]
  have hpartLocated : locate t env.cwd (partPathFor target) = some place := by
    rw [ht, locate_set_file hleaf, hb.partLocated]
  have hself : t place = some (.file source.content) := Tree.set_self ..
  have hnotDir : ¬ isDir t (dir ++ [target.filename]) = true := by
    have : t (dir ++ [target.filename]) = none := by rw [ht, Tree.set_of_ne _ _ hother, habsent]
    simp [isDir, look, this]
  -- the move puts the file where nothing stands
  have hfinal (d' : Disk) (hd : d'.tree = t) : env.finalizePartFile (partPathFor target) target d' =
      .ok () { d' with tree := (d.tree.remove place).set (dir ++ [target.filename]) (.file source.content)
                       touched := d'.touched ++ [place, dir ++ [target.filename]] } := by
    simp only [ReceiveEnv.finalizePartFile, bind_tree, hd, hpartLocated, Option.bind_some, hself, Option.map_some,
      ReceiveEnv.atomicReplaceFile, hlocated, if_neg hnotDir]
    rw [change_ok, ht, remove_set]
  have hsha : ¬ env.prims.sha256Hex source.content = "" := env.prims.sha256Hex_ne _
  obtain ⟨touched', hmetadata⟩ := applyFileMetadata_source h.file h.mode h.mtime target
    { tree := (d.tree.remove place).set (dir ++ [target.filename]) (.file source.content), log := log
      touched := touched ++ [place, dir ++ [target.filename]] }
  refine ⟨touched', ?_⟩
  have hsetup : (sessionFor source target found).setup = setupFor source.entry target := rfl
  rw [ReceiveEnv.completeReceived]
  dsimp only [sessionFor, setupFor]
  rw [bind_tree, bind_check hvalid, bind_tree, bind_check hpartPath, if_neg hsha, bind_of_ok (hverify _ rfl),
    bind_of_ok (hfinal _ rfl), bind_of_ok hmetadata]
  rfl

end Completed

/-! ## The whole transfer -/

section Delivered

variable {env : ReceiveEnv} {source : Source env.prims} {d : Disk} {target : FsPath} {found : Bytes}

/-- The file stands at its target, the partial file is gone, and nothing else has changed. -/
def Delivered (env : ReceiveEnv) (source : Source env.prims) (t : Tree) (target : FsPath) (l : Loop) : Prop :=
  ∃ part place, locate t env.cwd (partPathFor target) = some part ∧ locate t env.cwd target = some place ∧
    l.disk.tree = (t.remove part).set place (.file source.content) ∧
    l.fileCount = 1 ∧ l.grandTotal = source.entry.size

theorem Abandoned.exchange (h : Abandoned env source d target found) (hdistinct : Distinct env.prims source.content found)
    (log : List Report) (plan : Option ReceivePlan) :
    ∃ l, env.exchange source (questionFor source target found)
        { disk := { d with log := log }, plan := plan, sawManifest := true, sawFileHeader := true } = .ok () l ∧
      l.plan = plan ∧ Delivered env source d.tree target l := by
  obtain ⟨dir, hb, habsent, hfile⟩ := h.beside
  obtain ⟨log', touched, hsettle⟩ := h.settleSession hdistinct hb.partLocated hfile (by simp) log
  have hwhole : (sessionFor source target found).hashed ++
      source.content.drop (sessionFor source target found).resumeOffset = source.content := List.take_append_drop ..
  have hstore : env.storePart (sessionFor source target found) source.content
      { tree := d.tree.set (dir ++ [target.filename ++ ".kikopart"]) (.file (keptOf source found)), log := log'
        touched := touched } =
        .ok () { tree := d.tree.set (dir ++ [target.filename ++ ".kikopart"]) (.file source.content), log := log',
                 touched := touched ++ [dir ++ [target.filename ++ ".kikopart"]] } := by
    have hplace : env.partPlace (d.tree.set (dir ++ [target.filename ++ ".kikopart"]) (.file (keptOf source found)))
        (sessionFor source target found).partPath =
          some (dir ++ [target.filename ++ ".kikopart"], keptOf source found) :=
      partPlace_set d.tree hb.partLocated hfile (by simp)
    simp only [ReceiveEnv.storePart, bind_tree, hplace]
    rw [change_ok, Tree.set_set]
  obtain ⟨touched', hcomplete⟩ := h.completeReceived hb habsent hfile log'
    (touched ++ [dir ++ [target.filename ++ ".kikopart"]])
  rw [ReceiveEnv.exchange, bind_of_ok (onDisk_ok.mpr ⟨_, hsettle, rfl⟩), ReceiveEnv.afterSession, ReceiveEnv.takePayload]
  dsimp only
  rw [hwhole, bind_of_ok (onDisk_ok.mpr ⟨_, hstore, rfl⟩), bind_of_ok (onDisk_ok.mpr ⟨_, hcomplete, rfl⟩)]
  refine ⟨_, rfl, rfl, _, _, hb.partLocated, hb.located, rfl, rfl, ?_⟩
  have hfits := source.size_le
  change (0 + source.entry.size) % 2 ^ 64 = source.entry.size
  unfold u64Max at hfits
  omega

/-- **The transfer ends with the file where it belongs.** -/
theorem Leftover.conclusion (h : Leftover env source d target found)
    (hdistinct : Distinct env.prims source.content found) :
    ∃ l, conclusion env [source] { disk := d } = .ok l ∧ Delivered env source d.tree target l := by
  obtain ⟨text, log, htext, hmanifest⟩ := h.takeManifest
  obtain ⟨l, hexchange, hplan, hdelivered⟩ := h.exchange hdistinct log
    (some (plannedFor source.entry target [source.entry.relative]))
  have hdone : takeDone l = .ok () l := by
    have hcomplete : validateReceivePlanComplete l.plan = .ok () := by
      rw [hplan]
      simp [validateReceivePlanComplete, plannedFor]
    rw [takeDone, bind_get, hcomplete]
    rfl
  refine ⟨l, ?_, hdelivered⟩
  rw [Transfer.conclusion, List.map_singleton, htext]
  dsimp only
  rw [verdict, ReceiveEnv.transferAll, bind_of_ok hmanifest, ReceiveEnv.transferEntries,
    bind_of_ok (h.takeFileHeader log), bind_of_ok hexchange, ReceiveEnv.transferEntries, hdone]

end Delivered

/-! ## Both sides go on from the same offset

Offset, hasher and file are compared, since a receiver that goes on at the right place with a hasher
that has seen something else fails only at the end. -/

/-- What the hasher of a sender has seen when it answers: what it compares, or after a restart nothing. -/
def senderHashed {prims : Primitives} (source : Source prims) (resume : ResumeRequest) : Bytes :=
  let seen := source.content.take resume.offset
  if 0 < resume.offset ∧ resume.prefixSha256 ≠ "" ∧ resume.prefixSha256 ≠ prims.sha256Hex seen then [] else seen

/-- What both sides have come to when the question `p` is asked and answered. -/
structure Agreed (env : ReceiveEnv) (source : Source env.prims) (l : Loop) (p : Pending) (part : Place)
    (offset : Nat) : Prop where
  /-- the sender acknowledges the offset, sends from there, and has hashed what is before it -/
  sender : onResume source (.resume p.request) = .ok { action := .sendPayload, accepted := offset }
  senderHashed : ∃ resume, recvResumeRequest (.resume p.request) source.entry = .ok resume ∧
    senderHashed source resume = source.content.take offset
  /-- so does the receiver, and with the answer its partial file is exactly what it has hashed -/
  stream : ∀ codec : StreamCodec, ∃ (s : StreamPayload codec) (l' : Loop),
    onFrame env (.resumeAck (resumeAckMessage offset)) (.await p) l = .ok (.payload s, []) l' ∧
      s.session.resumeOffset = offset ∧ s.currentTotal = offset ∧ s.hashed = source.content.take offset ∧
      s.out = part ∧ l'.disk.tree = l.disk.tree.set part (.file (source.content.take offset))
  mux : ∀ n, ∃ (s : PayloadSession) (l' : Loop),
    onControl env (.resumeAck (resumeAckMessage offset)) (.await p) l =
        .ok (.receiving s part (MuxRecv.start n (source.content.take offset) offset), []) l' ∧
      s.resumeOffset = offset ∧ s.hashed = source.content.take offset ∧
      l'.disk.tree = l.disk.tree.set part (.file (source.content.take offset))

section Both

variable {env : ReceiveEnv} {source : Source env.prims} {d : Disk} {target : FsPath} {found : Bytes}

/-- What is left of what was found is what counts. -/
theorem keptOf_eq (hsize : source.entry.size = source.content.length) :
    (if 0 < validOffset source.content found then keptOf source found else []) =
      source.content.take (validOffset source.content found) := by
  split_ifs with hpos
  · have hfound := take_validOffset (Nat.pos_iff_ne_zero.mp hpos)
    have hle := validOffset_le source.content found
    have hlen : found.length = validOffset source.content found := by
      rw [hfound, List.length_take, ← hfound]
      omega
    have hsame : validOffset source.content found = (offeredOf source.entry.size found).length := by
      rw [offeredOf, if_neg (by omega), hlen]
    rw [keptOf, if_pos hsame]
    exact hfound
  · rw [Nat.eq_zero_of_not_pos hpos, List.take_zero]

theorem Abandoned.senderHashed (h : Abandoned env source d target found)
    (hdistinct : Distinct env.prims source.content found) :
    ∃ resume, recvResumeRequest (.resume (questionFor source target found).request) source.entry = .ok resume ∧
      Transfer.senderHashed source resume = source.content.take (validOffset source.content found) := by
  have hsize := source.size_eq h.file
  have hagreed := agreedOffset_eq hsize hdistinct
  have hle : (offeredOf source.entry.size found).length ≤ source.entry.size := by
    unfold offeredOf
    split_ifs
    · exact Nat.zero_le _
    · omega
  refine ⟨_, recvResumeRequest_eq source.size_le hle _ false, ?_⟩
  unfold Transfer.senderHashed
  unfold agreedOffset at hagreed
  dsimp only
  split_ifs at hagreed ⊢
  · rw [← hagreed, List.take_zero]
  · rw [← hagreed]

/-- The partial file, as the receiver opens it. -/
theorem openPart_kept {part : Place} (hfile : transferEntryKind source.entry = .file)
    (hloc : locate d.tree env.cwd (partPathFor target) = some part) (hpart : d.tree part = some (.file found))
    (hne : part ≠ []) (log : List Report) (touched : List Place) :
    env.openStream (sessionFor source target found)
        { tree := d.tree.set part (.file (keptOf source found)), log := log, touched := touched } =
      .ok part { tree := d.tree.set part (.file (source.content.take (validOffset source.content found)))
                 log := log, touched := touched ++ [part] } ∧
    env.openMux (sessionFor source target found)
        { tree := d.tree.set part (.file (keptOf source found)), log := log, touched := touched } =
      .ok (part, source.content.take (validOffset source.content found))
        { tree := d.tree.set part (.file (source.content.take (validOffset source.content found)))
          log := log, touched := touched ++ [part] } := by
  have hkept : (if 0 < validOffset source.content found then keptOf source found else []) =
      source.content.take (validOffset source.content found) := keptOf_eq (source.size_eq hfile)
  have hoffset : (sessionFor source target found).resumeOffset = validOffset source.content found := rfl
  have hplace : env.partPlace (d.tree.set part (.file (keptOf source found))) (sessionFor source target found).partPath =
      some (part, keptOf source found) := partPlace_set d.tree hloc hpart hne
  have hput : ReceiveM.change [part] ((d.tree.set part (.file (keptOf source found))).set part
      (.file (source.content.take (validOffset source.content found))))
        { tree := d.tree.set part (.file (keptOf source found)), log := log, touched := touched } =
      .ok () { tree := d.tree.set part (.file (source.content.take (validOffset source.content found)))
               log := log, touched := touched ++ [part] } := by
    rw [change_ok, Tree.set_set]
  have hthere : ((d.tree.set part (.file (keptOf source found))) part).isNone = false := by
    rw [Tree.set_self]
    rfl
  constructor
  · simp only [ReceiveEnv.openStream, bind_tree, hplace, hoffset, hkept]
    rw [bind_of_ok hput]
    rfl
  · simp only [ReceiveEnv.openMux, bind_tree, hplace, hthere, Bool.false_eq_true, and_false, if_false, hoffset, hkept]
    rw [bind_of_ok hput]
    rfl

theorem Abandoned.agreed (h : Abandoned env source d target found) (hdistinct : Distinct env.prims source.content found)
    (log : List Report) (plan : Option ReceivePlan) :
    ∃ part, locate d.tree env.cwd (partPathFor target) = some part ∧
      Agreed env source { disk := { d with log := log }, plan := plan, sawManifest := true, sawFileHeader := true }
        (questionFor source target found) part (validOffset source.content found) := by
  obtain ⟨dir, hb, -, hfile⟩ := h.beside
  have hne : dir ++ [target.filename ++ ".kikopart"] ≠ [] := by simp
  have hloc := hb.partLocated
  generalize dir ++ [target.filename ++ ".kikopart"] = part at hfile hne hloc
  obtain ⟨log', touched, hsettle⟩ := h.settleSession hdistinct hloc hfile hne log
  obtain ⟨hstream, hmux⟩ := openPart_kept h.file hloc hfile hne log' touched
  have hagreed := agreedOffset_eq (source.size_eq h.file) hdistinct
  have hoffers : Offers env source d.tree (questionFor source target found) :=
    takeFileHeader_offers (h.takeFileHeader log)
  have hsession : agreedSession source (questionFor source target found) =
      { action := .sendPayload, accepted := validOffset source.content found } := by
    rw [← hagreed]
    rfl
  -- the answer is taken, and settles the session both sides have agreed on
  have hanswer : env.onAck (questionFor source target found)
      (.resumeAck (resumeAckMessage (validOffset source.content found))) { d with log := log } =
        .ok (.inl (.receivePayload (sessionFor source target found)))
          { tree := d.tree.set part (.file (keptOf source found)), log := log', touched := touched } := by
    have hack := onAck_eq hoffers
    rw [hsession] at hack
    rw [hack, bind_of_ok hsettle]
    rfl
  -- over a stream the partial file is opened for appending
  have hopen (codec : StreamCodec) : (openSession env (.receivePayload (sessionFor source target found))
      { tree := d.tree.set part (.file (keptOf source found)), log := log', touched := touched } :
        EStateM.Result _ _ (StreamPc codec)) =
      .ok (.payload { session := sessionFor source target found, out := part
                      currentTotal := validOffset source.content found
                      hashed := source.content.take (validOffset source.content found)
                      decompressor := codec.decoder })
        { tree := d.tree.set part (.file (source.content.take (validOffset source.content found)))
          log := log', touched := touched ++ [part] } := by
    rw [openSession, bind_of_ok hstream]
    rfl
  -- over many channels it is opened for writing anywhere
  have hopenMux (n : Nat) : openMuxSession env n (.receivePayload (sessionFor source target found))
      { tree := d.tree.set part (.file (keptOf source found)), log := log', touched := touched } =
      .ok (.receiving (sessionFor source target found) part
          (MuxRecv.start n (source.content.take (validOffset source.content found)) (validOffset source.content found)))
        { tree := d.tree.set part (.file (source.content.take (validOffset source.content found)))
          log := log', touched := touched ++ [part] } := by
    rw [openMuxSession, bind_of_ok hmux]
    rfl
  refine ⟨part, hloc, ?_, h.senderHashed hdistinct, fun codec => ?_, fun n => ?_⟩
  · rw [onResume_eq hoffers, hsession]
  · refine ⟨{ session := sessionFor source target found, out := part
              currentTotal := validOffset source.content found
              hashed := source.content.take (validOffset source.content found), decompressor := codec.decoder },
      { disk := { tree := d.tree.set part (.file (source.content.take (validOffset source.content found)))
                  log := log', touched := touched ++ [part] }
        plan := plan, sawManifest := true, sawFileHeader := true }, ?_, rfl, rfl, rfl, rfl, rfl⟩
    rw [onFrame, bind_of_ok (onDisk_ok.mpr ⟨_, hanswer, rfl⟩)]
    dsimp only
    rw [bind_of_ok (onDisk_ok.mpr ⟨_, hopen codec, rfl⟩)]
    rfl
  · refine ⟨sessionFor source target found,
      { disk := { tree := d.tree.set part (.file (source.content.take (validOffset source.content found)))
                  log := log', touched := touched ++ [part] }
        plan := plan, sawManifest := true, sawFileHeader := true }, ?_, rfl, rfl, rfl⟩
    rw [onControl]
    rw [bind_of_ok (onDisk_ok.mpr ⟨_, hanswer, rfl⟩)]
    dsimp only
    rw [bind_of_ok (onDisk_ok.mpr ⟨_, hopenMux n, rfl⟩)]
    rfl

end Both

/-! ## Resuming

In the direction from the transfer to the space, a transfer that went right has made its plan, and the
plan says that there was space for what was still to come. -/

/-- **A transfer onto a partial file goes right.** Both sides go on from the same offset: as far as what
    was found is the beginning of the source, and else from the start. With the answer both have hashed
    what is before it, and that is what the partial file holds. Over one stream or many channels, in every
    order of the steps, the receiver returns with the file at its target. -/
def ResumesOnto (env : ReceiveEnv) (source : Source env.prims) (d : Disk) (target : FsPath) (found : Bytes) : Prop :=
  (∃ text p l part, encodeTransferManifest env.prims [source.entry] = .ok text ∧
    (do env.takeManifest text; env.takeFileHeader (makeFileHeader source.entry)) { disk := d } = .ok p l ∧
    l.disk.tree = d.tree ∧ locate d.tree env.cwd (partPathFor target) = some part ∧
    Agreed env source l p part (validOffset source.content found)) ∧
  (∀ (codec : StreamCodec) (capDown capUp : Option Nat),
    (∀ c, capDown = some c → 0 < c) → (∀ c, capUp = some c → 0 < c) →
    ∃ l, Lts.Concludes (StreamTransfer.step capDown capUp) (StreamTransfer.init codec [source] d)
        (fun s => s.recv.outcome) (.ok l) ∧ Delivered env source d.tree target l) ∧
  ∀ (codec : BlockCodec) (m : Nat) (capDown : Fin (m + 1) → Option Nat) (capUp : Option Nat),
    (∀ k c, capDown k = some c → 0 < c) → (∀ c, capUp = some c → 0 < c) →
    ∃ l, Lts.Concludes (MuxTransfer.step codec capDown capUp) (MuxTransfer.init m [source] d)
        (fun s => s.recv.outcome) (.ok l) ∧ Delivered env source d.tree target l

section Resuming

variable {env : ReceiveEnv} {source : Source env.prims} {d : Disk} {target : FsPath} {found : Bytes}

theorem Leftover.resumesOnto (h : Leftover env source d target found) (hdistinct : Distinct env.prims source.content found) :
    ResumesOnto env source d target found := by
  obtain ⟨text, log, htext, hmanifest⟩ := h.takeManifest
  obtain ⟨part, hpart, hagreed⟩ := h.agreed hdistinct log
    (some (plannedFor source.entry target [source.entry.relative]))
  obtain ⟨l, hconclusion, hdelivered⟩ := h.conclusion hdistinct
  refine ⟨⟨text, _, _, part, htext, ?_, rfl, hpart, hagreed⟩, fun codec capDown capUp hdown hup => ?_,
    fun codec m capDown capUp hdown hup => ?_⟩
  · rw [bind_of_ok hmanifest, h.takeFileHeader log]
  · refine ⟨l, ?_, hdelivered⟩
    rw [← hconclusion]
    exact stream_concludes env codec hdown hup [source] d
  · refine ⟨l, ?_, hdelivered⟩
    rw [← hconclusion]
    exact mux_concludes env codec hdown hup [source] d

/-- A receiver without the space never comes to its question. -/
theorem Abandoned.not_resumesOnto (h : Abandoned env source d target found)
    (hspace : ¬ env.HasSpace (source.entry.size - (offeredOf source.entry.size found).length)) :
    ¬ ResumesOnto env source d target found := by
  obtain ⟨text, e, htext, -, hrefused⟩ := h.refused hspace
  rintro ⟨⟨text', p, l, -, htext', hheader, -⟩, -⟩
  obtain rfl : text = text' := Except.ok.inj (htext.symm.trans htext')
  rw [bind_of_error hrefused] at hheader
  cases hheader

/-- What the plan asks for is there where the partial file counts, or where there is space for the whole file beside
    it: on a disk that could take the file in the place of the partial one, only a longer partial file is in the way. -/
theorem hasSpace_offered (hfits : ∃ available, env.available = .ok available ∧
      kReceiveFreeSpaceReserveBytes + source.entry.size ≤ available + found.length) :
    env.HasSpace (source.entry.size - (offeredOf source.entry.size found).length) ↔
      found.length ≤ source.entry.size ∨ env.HasSpace source.entry.size := by
  obtain ⟨available, havailable, hfits⟩ := hfits
  by_cases hlong : source.entry.size < found.length
  · simp [offeredOf, hlong, Nat.not_le.mpr hlong]
  · rw [offeredOf, if_neg hlong]
    refine iff_of_true ?_ (.inl (Nat.not_lt.mp hlong))
    by_cases hall : source.entry.size - found.length = 0
    · exact .inl hall
    · exact .inr ⟨available, havailable, by omega⟩

end Resuming

/-- **Whatever stands at the partial file, the transfer goes right exactly when the plan finds the space it asks
    for**: space for the file, less the partial one where that is no longer than the file. -/
theorem resume_correct_iff (env : ReceiveEnv) (source : Source env.prims) (d : Disk) (target : FsPath) (found : Bytes)
    (h : Abandoned env source d target found) (hdistinct : Distinct env.prims source.content found) :
    ResumesOnto env source d target found ↔
      env.HasSpace (source.entry.size - (offeredOf source.entry.size found).length) := by
  refine ⟨fun hresumes => ?_, fun hspace => Leftover.resumesOnto ⟨h, hspace⟩ hdistinct⟩
  by_contra hspace
  exact h.not_resumesOnto hspace hresumes

/-- The digests of the sample, and of what is found in its place. -/
def leftoverPrims : Primitives where
  sha256Hex content :=
    if content = [104] then "aaa9402664f1a41f40ebbc52c9993eb66aeb366602958fdfaa283b71e64db123"
    else if content = [1] then "4bf5122f344554c53bde2ebb8cd2b7e3d1600ad631c385a5d7cce23c7785459a"
    else samplePrims.sha256Hex content
  imohashHex := samplePrims.imohashHex
  manifestTextSize := samplePrims.manifestTextSize
  sha256Hex_ne content := by
    split_ifs
    · decide
    · decide
    · exact samplePrims.sha256Hex_ne content
  imohashHex_ne := samplePrims.imohashHex_ne

def leftoverEnv : ReceiveEnv := { sampleEnv with prims := leftoverPrims }

def leftoverSource : Source leftoverEnv.prims :=
  { sampleSource with size_eq := sampleSource.size_eq, imohash_eq := sampleSource.imohash_eq }

/-- Something else has been left at the partial file. -/
def leftoverDisk : Disk where
  tree place :=
    if place = ["out"] then some .dir else if place = ["out", "hi.txt.kikopart"] then some (.file [1]) else none

theorem leftoverDisk_sane : Sane leftoverDisk.tree := by
  refine ⟨fun {p part} hp => ?_, fun {p target} hp => ?_⟩
  · simp only [leftoverDisk] at hp
    split_ifs at hp with hout hpart
    · obtain rfl : p = [] := by simpa using congrArg List.dropLast hout
      rfl
    · obtain rfl : p = ["out"] := by simpa using congrArg List.dropLast hpart
      rfl
    · exact absurd rfl hp
  · simp only [leftoverDisk] at hp
    split_ifs at hp
    · cases hp
    · cases hp

theorem leftover_sample : Abandoned leftoverEnv leftoverSource leftoverDisk
    { isAbsolute := true, parts := ["out", "hi.txt"] } [1] where
  file := by decide
  slash := by decide
  mode := by decide
  mtime := by decide
  told := ⟨_, rfl⟩
  sane := leftoverDisk_sane
  here := rfl
  joined := by decide
  parent := by decide +kernel
  absent := by decide +kernel
  part := by decide +kernel

/-- What was found does not count, and the file is sent from its start. -/
theorem resume_correct_sample :
    (∃ p l part, Agreed leftoverEnv leftoverSource l p part 0) ∧
    (∃ l, Lts.Concludes (StreamTransfer.step (some 1) (some 1))
        (StreamTransfer.init storedStream [leftoverSource] leftoverDisk) (fun s => s.recv.outcome) (.ok l) ∧
      l.disk.tree ["out", "hi.txt"] = some (.file [104, 105, 33])) ∧
    ∃ l, Lts.Concludes (MuxTransfer.step MuxDelivery.storedCodec (fun _ => some 1) (some 1))
        (MuxTransfer.init 1 [leftoverSource] leftoverDisk) (fun s => s.recv.outcome) (.ok l) ∧
      l.disk.tree ["out", "hi.txt"] = some (.file [104, 105, 33]) := by
  obtain ⟨⟨-, p, l, part, -, -, -, -, hagreed⟩, hstream, hmux⟩ := (resume_correct_iff leftoverEnv leftoverSource
    leftoverDisk { isAbsolute := true, parts := ["out", "hi.txt"] } [1] leftover_sample (fun _ _ => by decide)).mpr
      (.inr ⟨2 ^ 40, rfl, by decide⟩)
  have hplace {l : Loop} (hd : Delivered leftoverEnv leftoverSource leftoverDisk.tree
      { isAbsolute := true, parts := ["out", "hi.txt"] } l) :
      l.disk.tree ["out", "hi.txt"] = some (.file [104, 105, 33]) := by
    obtain ⟨part, place, -, hplace, htree, -⟩ := hd
    have hat : locate leftoverDisk.tree leftoverEnv.cwd { isAbsolute := true, parts := ["out", "hi.txt"] } =
        some ["out", "hi.txt"] := by decide +kernel
    obtain rfl := Option.some.inj (hplace.symm.trans hat)
    rw [htree, Tree.set_self]
    rfl
  refine ⟨⟨p, l, part, hagreed⟩, ?_, ?_⟩
  · obtain ⟨l, hends, hd⟩ := hstream storedStream (some 1) (some 1) (by simp) (by simp)
    exact ⟨l, hends, hplace hd⟩
  · obtain ⟨l, hends, hd⟩ := hmux MuxDelivery.storedCodec 1 (fun _ => some 1) (some 1) (by simp) (by simp)
    exact ⟨l, hends, hplace hd⟩

/-- A receiver whose disk has nothing free beside the reserve. -/
def fullEnv : ReceiveEnv := { leftoverEnv with available := .ok kReceiveFreeSpaceReserveBytes }

def fullSource : Source fullEnv.prims :=
  { sampleSource with size_eq := sampleSource.size_eq, imohash_eq := sampleSource.imohash_eq }

/-- The partial file is one byte longer than the file. -/
def longDisk : Disk where
  tree place :=
    if place = ["out"] then some .dir
    else if place = ["out", "hi.txt.kikopart"] then some (.file [1, 1, 1, 1])
    else none

theorem longDisk_sane : Sane longDisk.tree := by
  refine ⟨fun {p part} hp => ?_, fun {p target} hp => ?_⟩
  · simp only [longDisk] at hp
    split_ifs at hp with hout hpart
    · obtain rfl : p = [] := by simpa using congrArg List.dropLast hout
      rfl
    · obtain rfl : p = ["out"] := by simpa using congrArg List.dropLast hpart
      rfl
    · exact absurd rfl hp
  · simp only [longDisk] at hp
    split_ifs at hp
    · cases hp
    · cases hp

/-- The file would fit into the place of its partial file; but the plan takes the place for lost, and refuses. -/
theorem long_partial_refused :
    ¬ ∀ (env : ReceiveEnv) (source : Source env.prims) (d : Disk) (target : FsPath) (found : Bytes),
      Abandoned env source d target found → Distinct env.prims source.content found →
        (∃ available, env.available = .ok available ∧
          kReceiveFreeSpaceReserveBytes + source.entry.size ≤ available + found.length) →
        ResumesOnto env source d target found := by
  intro h
  have habandoned : Abandoned fullEnv fullSource longDisk { isAbsolute := true, parts := ["out", "hi.txt"] }
      [1, 1, 1, 1] :=
    { file := by decide, slash := by decide, mode := by decide, mtime := by decide, told := ⟨_, rfl⟩
      sane := longDisk_sane, here := rfl, joined := by decide, parent := by decide +kernel, absent := by decide +kernel
      part := by decide +kernel }
  refine habandoned.not_resumesOnto ?_ (h _ _ _ _ _ habandoned (fun hle _ => absurd hle (by decide))
    ⟨_, rfl, by decide⟩)
  rintro (hnone | ⟨available, havailable, hspace⟩)
  · exact absurd hnone (by decide)
  · obtain rfl := Except.ok.inj havailable
    exact absurd hspace (by decide)

end Kiko.Transfer
