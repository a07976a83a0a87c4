import Kiko.Transfer.ConflictPolicy
import Kiko.Transfer.DeclaredSize
import Kiko.Transfer.Duplicates

/-!
# What the last acknowledgement says

A receiver that has taken a manifest and returns has had one header for each of its entries and
none for anything else, and has ended each: as the manifest said, and before it took `Done`.

Four places see to that, none of them alone: `record_receive_plan_header` counts the headers, the
constructor compares each with its entry, the loop ends an entry before it takes the next, and
`validate_receive_plan_complete` compares the count. `Accounted` is what they keep together, from
the frame of the manifest to `Done`; the count is enough at the end because no header is counted
twice.

Nothing is assumed of the sender. It may send headers twice, leave some out, end an entry before
its payload or go on after `Done`; each of these ends in an error or is not counted, and an error
is never acknowledged. This is why the statement is about the receiver alone, over both loops at
once, and why the history it is about is read off the frames that were taken and not off what the
sender believes.
-/

set_option autoImplicit false

namespace Kiko.Transfer

open Lexical FileTree Effect

/-! ## The property

Three things are compared: the manifest, the headers that were accepted, and how their entries
have ended. What it means for an entry to end well depends on its kind, and on whether the
receiver said it had the file already. -/

/-- A header is the one of an entry: it has its path, kind and size, and for a link its target. -/
structure Announces (header : Message) (entry : TransferManifestEntry) : Prop where
  path : header.get "path" = entry.path
  size : header.getU64 "size" 0 = .ok entry.size
  kind : headerKind header entry.path entry.size = entry.kind
  target : entry.kind = "symlink" → header.get "target" = entry.target

/-- How an entry can end well: what is no file is created, what is to be skipped is skipped, and a
    file that is committed has the declared size and the digest its trailer has named. -/
inductive How.Whole (prims : Primitives) (setup : EntrySetup) : How → Prop
  | created (hkind : headerKind setup.header setup.relative setup.declaredSize ≠ "file") : Whole prims setup .created
  | skipped : Whole prims setup .skipped
  | committed {content : Bytes} (hsize : content.length = setup.declaredSize) :
      Whole prims setup (.committed (some (.file content)) (prims.sha256Hex content))

/-- The header of an entry, and how that entry has ended. -/
structure Completes (prims : Primitives) (header : Message) (c : Completion) : Prop where
  header : c.setup.header = header
  whole : c.how.Whole prims c.setup

/-- A history that may be acknowledged: the accepted headers are those of the manifest's entries,
    each once, and each has ended. -/
structure Acknowledged (prims : Primitives) (manifest : TransferManifest) (h : History) : Prop where
  announced : ∃ order, order.Perm manifest.entries ∧ List.Forall₂ Announces h.accepted order
  distinct : (manifest.entries.map (·.path)).Nodup
  completed : List.Forall₂ (Completes prims) h.accepted h.completed

/-! ## What a session keeps of its header

Between the header and the trailer lie an answer and a payload, and all that survives them is the
setup of the session. That its path, kind and size are still those of the header is an invariant
of the phase. -/

/-- The marker is the one of this entry: a directory, or the link its header announces. -/
def Marker.For (setup : EntrySetup) : Marker → Prop
  | .directory => headerKind setup.header setup.relative setup.declaredSize = "dir"
  | .symlink target _ => isSymlinkHeader setup.header = true ∧ target = setup.header.get "target"

theorem Marker.For.kind {setup : EntrySetup} {marker : Marker} (h : marker.For setup) :
    headerKind setup.header setup.relative setup.declaredSize ≠ "file" := by
  cases marker with
  | directory =>
    rw [show headerKind setup.header setup.relative setup.declaredSize = "dir" from h]
    decide
  | symlink target skip =>
    rw [headerKind, if_pos h.1]
    decide

/-- What a phase says of its marker. -/
def Phase.Marked : Phase → Prop
  | .await (.marker setup m) | .marker setup m => m.For setup
  | _ => True

section Session

variable {env : ReceiveEnv} {plan : Option ReceivePlan} {header : Message} {setup : EntrySetup}
  {p : Pending} {frame : Frame} {next : Phase} {d d' : Disk}

theorem validateReceivePlanHeader_ok {planned : ReceivePlanEntry} {relative : String} {size : Nat}
    (h : validateReceivePlanHeader planned header relative size = .ok ()) :
    planned.manifest.kind = headerKind header relative size ∧ planned.manifest.size = size ∧
      (planned.manifest.kind = "symlink" → planned.manifest.target = header.get "target") := by
  unfold validateReceivePlanHeader at h
  dsimp only at h
  split_ifs at h with hkind hsize htarget
  refine ⟨not_not.mp hkind, not_not.mp hsize, fun hlink => ?_⟩
  by_contra hne
  exact htarget ⟨(not_not.mp hkind).symm.trans hlink, hne⟩

/-- With a plan a header is compared with its entry. -/
theorem entrySetup_planned {t : Tree} {made : ReceivePlan} (h : env.entrySetup t (some made) header = .ok setup) :
    ∃ planned, findReceivePlanEntry (some made) (header.get "path") = some planned ∧
      validateReceivePlanHeader planned header (header.get "path") setup.declaredSize = .ok () := by
  unfold ReceiveEnv.entrySetup at h
  dsimp only at h
  split_ifs at h
  obtain ⟨size, -, h⟩ := exists_of_bind_ok h
  obtain ⟨current, hcurrent, h⟩ := exists_of_bind_ok h
  obtain ⟨_, -, h⟩ := exists_of_bind_ok h
  obtain rfl := Except.ok.inj h
  unfold ReceiveEnv.headerTarget at hcurrent
  split at hcurrent
  · cases hcurrent
  next _ _ planned hfind =>
    obtain ⟨_, hvalid, -⟩ := exists_of_bind_ok hcurrent
    exact ⟨planned, hfind, hvalid⟩
  next hnone _ => cases hnone

/-- **The question keeps what the header says**, but for where the entry goes. -/
theorem prepare_keeps (h : env.prepare plan header d = .ok p d') :
    (∃ setup current, env.entrySetup d.tree plan header = .ok setup ∧ setup.header = header ∧
        p.setup = { setup with currentPath := current }) ∧
      (Phase.await p).Marked := by
  simp only [ReceiveEnv.prepare, bind_tree, bind_check_ok] at h
  obtain ⟨setup, hsetup, h⟩ := h
  have hheader := entrySetup_header hsetup
  split_ifs at h with hlink hdir
  · obtain ⟨current, marker, rfl⟩ := prepareSymlink_ok h
    refine ⟨⟨setup, current, hsetup, hheader, rfl⟩, ?_⟩
    exact ⟨by rwa [hheader], rfl⟩
  · obtain ⟨current, rfl⟩ := prepareDirectory_ok h
    refine ⟨⟨setup, current, hsetup, hheader, rfl⟩, ?_⟩
    show headerKind setup.header setup.relative setup.declaredSize = "dir"
    rw [headerKind, hheader, if_neg hlink, if_pos hdir]
  · simp only [ReceiveEnv.prepareFile, bind_tree] at h
    split_ifs at h
    · rw [bind_status] at h
      obtain ⟨rfl, -⟩ := pure_ok.mp h
      exact ⟨⟨setup, setup.currentPath, hsetup, hheader, rfl⟩, trivial⟩
    · rw [bind_tree] at h
      split_ifs at h
      · obtain ⟨rfl, -⟩ := pure_ok.mp h
        exact ⟨⟨setup, setup.currentPath, hsetup, hheader, rfl⟩, trivial⟩
      · obtain ⟨current, part, hashed, prefixSha256, rfl, -⟩ := preparePayload_ok h
        exact ⟨⟨setup, current, hsetup, hheader, rfl⟩, trivial⟩

/-- What is taken for an answer is one. -/
theorem recvResumeAck_frame {requested declared accepted : Nat} {relative : String}
    (h : recvResumeAck frame requested declared relative = .ok accepted) : ∃ message, frame = .resumeAck message := by
  cases frame with
  | resumeAck message => exact ⟨message, rfl⟩
  | _ => cases h

/-- An open partial file belongs to the session it was opened for. -/
theorem openPart_setup {session : PayloadSession} (h : env.openPart session d = .ok next d') :
    next.setup? = some session.setup ∧ next.Marked := by
  rw [ReceiveEnv.openPart, bind_tree] at h
  cases hp : env.partPlace d.tree session.partPath with
  | none =>
    rw [hp] at h
    exact absurd h throw_ne_ok
  | some place =>
    rw [hp] at h
    obtain ⟨rfl, -⟩ := pure_ok.mp h
    exact ⟨rfl, trivial⟩

/-- **So does the answer.** -/
theorem settle_keeps (hp : (Phase.await p).Sound env d.tree) (hm : (Phase.await p).Marked)
    (h : env.settle p frame d = .ok next d') :
    (∃ message, frame = .resumeAck message) ∧
      (∃ current, next.setup? = some { p.setup with currentPath := current }) ∧ next.Marked := by
  obtain ⟨result, d₁, hack, hnext⟩ := bind_ok.mp h
  cases p with
  | marker setup marker =>
    simp only [ReceiveEnv.onAck, bind_check_ok] at hack
    obtain ⟨_, hframe, hack⟩ := hack
    obtain ⟨rfl, rfl⟩ := pure_ok.mp hack
    obtain ⟨rfl, -⟩ := pure_ok.mp hnext
    exact ⟨recvResumeAck_frame hframe, ⟨setup.currentPath, rfl⟩, hm⟩
  | conflictSkip setup =>
    simp only [ReceiveEnv.onAck, bind_check_ok] at hack
    obtain ⟨_, hframe, hack⟩ := hack
    split_ifs at hack
    · exact absurd hack throw_ne_ok
    · obtain ⟨rfl, rfl⟩ := pure_ok.mp hack
      obtain ⟨rfl, -⟩ := pure_ok.mp hnext
      exact ⟨recvResumeAck_frame hframe, ⟨setup.currentPath, rfl⟩, trivial⟩
  | duplicate setup =>
    simp only [ReceiveEnv.onAck, bind_check_ok] at hack
    obtain ⟨_, hframe, hack⟩ := hack
    split_ifs at hack
    · -- not confirmed: the next question is about the same entry
      obtain ⟨p', d₂, hprep, hack⟩ := bind_ok.mp hack
      obtain ⟨rfl, rfl⟩ := pure_ok.mp hack
      obtain ⟨rfl, -⟩ := pure_ok.mp hnext
      obtain ⟨current, part, hashed, prefixSha256, rfl, -⟩ := preparePayload_ok hprep
      exact ⟨recvResumeAck_frame hframe, ⟨current, rfl⟩, trivial⟩
    · obtain ⟨_, d₂, -, hack⟩ := bind_ok.mp hack
      rw [bind_status] at hack
      obtain ⟨rfl, rfl⟩ := pure_ok.mp hack
      obtain ⟨rfl, -⟩ := pure_ok.mp hnext
      exact ⟨recvResumeAck_frame hframe, ⟨setup.currentPath, rfl⟩, trivial⟩
  | payload setup part hashed prefixSha256 =>
    simp only [ReceiveEnv.onAck, bind_check_ok] at hack
    obtain ⟨accepted, hframe, hack⟩ := hack
    obtain ⟨session, d₂, hacc, hack⟩ := bind_ok.mp hack
    obtain ⟨rfl, rfl⟩ := pure_ok.mp hack
    have hsame : session.setup = setup := (acceptOffset_offered hp (recvResumeAck_le hframe) hacc).1
    obtain ⟨hopen, hmarked⟩ := openPart_setup hnext
    exact ⟨recvResumeAck_frame hframe, ⟨setup.currentPath, by rw [hopen, hsame]; rfl⟩, hmarked⟩

end Session

/-! ## What a trailer commits

The digest is taken of what is on the disk or of what has gone through the hasher; either way it
is the digest of the bytes that are then moved. -/

section Commit

variable {env : ReceiveEnv} {d d' : Disk} {part current : FsPath} {relative expected actual : String}
  {size received : Nat} {out : Place} {content : Bytes}

theorem Stored.status (h : Stored env d.tree part out content) :
    env.symlinkStatus d.tree part = some (.file content) := by
  show lstat d.tree env.cwd part = some (.file content)
  rw [lstat, h.located, Option.bind_some, look, if_neg h.ne, h.holds]

theorem verifyReceivedDigest_ok
    (h : env.verifyReceivedDigest part relative received size expected actual d = .ok () d') :
    d' = d ∧ env.fileSize d.tree part = some size ∧ actual = expected := by
  simp only [ReceiveEnv.verifyReceivedDigest, bind_tree] at h
  cases hcheck : env.receivedError d.tree part relative received size expected actual with
  | none =>
    simp only [hcheck] at h
    obtain ⟨-, rfl⟩ := pure_ok.mp h
    unfold ReceiveEnv.receivedError at hcheck
    split_ifs at hcheck with _ hstored hdigest
    exact ⟨rfl, not_not.mp hstored, not_not.mp hdigest⟩
  | some e =>
    simp only [hcheck] at h
    obtain ⟨_, _, -, h⟩ := bind_ok.mp h
    exact absurd h throw_ne_ok

/-- The partial file is moved to the target as it is. -/
theorem finalizePartFile_ok (hstored : Stored env d.tree part out content)
    (h : env.finalizePartFile part current d = .ok () d') :
    ∃ target, locate d.tree env.cwd current = some target ∧ d'.tree target = some (.file content) := by
  simp only [ReceiveEnv.finalizePartFile, bind_tree, hstored.located, hstored.holds, Option.bind_some,
    Option.map_some] at h
  rw [ReceiveEnv.atomicReplaceFile, bind_tree] at h
  cases htarget : locate d.tree env.cwd current with
  | none =>
    rw [htarget] at h
    exact absurd h throw_ne_ok
  | some target =>
    simp only [htarget] at h
    split_ifs at h
    · exact absurd h throw_ne_ok
    · obtain rfl := change_ok.mp h
      exact ⟨target, rfl, Tree.set_self ..⟩

/-- **What is committed is whole**: the partial file as it was received, of the declared size, with
    the digest that was asked for. The digest was taken on the way, or is taken of the file now. -/
theorem completeReceived_ok {session : PayloadSession} {total : Nat}
    (hstored : Stored env d.tree session.partPath out content)
    (hactual : actual = env.prims.sha256Hex content ∨ actual = "")
    (h : env.completeReceived session expected received actual d = .ok total d') :
    content.length = session.setup.declaredSize ∧ env.prims.sha256Hex content = expected ∧
      ∃ target, locate d.tree env.cwd session.setup.currentPath = some target ∧
        d'.tree target = some (.file content) := by
  have hread : readFile d.tree env.cwd session.partPath = some content := readFile_of_lstat hstored.status
  have hsize {size : Nat} (h : env.fileSize d.tree session.partPath = some size) : content.length = size := by
    rw [ReceiveEnv.fileSize, hread] at h
    exact Option.some.inj h
  simp only [ReceiveEnv.completeReceived, bind_tree, bind_check_ok] at h
  obtain ⟨_, -, _, -, h⟩ := h
  have hend {d₁ : Disk} (h : (env.finalizePartFile session.partPath session.setup.currentPath >>= fun _ =>
      env.applyFileMetadata session.setup.currentPath session.setup.header >>= fun _ =>
        pure session.setup.declaredSize) d₁ = .ok total d') (hsame : d₁ = d) :
      ∃ target, locate d.tree env.cwd session.setup.currentPath = some target ∧
        d'.tree target = some (.file content) := by
    obtain ⟨_, d₂, hmove, h⟩ := bind_ok.mp h
    obtain ⟨_, d₃, hmeta, h⟩ := bind_ok.mp h
    obtain ⟨-, rfl⟩ := pure_ok.mp h
    obtain ⟨target, hlocate, hnode⟩ := finalizePartFile_ok (hsame ▸ hstored) hmove
    refine ⟨target, hsame ▸ hlocate, ?_⟩
    rw [((applyFileMetadata_tree _).ok hmeta).1]
    exact hnode
  split_ifs at h with hempty
  · obtain ⟨_, d₁, hverify, h⟩ := bind_ok.mp h
    simp only [ReceiveEnv.verifyPartFileDigest, bind_tree, hread] at hverify
    obtain ⟨hsame, hfile, hdigest⟩ := verifyReceivedDigest_ok hverify
    exact ⟨hsize hfile, hdigest, hend h hsame⟩
  · obtain ⟨_, d₁, hverify, h⟩ := bind_ok.mp h
    obtain ⟨hsame, hfile, hdigest⟩ := verifyReceivedDigest_ok hverify
    exact ⟨hsize hfile, (hactual.resolve_right hempty).symm.trans hdigest, hend h hsame⟩

end Commit

/-! ## From the manifest to `Done`

The counting argument: distinct paths, each counted once, as many as there are entries. It is
made once, for lists (`Counted.all`), and the steps only have to keep `Counted`. -/

/-- The plan of a manifest has counted the headers that were accepted: each once, and each as the
    header of an entry. -/
structure Counted (env : ReceiveEnv) (manifest : TransferManifest) (plan : ReceivePlan) (accepted : List Message) :
    Prop where
  made : ∃ t, PlanMade env t manifest.entries { plan with receivedPaths := [] }
  received : plan.receivedPaths = accepted.map (·.get "path")
  once : plan.receivedPaths.Nodup
  announced : ∀ header ∈ accepted, ∃ entry ∈ manifest.entries, Announces header entry

/-- What holds of a receiver that has not thrown. All the headers it has accepted have ended, but
    for the one of the entry it is at. -/
structure Accounted (env : ReceiveEnv) (s : Intake) (h : History) : Prop where
  early : s.sawFileHeader = false → h.accepted = [] ∧ h.completed = []
  counted : ∀ text, h.manifest = some text → ∃ manifest plan,
    decodeTransferManifest env.prims text = .ok manifest ∧ s.plan = some plan ∧
      Counted env manifest plan h.accepted
  ended : ∃ closed, h.accepted = closed ++ (s.phase.setup?.map (·.header)).toList ∧
    List.Forall₂ (Completes env.prims) closed h.completed
  complete : s.phase = .finished → validateReceivePlanComplete s.plan = .ok ()

/-- What is related to each of a list, in its order. -/
theorem exists_forall₂ {α β : Type} {R : α → β → Prop} {l : List α} {m : List β}
    (h : ∀ a ∈ l, ∃ b ∈ m, R a b) : ∃ order, List.Forall₂ R l order ∧ order ⊆ m := by
  induction l with
  | nil => exact ⟨[], .nil, List.nil_subset m⟩
  | cons a l ih =>
    obtain ⟨b, hb, hab⟩ := h a (List.mem_cons_self ..)
    obtain ⟨order, hrest, hsub⟩ := ih fun a' ha' => h a' (List.mem_cons_of_mem _ ha')
    exact ⟨b :: order, .cons hab hrest, List.cons_subset.mpr ⟨hb, hsub⟩⟩

section Counting

variable {env : ReceiveEnv} {s s' : Intake} {h : History} {f : Option Frame} {manifest : TransferManifest}
  {plan : ReceivePlan} {header : Message} {accepted : List Message} {d : Disk}

/-- The entries of a plan have the paths of the manifest. -/
theorem PlanMade.paths {t : Tree} {entries : List TransferManifestEntry} (h : PlanMade env t entries plan) :
    plan.entries.map (·.1) = entries.map (·.path) := by
  rw [← h.manifests, List.map_map]
  exact List.map_congr_left h.keys

/-- A manifest is taken before the first header. -/
theorem Counted.start {t : Tree} (h : PlanMade env t manifest.entries plan) : Counted env manifest plan [] where
  made := ⟨t, h.received ▸ h⟩
  received := h.received
  once := h.received ▸ List.nodup_nil
  announced := by simp

/-- A header that is counted is the header of an entry that had none. -/
theorem Counted.take {recorded : Option ReceivePlan} {setup : EntrySetup} {t : Tree}
    (h : Counted env manifest plan accepted)
    (hrecord : recordReceivePlanHeader (some plan) (header.get "path") = .ok recorded)
    (hsetup : env.entrySetup t recorded header = .ok setup) :
    ∃ plan', recorded = some plan' ∧ Counted env manifest plan' (accepted ++ [header]) := by
  obtain ⟨hnone, -⟩ | ⟨_, heq, hnew, -, rfl⟩ := recordReceivePlanHeader_ok hrecord
  · cases hnone
  obtain rfl := Option.some.inj heq
  refine ⟨_, rfl, h.made, ?_, ?_, ?_⟩
  · show plan.receivedPaths ++ [header.get "path"] = _
    rw [h.received, List.map_append, List.map_singleton]
  · show (plan.receivedPaths ++ [header.get "path"]).Nodup
    rw [List.nodup_append]
    refine ⟨h.once, by simp, ?_⟩
    intro path hpath path' hpath' heq
    rw [List.mem_singleton.mp hpath'] at heq
    exact hnew (heq ▸ hpath)
  · intro other hother
    rcases List.mem_append.mp hother with hother | hother
    · exact h.announced other hother
    obtain rfl := List.mem_singleton.mp hother
    obtain ⟨planned, hfind, hvalid⟩ := entrySetup_planned hsetup
    obtain ⟨hkind, hsize, htarget⟩ := validateReceivePlanHeader_ok hvalid
    obtain ⟨t, hmade⟩ := h.made
    have hmem : (other.get "path", planned) ∈ plan.entries := find_mem hfind
    have hpath : other.get "path" = planned.manifest.path := hmade.keys _ hmem
    refine ⟨planned.manifest, ?_, hpath, ?_, ?_, fun hlink => (htarget hlink).symm⟩
    · rw [← hmade.manifests]
      exact List.mem_map.mpr ⟨_, hmem, rfl⟩
    · rw [hsize]
      exact (entrySetup_ok hsetup).2.2.1
    · rw [← hpath, hsize]
      exact hkind.symm

theorem announced_paths {order : List TransferManifestEntry} (h : List.Forall₂ Announces accepted order) :
    order.map (·.path) = accepted.map (·.get "path") := by
  induction h with
  | nil => rfl
  | cons hfirst _ ih => rw [List.map_cons, List.map_cons, ih, hfirst.path]

/-- **A count that is complete leaves nothing out**, since no path is counted twice. -/
theorem Counted.all (h : Counted env manifest plan accepted)
    (hall : validateReceivePlanComplete (some plan) = .ok ()) :
    (manifest.entries.map (·.path)).Nodup ∧
      ∃ order, order.Perm manifest.entries ∧ List.Forall₂ Announces accepted order := by
  obtain ⟨t, hmade⟩ := h.made
  have hlength : plan.receivedPaths.length = plan.entries.length := by
    unfold validateReceivePlanComplete at hall
    dsimp only at hall
    split_ifs at hall with hlength
    · exact hlength
    · split at hall <;> cases hall
  have hpaths : plan.entries.map (·.1) = manifest.entries.map (·.path) := hmade.paths
  refine ⟨hpaths ▸ hmade.nodup, ?_⟩
  obtain ⟨order, hannounced, hsub⟩ := exists_forall₂ h.announced
  have hsame : order.map (·.path) = plan.receivedPaths := h.received ▸ announced_paths hannounced
  refine ⟨order, ?_, hannounced⟩
  have hnodup : order.Nodup := List.Nodup.of_map (·.path) (hsame ▸ h.once)
  refine (List.subperm_of_subset hnodup hsub).perm_of_length_le ?_
  have hcount := congrArg List.length hpaths
  have hsame' := congrArg List.length hsame
  rw [List.length_map, List.length_map] at hcount
  rw [List.length_map] at hsame'
  omega

end Counting

section Steps

variable {env : ReceiveEnv} {s s' : Intake} {h : History} {f : Option Frame} {d : Disk}

/-- An operation has been done, or it has thrown. -/
theorem Intake.after_cases {α : Type} (s : Intake) (m : ReceiveM α) (next : α → Phase) :
    (∃ a d, m s.disk = .ok a d ∧ s.after m next = { s with disk := d, phase := next a }) ∨
      ∃ e, (s.after m next).phase = .thrown e := by
  unfold Intake.after
  cases hm : m s.disk with
  | ok a d => exact .inl ⟨a, d, rfl, rfl⟩
  | error e d => exact .inr ⟨e, rfl⟩

/-- A marker is the one of its entry in every phase. -/
theorem Intake.Step.marked (hstep : Intake.Step env s f s') (hs : s.Sound env) (hm : s.phase.Marked) :
    s'.phase.Marked := by
  cases hstep with
  | manifest => exact hm
  | @header header recorded hphase hpath hrecord =>
    rcases Intake.after_cases { s with plan := recorded, sawFileHeader := true } (env.prepare recorded header) .await
      with ⟨p, d, hprep, hafter⟩ | ⟨e, hafter⟩
    · rw [hafter]
      exact (prepare_keeps hprep).2
    · rw [hafter]
      trivial
  | @ack p frame hphase =>
    have hsound := hs.disk
    rw [hphase] at hm hsound
    rcases s.after_cases (env.settle p frame) id with ⟨next, d, hsettle, hafter⟩ | ⟨e, hafter⟩
    · rw [hafter]
      exact (settle_keeps hsound hm hsettle).2.2
    · rw [hafter]
      trivial
  | put hphase hquiet hnext =>
    rcases hnext with rfl | rfl | ⟨e, rfl⟩
    · trivial
    · trivial
    · trivial
  | @marker setup marker trailer hphase =>
    rcases s.after_cases (env.completeMarker setup marker) fun _ => .idle with ⟨_, d, -, hafter⟩ | ⟨e, hafter⟩
    · rw [hafter]
      trivial
    · rw [hafter]
      trivial
  | skipped => trivial
  | @commit session trailer size actual hphase =>
    rcases s.after_cases (env.completeReceived session (trailer.get "sha256") size actual) fun _ => .idle
      with ⟨_, d, -, hafter⟩ | ⟨e, hafter⟩
    · rw [hafter]
      trivial
    · rw [hafter]
      trivial
  | done => trivial
  | stay => exact hm
  | fail => trivial

/-- What belongs to a payload is not remembered. -/
theorem observe_quiet (hquiet : Quiet f) : h.observe env s f s' = h := by
  cases f with
  | none => rfl
  | some frame =>
    cases frame with
    | data _ => rfl
    | chunkEnd => rfl
    | _ => exact hquiet.elim

/-- An entry that is open has ended, and is remembered. -/
theorem Accounted.close (ha : Accounted env s h) {setup : EntrySetup} {trailer : Message} {how : How}
    (hsetup : s.phase.setup? = some setup) (hidle : s'.phase = .idle)
    (hending : s.ending env trailer s' = some { setup := setup, how := how })
    (hwhole : how.Whole env.prims setup) (hplan : s'.plan = s.plan)
    (hsaw : s'.sawFileHeader = s.sawFileHeader) :
    Accounted env s' (h.observe env s (some (.fileEnd trailer)) s') := by
  have hobserve : h.observe env s (some (.fileEnd trailer)) s' =
      { h with completed := h.completed ++ [{ setup := setup, how := how }] } := by
    simp only [History.observe, hidle, hending, Option.toList_some]
  obtain ⟨closed, haccepted, hclosed⟩ := ha.ended
  rw [hobserve]
  rw [hsetup, Option.map_some, Option.toList_some] at haccepted
  refine ⟨fun hno => ?_, fun text htext => ?_, ⟨closed ++ [setup.header], ?_, ?_⟩, fun hend => ?_⟩
  · -- an entry that is open has had its header
    have hnone := (ha.early (hsaw ▸ hno)).1
    rw [haccepted] at hnone
    simp at hnone
  · rw [hplan]
    exact ha.counted text htext
  · rw [haccepted, hidle]
    simp [Phase.setup?]
  · exact List.rel_append hclosed (.cons ⟨rfl, hwhole⟩ .nil)
  · rw [hidle] at hend
    cases hend

/-- A header has been accepted. -/
theorem Accounted.asked (ha : Accounted env s h) {header : Message} {recorded : Option ReceivePlan} {p : Pending}
    (hphase : s.phase = .idle) (hrecord : recordReceivePlanHeader s.plan (header.get "path") = .ok recorded)
    (hprep : env.prepare recorded header s.disk = .ok p d) :
    Accounted env { s with disk := d, plan := recorded, sawFileHeader := true, phase := .await p }
      { h with accepted := h.accepted ++ [header] } := by
  obtain ⟨⟨setup, current, hsetup, hheader, hsame⟩, -⟩ := prepare_keeps hprep
  obtain ⟨closed, haccepted, hclosed⟩ := ha.ended
  rw [hphase] at haccepted
  refine ⟨fun hno => ?_, fun text htext => ?_, ⟨closed, ?_, hclosed⟩, fun hend => ?_⟩
  · cases hno
  · obtain ⟨manifest, plan, hdecode, hplan, hcounted⟩ := ha.counted text htext
    rw [hplan] at hrecord
    obtain ⟨plan', rfl, hcounted'⟩ := hcounted.take hrecord hsetup
    exact ⟨manifest, plan', hdecode, rfl, hcounted'⟩
  · show h.accepted ++ [header] = closed ++ [p.setup.header]
    rw [haccepted, hsame, hheader]
    simp [Phase.setup?]
  · cases hend

/-- A payload has been committed. -/
theorem Accounted.committed (hs : s.Sound env) (ha : Accounted env s h) {session : PayloadSession}
    {trailer : Message} {size total : Nat} {actual : String} (hphase : Intake.Digested env s.phase session actual)
    (hcomplete : env.completeReceived session (trailer.get "sha256") size actual s.disk = .ok total d) :
    Accounted env { s with disk := d, phase := .idle }
      (h.observe env s (some (.fileEnd trailer)) { s with disk := d, phase := .idle }) := by
  obtain ⟨hsetup, out, content, hstored, hactual⟩ : s.phase.setup? = some session.setup ∧ ∃ out content,
      Stored env s.disk.tree session.partPath out content ∧
        (actual = env.prims.sha256Hex content ∨ actual = "") := by
    have hsound := hs.disk
    generalize s.phase = phase at hphase hsound
    cases hphase with
    | @hashed session out content => exact ⟨rfl, out, content, hsound, .inl rfl⟩
    | found =>
      obtain ⟨out, content, hstored⟩ := hsound
      exact ⟨rfl, out, content, hstored, .inr rfl⟩
  obtain ⟨hsize, hdigest, target, hlocate, hnode⟩ := completeReceived_ok hstored hactual hcomplete
  refine ha.close hsetup rfl ?_ (.committed hsize) rfl rfl
  have hending : s.ending env trailer { s with disk := d, phase := .idle } =
      some { setup := session.setup, how := .committed (some (.file content)) (trailer.get "sha256") } := by
    unfold Intake.ending
    generalize s.phase = phase at hphase
    cases hphase with
    | hashed => simp only [hlocate, Option.bind_some, hnode]
    | found => simp only [hlocate, Option.bind_some, hnode]
  rw [hending, hdigest]

/-- **Every step that does not throw keeps the account.** -/
theorem Accounted.step (hs : s.Sound env) (hm : s.phase.Marked) (hlive : s.phase.over = false) (ha : Accounted env s h)
    (hstep : Intake.Step env s f s') (hgo : ∀ e, s'.phase ≠ .thrown e) :
    Accounted env s' (h.observe env s f s') := by
  cases hstep with
  -- no header has been accepted so far, so the count starts at nothing
  | @manifest text manifest plan d hlate honce hdecode hplan =>
    have hidle : s.phase = .idle := (hs.early hlate).resolve_right (by rw [hlive]; decide)
    obtain ⟨⟨summary, hmade⟩, -, -⟩ := preflightTransferManifest_ok hplan
    obtain ⟨hnone, hnone'⟩ := ha.early hlate
    have hobserve : h.observe env s (some (.manifest text))
        { s with disk := d, plan := some plan, sawManifest := true } = { h with manifest := some text } := by
      simp only [History.observe, hidle]
    rw [hobserve]
    refine ⟨ha.early, fun text' htext => ?_, ha.ended, fun hend => ?_⟩
    · obtain rfl := Option.some.inj htext
      refine ⟨manifest, plan, hdecode, rfl, ?_⟩
      show Counted env manifest plan h.accepted
      rw [hnone]
      exact Counted.start (preflight_made hmade)
    · cases hidle.symm.trans hend
  -- a header is counted before it is asked about, and its entry is open from here on
  | @header header recorded hphase hpath hrecord =>
    rcases Intake.after_cases { s with plan := recorded, sawFileHeader := true } (env.prepare recorded header) .await
      with ⟨p, d, hprep, hafter⟩ | ⟨e, hafter⟩
    · rw [hafter]
      exact ha.asked hphase hrecord hprep
    · exact absurd hafter (hgo e)
  -- the answer settles the entry or fails; the headers are as they were
  | @ack p frame hphase =>
    have hsound := hs.disk
    rw [hphase] at hm hsound
    rcases s.after_cases (env.settle p frame) id with ⟨next, d, hsettle, hafter⟩ | ⟨e, hafter⟩
    · obtain ⟨⟨message, rfl⟩, ⟨current, hsetup⟩, -⟩ := settle_keeps hsound hm hsettle
      rw [hafter]
      refine ⟨ha.early, ha.counted, ?_, fun hend => ?_⟩
      · obtain ⟨closed, haccepted, hclosed⟩ := ha.ended
        rw [hphase] at haccepted
        exact ⟨closed, by rw [id, hsetup]; exact haccepted, hclosed⟩
      · replace hend : next = .finished := hend
        rw [hend] at hsetup
        cases hsetup
    · exact absurd hafter (hgo e)
  -- a payload goes on in the same entry
  | @put f session out content content' next hphase hquiet hnext =>
    rw [observe_quiet hquiet]
    obtain ⟨closed, haccepted, hclosed⟩ := ha.ended
    rw [hphase] at haccepted
    rcases hnext with rfl | rfl | ⟨e, rfl⟩
    · exact ⟨ha.early, ha.counted, ⟨closed, haccepted, hclosed⟩, nofun⟩
    · exact ⟨ha.early, ha.counted, ⟨closed, haccepted, hclosed⟩, nofun⟩
    · exact absurd rfl (hgo e)
  -- a trailer closes the open entry, and what it says has been checked by then
  | @marker setup marker trailer hphase =>
    rw [hphase] at hm
    rcases s.after_cases (env.completeMarker setup marker) fun _ => .idle with ⟨_, d, -, hafter⟩ | ⟨e, hafter⟩
    · rw [hafter]
      have hsetup : s.phase.setup? = some setup := by rw [hphase]; rfl
      by_cases hskip : ∃ target, marker = .symlink target true
      · obtain ⟨target, rfl⟩ := hskip
        refine ha.close hsetup rfl ?_ .skipped rfl rfl
        simp only [Intake.ending, hphase]
      · refine ha.close hsetup rfl ?_ (.created hm.kind) rfl rfl
        cases marker with
        | directory => simp only [Intake.ending, hphase]
        | symlink target skip =>
          cases skip with
          | true => exact absurd ⟨target, rfl⟩ hskip
          | false => simp only [Intake.ending, hphase]
    · exact absurd hafter (hgo e)
  | @skipped setup trailer hphase =>
    refine ha.close (by rw [hphase]; rfl) rfl ?_ .skipped rfl rfl
    simp only [Intake.ending, hphase]
  | @commit session trailer size actual hphase =>
    rcases s.after_cases (env.completeReceived session (trailer.get "sha256") size actual) fun _ => .idle
      with ⟨total, d, hcomplete, hafter⟩ | ⟨e, hafter⟩
    · rw [hafter]
      exact ha.committed hs hphase hcomplete
    · exact absurd hafter (hgo e)
  | @done hphase hall =>
    refine ⟨ha.early, ha.counted, ?_, fun _ => hall⟩
    have hended := ha.ended
    rw [hphase] at hended
    exact hended
  | stay hquiet =>
    rw [observe_quiet hquiet]
    exact ha
  | @fail f e saw => exact absurd rfl (hgo e)

end Steps

theorem accounted_start (env : ReceiveEnv) (d : Disk) : Accounted env { disk := d } {} where
  early := fun _ => ⟨rfl, rfl⟩
  counted := nofun
  ended := ⟨[], rfl, .nil⟩
  complete := nofun

/-- **Only complete transfers are acknowledged.** Whatever was sent, on either path: where a receiver
    has taken a manifest and returns, the headers it has accepted are those of the manifest's
    entries, each once, and each entry had ended when `Done` was taken. -/
theorem acknowledges_complete (env : ReceiveEnv) (d : Disk) (s : Intake) (h : History) (text : ManifestText)
    (hr : Received env d s h) (hend : s.phase = .finished) (hm : h.manifest = some text) :
    ∃ manifest, decodeTransferManifest env.prims text = .ok manifest ∧ Acknowledged env.prims manifest h := by
  have haccount : s.phase.Marked ∧ ((∀ e, s.phase ≠ .thrown e) → Accounted env s h) := by
    refine hr.invariant (I := fun s h => s.phase.Marked ∧ ((∀ e, s.phase ≠ .thrown e) → Accounted env s h))
      ⟨trivial, fun _ => accounted_start env d⟩ ?_
    intro s h f s' hs hlive ⟨hm, ha⟩ hstep
    refine ⟨hstep.marked hs hm, fun hgo => (ha fun e he => ?_).step hs hm hlive hstep hgo⟩
    rw [he] at hlive
    cases hlive
  have ha := haccount.2 (by rw [hend]; nofun)
  obtain ⟨manifest, plan, hdecode, hplan, hcounted⟩ := ha.counted text hm
  have hall := ha.complete hend
  rw [hplan] at hall
  obtain ⟨hdistinct, hannounced⟩ := hcounted.all hall
  obtain ⟨closed, haccepted, hclosed⟩ := ha.ended
  rw [hend] at haccepted
  obtain rfl : h.accepted = closed := by rw [haccepted]; exact List.append_nil closed
  exact ⟨manifest, hdecode, hannounced, hdistinct, hclosed⟩

/-- A manifest of one file that says `hi!`. -/
def hiManifest : ManifestText where
  entries := [{ path := "hi.txt", size := 3, kind := "file" }]
  count := 1
  totalSize := 3

/-- A transfer with a manifest, to its end. -/
theorem acknowledges_complete_sample : ∃ s h, Received sampleEnv hiDisk s h ∧ s.phase = .finished ∧
    h.manifest = some hiManifest ∧ h.accepted.length = 1 ∧
    ∃ manifest, decodeTransferManifest sampleEnv.prims hiManifest = .ok manifest ∧
      Acknowledged sampleEnv.prims manifest h := by
  obtain ⟨⟨r, h⟩, hr, hlast⟩ := Lts.Reach.exists_of_run
    (watch sampleEnv (StreamRecv.next sampleEnv) (fun _ input => StreamInput.seen input)
      (@StreamRecv.intake storedStream))
    ({ loop := { disk := hiDisk } }, {}) (([Frame.manifest hiManifest] ++ hiWhole "hi.txt" ++ [Frame.done]).map .frame)
    (fun s => s.1.intake.phase = .finished ∧ s.2.manifest = some hiManifest ∧ s.2.accepted.length = 1)
    (by decide +kernel)
  simp only [decide_eq_true_eq] at hlast
  obtain ⟨hfinished, hmanifest, hone⟩ := hlast
  exact ⟨_, h, .stream hr, hfinished, hmanifest, hone,
    acknowledges_complete sampleEnv hiDisk _ h hiManifest (.stream hr) hfinished hmanifest⟩

end Kiko.Transfer
