import Kiko.Transfer.Acknowledged

/-!
# What stands at a target

Whatever is sent to a receiver, and wherever it stops, a place that no partial file of an entry has
had is as it was, or something whole stands there. No path is trusted for this: each operation is
followed to the places it acts on, in the tree as it stands then (`Intake.Step.changes`). Between
the operations the place of an open partial file does not move, since what is written is a leaf.

Directories that are made on the way to an entry are the one thing besides: without a manifest
`a/b` makes the directory `a`, and a file `a` that comes then finds it (`directory_at_target`).

The statement is about every place and every moment, also the ones at which a receiver was stopped.
So what matters is not how an entry ends but which of the operations can change a place that is no
partial file: one can, the move at the end of an entry, and it puts a whole file there in one step.
All others are shown to change nothing but partial files and to make nothing but directories.
-/

set_option autoImplicit false

namespace Kiko.Transfer

open Lexical FileTree Effect

/-! ## What may change

`Changes S` composes, and it grows with `S`: the footprints of operations in sequence are united. -/

/-- Directories may have been made where nothing was, and what stands at the places of `S` may have
    changed; nothing else has. -/
def Changes (S : Place → Prop) (t t' : Tree) : Prop :=
  ∀ p, t' p = t p ∨ t p = none ∧ t' p = some .dir ∨ S p

section Changes

variable {S S' : Place → Prop} {t t' t'' : Tree} {place : Place} {node : Node Bytes}

theorem Changes.refl (S : Place → Prop) (t : Tree) : Changes S t t := fun _ => .inl rfl

theorem Changes.mono (h : Changes S t t') (hS : ∀ p, S p → S' p) : Changes S' t t' := by
  intro p
  exact (h p).imp_right fun h => h.imp_right (hS p)

theorem Changes.trans (h : Changes S t t') (h' : Changes S t' t'') : Changes S t t'' := by
  intro p
  rcases h' p with heq' | ⟨hnone', hdir'⟩ | hS
  · rcases h p with heq | ⟨hnone, hdir⟩ | hS
    · exact .inl (heq'.trans heq)
    · exact .inr (.inl ⟨hnone, heq'.trans hdir⟩)
    · exact .inr (.inr hS)
  · rcases h p with heq | ⟨-, hdir⟩ | hS
    · exact .inr (.inl ⟨heq.symm.trans hnone', hdir'⟩)
    · cases hnone'.symm.trans hdir
    · exact .inr (.inr hS)
  · exact .inr (.inr hS)

theorem Changes.of_builds {root : Place} (h : Builds root t t') : Changes S t t' :=
  fun p => (h p).imp_right fun h => .inl ⟨h.1, h.2.1⟩

theorem Changes.set (t : Tree) (hS : S place) : Changes S t (t.set place node) := by
  intro p
  by_cases hp : p = place
  · exact .inr (.inr (hp ▸ hS))
  · exact .inl (Tree.set_of_ne _ _ hp)

theorem Changes.remove (t : Tree) (hS : S place) : Changes S t (t.remove place) := by
  intro p
  by_cases hp : p = place
  · exact .inr (.inr (hp ▸ hS))
  · exact .inl (Tree.remove_of_ne _ hp)

end Changes

/-! ## Up to the question only directories are made -/

section Prepare

variable {env : ReceiveEnv} {d : Disk} {p : FsPath} {setup : EntrySetup}

/-- Only directories have been made. -/
abbrev Making (d d' : Disk) : Prop := Builds [] d.tree d'.tree

theorem Making.refl (d : Disk) : Making d d := Builds.refl [] d.tree

theorem createDirectories_builds : Ensures (Making d) (fun _ _ => True) (env.createDirectories p) d := by
  refine ensures_tree_bind ?_
  split
  next made hmade =>
    split_ifs at hmade
    exact ensures_modify (mkdirs_builds hmade) trivial
  next => exact ensures_throw (.refl d)

theorem createParent_builds : Ensures (Making d) (fun _ _ => True) (env.createParent p) d := by
  unfold ReceiveEnv.createParent
  split_ifs
  · exact ensures_pure (.refl d) trivial
  · exact createDirectories_builds

theorem resolveConflictPath_builds :
    Ensures (Making d) (fun _ _ => True) (env.resolveConflictPath setup) d := by
  have hlog (text : String) : Making d { d with log := d.log ++ [.status text] } := Builds.refl [] d.tree
  unfold ReceiveEnv.resolveConflictPath
  cases setup.planned with
  | some planned =>
    dsimp only
    split_ifs
    · exact ensures_status_bind (ensures_pure (hlog _) trivial)
    · exact ensures_pure (.refl d) trivial
  | none =>
    refine ensures_tree_bind ?_
    split_ifs
    · refine ensures_tree_bind (ensures_check_bind (.refl d) fun renamed _ => ?_)
      exact ensures_status_bind (ensures_pure (hlog _) trivial)
    · exact ensures_pure (.refl d) trivial

/-- A sequence of operations that make directories. -/
theorem Making.bind {α β : Type} {m : ReceiveM α} {f : α → ReceiveM β}
    (h : Ensures (Making d) (fun _ _ => True) m d)
    (hf : ∀ a d', Ensures (Making d') (fun _ _ => True) (f a) d') :
    Ensures (Making d) (fun _ _ => True) (m >>= f) d := by
  refine h.bind fun a d' hmade _ => ?_
  exact (hf a d').mono (fun _ h => hmade.trans h) fun _ _ _ h => h

theorem Making.changes {α : Type} {m : ReceiveM α} {S : Place → Prop}
    (h : Ensures (Making d) (fun _ _ => True) m d) :
    Ensures (fun d' => Changes S d.tree d'.tree) (fun _ _ => True) m d :=
  h.mono (fun _ h => .of_builds h) fun _ _ _ h => h

theorem applyFileMetadata_builds (header : Message) :
    Ensures (Making d) (fun _ _ => True) (env.applyFileMetadata p header) d :=
  (applyFileMetadata_tree header).mono (fun d' h => by rw [Making, h]; exact .refl [] d.tree) fun _ _ _ h => h

theorem offerPartial_builds : Ensures (Making d) (fun _ _ => True) (env.offerPartial setup p) d := by
  refine ensures_tree_bind (ensures_check_bind (.refl d) fun _ _ => ?_)
  refine ensures_tree_bind (ensures_check_bind (.refl d) fun have_ _ => ensures_tree_bind ?_)
  split
  · exact ensures_pure (.refl d) trivial
  · exact ensures_pure (.refl d) trivial

theorem preparePayload_builds : Ensures (Making d) (fun _ _ => True) (env.preparePayload setup) d := by
  refine Making.bind resolveConflictPath_builds fun current d₁ => ?_
  refine ensures_tree_bind (ensures_check_bind (.refl d₁) fun _ _ => ?_)
  exact Making.bind createParent_builds fun _ d₂ => offerPartial_builds

theorem prepare_builds (plan : Option ReceivePlan) (header : Message) :
    Ensures (Making d) (fun _ _ => True) (env.prepare plan header) d := by
  refine ensures_tree_bind (ensures_check_bind (.refl d) fun setup _ => ?_)
  split_ifs
  · refine ensures_check_bind (.refl d) fun _ _ => ensures_tree_bind ?_
    split_ifs
    · refine ensures_status_bind (ensures_tree_bind ?_)
      exact ensures_check_bind (Builds.refl [] d.tree) fun _ _ => ensures_pure (Builds.refl [] d.tree) trivial
    · refine Making.bind resolveConflictPath_builds fun current d₁ => ensures_tree_bind ?_
      exact ensures_check_bind (.refl d₁) fun _ _ => ensures_pure (.refl d₁) trivial
  · refine ensures_tree_bind (ensures_check_bind (.refl d) fun _ _ => ?_)
    refine Making.bind createDirectories_builds fun _ d₁ => ?_
    exact Making.bind (applyFileMetadata_builds _) fun _ d₂ => ensures_pure (.refl d₂) trivial
  · refine ensures_tree_bind ?_
    split_ifs
    · exact ensures_status_bind (ensures_pure (Builds.refl [] d.tree) trivial)
    · refine ensures_tree_bind ?_
      split_ifs
      · exact ensures_pure (.refl d) trivial
      · exact preparePayload_builds

end Prepare

/-! ## The answer changes the partial file -/

/-- The partial path a phase is about. -/
def Phase.part? : Phase → Option FsPath
  | .await (.payload _ part _ _) => some part
  | .payload session _ _ | .received session => some session.partPath
  | _ => none

section Answer

variable {env : ReceiveEnv} {d : Disk} {setup : EntrySetup} {part : FsPath} {hashed : Bytes} {p : Pending}

/-- What stands where a path leads may have changed, and the path still leads there. -/
def Rewrites (env : ReceiveEnv) (part : FsPath) (d d' : Disk) : Prop :=
  Changes (fun p => locate d.tree env.cwd part = some p) d.tree d'.tree ∧
    locate d'.tree env.cwd part = locate d.tree env.cwd part

theorem Rewrites.refl (env : ReceiveEnv) (part : FsPath) (d : Disk) : Rewrites env part d d :=
  ⟨.refl _ d.tree, rfl⟩

theorem Rewrites.trans {d' d'' : Disk} (h : Rewrites env part d d') (h' : Rewrites env part d' d'') :
    Rewrites env part d d'' := by
  refine ⟨h.1.trans (h'.1.mono fun p hp => ?_), h'.2.trans h.2⟩
  rwa [← h.2]

theorem Rewrites.set {place : Place} {content : Bytes} {d' : Disk} (hlocate : locate d.tree env.cwd part = some place)
    (hleaf : Leaf d.tree place) (htree : d'.tree = d.tree.set place (.file content)) : Rewrites env part d d' := by
  rw [Rewrites, htree]
  exact ⟨.set d.tree hlocate, locate_set_file hleaf _ _⟩

theorem resizeFile_rewrites {declared size : Nat} {relative : String} (hoff : Offered env d.tree part declared hashed) :
    Ensures (Rewrites env part d) (fun _ _ => True) (env.resizeFile part size relative) d := by
  refine ensures_tree_bind ?_
  split
  next place content hplace =>
    obtain ⟨hlocate, hleaf, -, -⟩ := partPlace_offered hoff hplace
    refine ensures_tree_bind ?_
    split_ifs
    · exact ensures_throw (.refl env part d)
    · exact ensures_tree_bind (ensures_modify (.set hlocate hleaf rfl) trivial)
  next => exact ensures_throw (.refl env part d)

theorem acceptOffset_rewrites {accepted : Nat} (hoff : Offered env d.tree part setup.declaredSize hashed) :
    Ensures (Rewrites env part d) (fun s _ => s.partPath = part) (env.acceptOffset setup part hashed accepted) d := by
  have hlog (text : String) : Rewrites env part d { d with log := d.log ++ [.status text] } := .refl env part d
  unfold ReceiveEnv.acceptOffset
  by_cases hfull : accepted = hashed.length
  · rw [if_pos hfull]
    exact ensures_pure (.refl env part d) rfl
  · rw [if_neg hfull]
    refine ensures_status_bind (ensures_tree_bind ?_)
    split
    · exact ensures_throw (hlog _)
    · have hresize : Ensures (Rewrites env part d) (fun _ _ => True) (env.resizeFile part accepted setup.relative)
          { d with log := d.log ++ [.status ("resume rejected, restarting " ++ setup.relative)] } :=
        @resizeFile_rewrites env { d with log := d.log ++ [.status ("resume rejected, restarting " ++ setup.relative)] }
          part hashed setup.declaredSize accepted setup.relative hoff
      exact hresize.bind fun _ d' h _ => ensures_pure h rfl

theorem openPart_rewrites {session : PayloadSession} (hr : Ready env d.tree session) :
    Ensures (Rewrites env session.partPath d) (fun _ _ => True) (env.openPart session) d := by
  refine ensures_tree_bind ?_
  split
  · exact ensures_throw (.refl env _ d)
  next place content hplace =>
    obtain ⟨hlocate, hleaf, -, -⟩ := partPlace_offered hr.offered hplace
    exact (ensures_modify (Q := fun _ _ => True) (.set hlocate hleaf rfl) trivial).bind fun _ d' h _ =>
      ensures_pure h trivial

/-- The places the answer to a question may change. -/
abbrev Pending.Alters (env : ReceiveEnv) (p : Pending) (d : Disk) (q : Place) : Prop :=
  ∃ part, (Phase.await p).part? = some part ∧ locate d.tree env.cwd part = some q

theorem onAck_changes (frame : Frame) (hp : (Phase.await p).Sound env d.tree) :
    Ensures (fun d' => Changes (p.Alters env d) d.tree d'.tree)
      (fun result d' => ∀ session, result = .inl (.receivePayload session) →
        (Phase.await p).part? = some session.partPath ∧ Rewrites env session.partPath d d')
      (env.onAck p frame) d := by
  have hrefl : Changes (p.Alters env d) d.tree d.tree := .refl _ _
  cases p with
  | marker setup marker => exact ensures_check_bind hrefl fun _ _ => ensures_pure hrefl nofun
  | conflictSkip setup =>
    refine ensures_check_bind hrefl fun accepted _ => ?_
    split_ifs
    · exact ensures_throw hrefl
    · exact ensures_pure hrefl nofun
  | duplicate setup =>
    refine ensures_check_bind hrefl fun accepted _ => ?_
    split_ifs
    · exact (Making.changes preparePayload_builds).bind fun p' d₁ hchanged _ => ensures_pure hchanged nofun
    · refine (Making.changes (applyFileMetadata_builds setup.header)).bind fun _ d₁ hchanged _ => ?_
      exact ensures_status_bind (ensures_pure hchanged nofun)
  | payload setup part hashed prefixSha256 =>
    refine ensures_check_bind hrefl fun accepted _ => ?_
    have hto {d' : Disk} (h : Rewrites env part d d') :
        Changes ((Pending.payload setup part hashed prefixSha256).Alters env d) d.tree d'.tree :=
      h.1.mono fun q hq => ⟨part, rfl, hq⟩
    have haccept : Ensures (fun d' => Changes _ d.tree d'.tree)
        (fun s d' => s.partPath = part ∧ Rewrites env part d d') (env.acceptOffset setup part hashed accepted) d :=
      (acceptOffset_rewrites hp).mono (fun _ h => hto h) fun _ _ hR hQ => ⟨hQ, hR⟩
    refine haccept.bind fun s d₁ hchanged ⟨hpath, hrewrites⟩ => ensures_pure hchanged ?_
    intro session hsession
    obtain rfl := Session.receivePayload.inj (Sum.inl.inj hsession)
    exact ⟨congrArg some hpath.symm, hpath.symm ▸ hrewrites⟩

/-- **The answer** changes what stands where the partial path leads, and makes directories. -/
theorem settle_changes (frame : Frame) (hp : (Phase.await p).Sound env d.tree) :
    Ensures (fun d' => Changes (p.Alters env d) d.tree d'.tree) (fun _ _ => True) (env.settle p frame) d := by
  have hready : Ensures (fun _ => True)
      (fun result d' => ∀ session, result = .inl (.receivePayload session) → Ready env d'.tree session)
      (env.onAck p frame) d :=
    ensures_of (fun result d' h => ⟨trivial, fun session hs => (onAck_ready hp).1 session (hs ▸ h)⟩)
      fun _ _ _ => trivial
  refine ((onAck_changes frame hp).and hready).mono (fun _ h => h.1) (fun _ _ _ h => h) |>.bind ?_
  rintro result d₁ hchanged ⟨hsame, hopen⟩
  split
  · exact ensures_pure hchanged trivial
  · exact ensures_pure hchanged trivial
  next session =>
    obtain ⟨hpart, hrewrites⟩ := hsame session rfl
    refine (openPart_rewrites (hopen session rfl)).mono (fun d₂ h => ?_) fun _ _ _ h => h
    exact (hrewrites.trans h).1.mono fun q hq => ⟨session.partPath, hpart, hq⟩
  · exact ensures_pure hchanged trivial

end Answer

/-! ## What a trailer does

Verification and move are one operation of the source with two effects on the tree: a partial file
that is not what was said is removed, one that is goes to its target. -/

section Trailer

variable {env : ReceiveEnv} {d : Disk} {part current : FsPath} {out : Place} {relative expected actual : String}
  {size received : Nat} {content : Bytes}

theorem removeFile_changes (hlocate : locate d.tree env.cwd part = some out) :
    Ensures (fun d' => Changes (· = out) d.tree d'.tree) (fun _ _ => True) (env.removeFile part) d := by
  refine ensures_tree_bind ?_
  rw [hlocate]
  refine ensures_tree_bind ?_
  split_ifs
  · exact ensures_pure (.refl _ d.tree) trivial
  · exact ensures_tree_bind (ensures_modify (.remove d.tree rfl) trivial)

/-- What a verification that passes has found. -/
theorem verifyReceivedDigest_changes (hlocate : locate d.tree env.cwd part = some out) :
    Ensures (fun d' => Changes (· = out) d.tree d'.tree)
      (fun _ d' => d' = d ∧ env.fileSize d.tree part = some size ∧ actual = expected)
      (env.verifyReceivedDigest part relative received size expected actual) d := by
  have hfound : Ensures (fun _ => True) (fun _ d' => d' = d ∧ env.fileSize d.tree part = some size ∧ actual = expected)
      (env.verifyReceivedDigest part relative received size expected actual) d :=
    ensures_of (fun _ _ h => ⟨trivial, verifyReceivedDigest_ok h⟩) fun _ _ _ => trivial
  refine (Ensures.and (Q := fun _ _ => True) ?_ hfound).mono (fun _ h => h.1) fun _ _ _ h => h.2
  refine ensures_tree_bind ?_
  split
  · exact ensures_pure (.refl _ d.tree) trivial
  · exact (removeFile_changes hlocate).bind fun _ _ hchanged _ => ensures_throw hchanged

/-- What is moved comes to stand at the target, and is gone where it was. -/
theorem atomicReplaceFile_changes {source : Place} {node : Node Bytes} {context : String} :
    Ensures (fun d' => Changes (fun p => p = source ∧ d'.tree p = none ∨
        locate d.tree env.cwd current = some p ∧ d'.tree p = some node) d.tree d'.tree)
      (fun _ _ => True) (env.atomicReplaceFile source node current context) d := by
  refine ensures_tree_bind ?_
  split
  · exact ensures_throw (.refl _ d.tree)
  next target hlocate =>
    split_ifs
    · exact ensures_throw (.refl _ d.tree)
    · refine ensures_modify (fun p => ?_) trivial
      by_cases htarget : p = target
      · rw [htarget]
        exact .inr (.inr (.inr ⟨hlocate, Tree.set_self ..⟩))
      have hother : ((d.tree.remove source).set target node) p = d.tree.remove source p := Tree.set_of_ne _ _ htarget
      by_cases hsource : p = source
      · exact .inr (.inr (.inl ⟨hsource, hother.trans (hsource ▸ Tree.remove_self ..)⟩))
      · exact .inl (hother.trans (Tree.remove_of_ne _ hsource))

/-- What a payload's trailer commits. -/
def Lands (env : ReceiveEnv) (d : Disk) (setup : EntrySetup) (expected : String) (content : Bytes) (d' : Disk)
    (p : Place) : Prop :=
  locate d.tree env.cwd setup.currentPath = some p ∧ d'.tree p = some (.file content) ∧
    content.length = setup.declaredSize ∧ env.prims.sha256Hex content = expected

/-- **A payload's trailer** changes what stands at the target to what has been received, whole. The
    partial file goes, whether it is moved or refused. -/
theorem completeReceived_changes {session : PayloadSession} (hstored : Stored env d.tree session.partPath out content)
    (hactual : actual = env.prims.sha256Hex content ∨ actual = "") :
    Ensures (fun d' => Changes (fun p => p = out ∨ Lands env d session.setup expected content d' p) d.tree d'.tree)
      (fun _ _ => True) (env.completeReceived session expected received actual) d := by
  have hrefl : Changes (fun p => p = out ∨ Lands env d session.setup expected content d p) d.tree d.tree :=
    .refl _ d.tree
  have hread : readFile d.tree env.cwd session.partPath = some content := readFile_of_lstat hstored.status
  have hsize {size : Nat} (h : env.fileSize d.tree session.partPath = some size) : content.length = size := by
    rw [ReceiveEnv.fileSize, hread] at h
    exact Option.some.inj h
  refine ensures_tree_bind (ensures_check_bind hrefl fun _ _ => ensures_tree_bind ?_)
  refine ensures_check_bind hrefl fun _ _ => ?_
  extract_lets commit
  have hcommit (hlength : content.length = session.setup.declaredSize)
      (hdigest : env.prims.sha256Hex content = expected) :
      Ensures (fun d' => Changes (fun p => p = out ∨ Lands env d session.setup expected content d' p) d.tree d'.tree)
        (fun _ _ => True) (commit ()) d := by
    have hmove : Ensures
        (fun d' => Changes (fun p => p = out ∨ Lands env d session.setup expected content d' p) d.tree d'.tree)
        (fun _ _ => True) (env.finalizePartFile session.partPath session.setup.currentPath) d := by
      refine ensures_tree_bind ?_
      simp only [hstored.located, Option.bind_some, hstored.holds, Option.map_some]
      refine atomicReplaceFile_changes.mono (fun d' h => h.mono fun p hp => ?_) fun _ _ _ h => h
      exact hp.imp (fun h => h.1) fun h => ⟨h.1, h.2, hlength, hdigest⟩
    refine hmove.bind fun _ d₁ hchanged _ => ?_
    have hmeta : Ensures (fun d₂ => d₂.tree = d₁.tree) (fun _ _ => True)
        (env.applyFileMetadata session.setup.currentPath session.setup.header) d₁ := applyFileMetadata_tree _
    refine (hmeta.mono (fun d₂ htree => ?_) fun _ _ _ h => h).bind fun _ d₂ hchanged₂ _ =>
      ensures_pure hchanged₂ trivial
    simpa only [Lands, htree] using hchanged
  have hrefused {d' : Disk} (h : Changes (· = out) d.tree d'.tree) :
      Changes (fun p => p = out ∨ Lands env d session.setup expected content d' p) d.tree d'.tree :=
    h.mono fun _ hp => .inl hp
  split_ifs with hempty
  · have hverify : Ensures (fun d' => Changes (· = out) d.tree d'.tree)
        (fun _ d' => d' = d ∧ env.fileSize d.tree session.partPath = some session.setup.declaredSize ∧
          env.prims.sha256Hex content = expected)
        (env.verifyPartFileDigest session.partPath session.setup.relative session.setup.declaredSize expected) d := by
      refine ensures_tree_bind ?_
      rw [hread]
      exact verifyReceivedDigest_changes hstored.located
    refine (hverify.mono (fun _ h => hrefused h) fun _ _ _ h => h).bind ?_
    rintro _ _ - ⟨rfl, hfile, hdigest⟩
    exact hcommit (hsize hfile) hdigest
  · have hverify : Ensures (fun d' => Changes (· = out) d.tree d'.tree)
        (fun _ d' => d' = d ∧ env.fileSize d.tree session.partPath = some session.setup.declaredSize ∧
          actual = expected)
        (env.verifyReceivedDigest session.partPath session.setup.relative received session.setup.declaredSize
          expected actual) d := verifyReceivedDigest_changes hstored.located
    refine (hverify.mono (fun _ h => hrefused h) fun _ _ _ h => h).bind ?_
    rintro _ _ - ⟨rfl, hfile, hdigest⟩
    exact hcommit (hsize hfile) ((hactual.resolve_right hempty).symm.trans hdigest)

/-- Where a link goes: the directories above it are made first. -/
def ReceiveEnv.linkPlace (env : ReceiveEnv) (current : FsPath) (d : Disk) : Option Place :=
  match env.createParent current d with
  | .ok _ d => locate d.tree env.cwd current
  | .error _ _ => none

/-- **A link's trailer** changes what stands at the target to the link. -/
theorem createSafeSymlink_changes {target : String} :
    Ensures (fun d' => Changes (fun p => env.linkPlace current d = some p ∧ d'.tree p = some (.symlink target))
        d.tree d'.tree)
      (fun _ _ => True) (env.createSafeSymlink current relative target) d := by
  have hplace : Ensures (fun _ => True) (fun _ d₁ => env.linkPlace current d = locate d₁.tree env.cwd current)
      (env.createParent current) d :=
    ensures_of (fun _ d₁ h => ⟨trivial, by rw [ReceiveEnv.linkPlace, h]⟩) fun _ _ _ => trivial
  refine ensures_check_bind (.refl _ d.tree) fun _ _ => ?_
  refine ((createParent_builds.and hplace).mono (fun _ h => .of_builds h.1) fun _ _ hR hQ =>
    ⟨hR.1, hQ.2⟩ : Ensures _ (fun _ d₁ => Making d d₁ ∧ _) _ d).bind ?_
  rintro _ d₁ - ⟨hmade, hplace⟩
  have hmade' {S : Place → Prop} : Changes S d.tree d₁.tree := .of_builds hmade
  refine ensures_tree_bind ?_
  split
  · exact ensures_throw hmade'
  next temporary _ =>
    split_ifs with hfree
    · exact ensures_throw hmade'
    · have hnone : d₁.tree temporary = none := by simpa using hfree
      have hmove := @atomicReplaceFile_changes env { d₁ with touched := d₁.touched ++ [temporary] } current temporary
        (.symlink target) "failed to finalize symlink "
      refine Ensures.bind (R := _) (Q := fun _ d₂ => d₂ = { d₁ with touched := d₁.touched ++ [temporary] })
        (ensures_modify hmade' rfl) ?_
      rintro _ _ - rfl
      refine hmove.mono (fun d₂ h => hmade'.trans fun p => ?_) fun _ _ _ h => h
      -- the temporary link is gone again, as it was before
      rcases h p with heq | hdir | ⟨rfl, hgone⟩ | ⟨hlocate, hlink⟩
      · exact .inl heq
      · exact .inr (.inl hdir)
      · exact .inl (hgone.trans hnone.symm)
      · exact .inr (.inr ⟨hplace.trans hlocate, hlink⟩)

theorem completeMarker_changes {setup : EntrySetup} {target : String} :
    Ensures (fun d' => Changes (fun p => env.linkPlace setup.currentPath d = some p ∧
        d'.tree p = some (.symlink target)) d.tree d'.tree)
      (fun _ _ => True) (env.completeMarker setup (.symlink target false)) d :=
  ensures_tree_bind (ensures_check_bind (.refl _ d.tree) fun _ _ => createSafeSymlink_changes)

end Trailer

/-! ## A step -/

/-- What the next trailer commits: where, for which entry, and the digest it names. -/
structure Commit where
  place : Place
  setup : EntrySetup
  sha256 : String

/-- What has been announced for the entry stands there, whole: a file of the declared size with the
    trailer's digest, or the link of the header. -/
inductive Commit.Whole (prims : Primitives) (c : Commit) : Option (Node Bytes) → Prop
  | file {content : Bytes} (hsize : content.length = c.setup.declaredSize)
      (hdigest : prims.sha256Hex content = c.sha256) : Whole prims c (some (.file content))
  | link (hlink : isSymlinkHeader c.setup.header = true) :
      Whole prims c (some (.symlink (c.setup.header.get "target")))

/-- The place of the partial file of the entry a receiver is at. -/
def Intake.partPlace? (env : ReceiveEnv) (s : Intake) : Option Place :=
  s.phase.part?.bind (locate s.disk.tree env.cwd)

/-- The target of the entry a receiver is at. -/
def Intake.targetPlace? (env : ReceiveEnv) (s : Intake) : Option (Place × EntrySetup) :=
  match s.phase with
  | .marker setup (.symlink _ false) => (env.linkPlace setup.currentPath s.disk).map (·, setup)
  | .payload session _ _ | .received session =>
    (locate s.disk.tree env.cwd session.setup.currentPath).map (·, session.setup)
  | _ => none

/-- What a frame commits. -/
def Intake.commit? (env : ReceiveEnv) (s : Intake) : Option Frame → Option Commit
  | some (.fileEnd trailer) =>
    (s.targetPlace? env).map fun (place, setup) => { place := place, setup := setup, sha256 := trailer.get "sha256" }
  | _ => none

/-- The places a step may change. -/
def Intake.Alters (env : ReceiveEnv) (s : Intake) (f : Option Frame) (t' : Tree) (p : Place) : Prop :=
  s.partPlace? env = some p ∨ ∃ c, s.commit? env f = some c ∧ c.place = p ∧ c.Whole env.prims (t' p)

section Step

variable {env : ReceiveEnv} {s s' : Intake} {f : Option Frame}

/-- **One step**, wherever its paths lead: besides directories, what stands at the partial file's place
    may have changed, and at the target what was announced stands now. -/
theorem Intake.Step.changes (hs : s.Sound env) (hm : s.phase.Marked) (hstep : Intake.Step env s f s') :
    Changes (s.Alters env f s'.disk.tree) s.disk.tree s'.disk.tree := by
  have hsound := hs.disk
  cases hstep with
  | manifest hlate honce hdecode hplan =>
    obtain ⟨-, htree, -⟩ := preflightTransferManifest_ok hplan
    exact fun p => .inl (congrFun htree p)
  | @header header plan hphase hpath hrecord =>
    have hmade : Making s.disk ({ s with plan := plan, sawFileHeader := true }.after (env.prepare plan header) .await).disk :=
      after_tree (prepare_builds plan header)
    exact .of_builds hmade
  -- the answer may change the partial file
  | @ack p frame hphase =>
    rw [hphase] at hsound
    have hchanged : Changes (p.Alters env s.disk) s.disk.tree (s.after (env.settle p frame) id).disk.tree :=
      after_tree (settle_changes frame hsound)
    refine hchanged.mono fun q hq => .inl ?_
    obtain ⟨part, hpart, hlocate⟩ := hq
    rw [Intake.partPlace?, hphase, hpart]
    exact hlocate
  -- a payload is written into the partial file
  | @put f session out content content' next hphase hquiet hnext =>
    rw [hphase] at hsound
    refine .set s.disk.tree (.inl ?_)
    rw [Intake.partPlace?, hphase]
    exact hsound.located
  | @marker setup marker trailer hphase =>
    rw [hphase] at hm
    match marker with
    | .directory => exact .refl _ _
    | .symlink target true => exact .refl _ _
    | .symlink target false =>
      obtain ⟨hlink, rfl⟩ := hm
      have hchanged : Changes _ s.disk.tree
          (s.after (env.completeMarker setup (.symlink (setup.header.get "target") false)) fun _ => .idle).disk.tree :=
        after_tree completeMarker_changes
      refine hchanged.mono fun p ⟨hplace, hnode⟩ => .inr ⟨⟨p, setup, trailer.get "sha256"⟩, ?_, rfl, ?_⟩
      · simp only [Intake.commit?, Intake.targetPlace?, hphase, hplace, Option.map_some]
      · rw [hnode]
        exact .link hlink
  | skipped hphase => exact .refl _ _
  -- the move: a whole file at the target, and the partial file is gone
  | @commit session trailer size actual hphase =>
    obtain ⟨out, content, hstored, hactual, hpart, htarget⟩ : ∃ out content,
        Stored env s.disk.tree session.partPath out content ∧
          (actual = env.prims.sha256Hex content ∨ actual = "") ∧ s.partPlace? env = some out ∧
          s.targetPlace? env = (locate s.disk.tree env.cwd session.setup.currentPath).map (·, session.setup) := by
      unfold Intake.partPlace? Intake.targetPlace?
      generalize s.phase = phase at hphase hsound
      cases hphase with
      | @hashed session out content => exact ⟨out, content, hsound, .inl rfl, hsound.located, rfl⟩
      | found =>
        obtain ⟨out, content, hstored⟩ := hsound
        exact ⟨out, content, hstored, .inr rfl, hstored.located, rfl⟩
    have hchanged : Changes _ s.disk.tree
        (s.after (env.completeReceived session (trailer.get "sha256") size actual) fun _ => .idle).disk.tree :=
      after_tree (completeReceived_changes hstored hactual)
    refine hchanged.mono fun p hp => hp.imp (fun hout => by rw [hout, hpart]) fun hlands => ?_
    obtain ⟨hplace, hnode, hsize, hdigest⟩ := hlands
    refine ⟨⟨p, session.setup, trailer.get "sha256"⟩, ?_, rfl, ?_⟩
    · simp only [Intake.commit?, htarget, hplace, Option.map_some]
    · rw [hnode]
      exact .file hsize hdigest
  | done hphase hall => exact .refl _ _
  | stay hquiet => exact .refl _ _
  | fail => exact .refl _ _

end Step

/-! ## A run

The places of partial files are collected along the run, since a place that is one partial file's
today may be a target tomorrow. -/

/-- The places that partial files of entries have had, and what trailers were to commit. -/
structure Ledger where
  parts : List Place := []
  commits : List Commit := []

/-- What a step adds, seen from outside. -/
def Ledger.note (env : ReceiveEnv) (l : Ledger) (s : Intake) (f : Option Frame) (s' : Intake) : Ledger where
  parts := l.parts ++ (s'.partPlace? env).toList
  commits := l.commits ++ (s.commit? env f).toList

/-- What stands at a place is what stood there, or what was announced for it, whole. -/
def AsBeforeOrWhole (env : ReceiveEnv) (t t' : Tree) (l : Ledger) (p : Place) : Prop :=
  t' p = t p ∨ ∃ c ∈ l.commits, c.place = p ∧ c.Whole env.prims (t' p)

/-- What stands at a place, with the directories that are made for other entries. -/
def Kept (env : ReceiveEnv) (t t' : Tree) (l : Ledger) (p : Place) : Prop :=
  AsBeforeOrWhole env t t' l p ∨ t p = none ∧ t' p = some .dir

section Run

variable {env : ReceiveEnv} {d : Disk} {s s' : Intake} {l : Ledger} {f : Option Frame} {p : Place}

/-- A step keeps what is kept: a place that changes is the one of a partial file, or what comes to it
    is whole, or a directory where nothing was. -/
theorem Kept.step (hs : s.Sound env) (hm : s.phase.Marked) (hstep : Intake.Step env s f s')
    (hpart : s.partPlace? env ≠ some p) (h : Kept env d.tree s.disk.tree l p) :
    Kept env d.tree s'.disk.tree (l.note env s f s') p := by
  have hmem {c : Commit} (hc : c ∈ l.commits) : c ∈ (l.note env s f s').commits := List.mem_append_left _ hc
  rcases hstep.changes hs hm p with heq | ⟨hnone, hdir⟩ | halters | ⟨c, hc, hplace, hwhole⟩
  · rcases h with (hsame | ⟨c, hc, hplace, hwhole⟩) | ⟨hnone, hdir⟩
    · exact .inl (.inl (heq.trans hsame))
    · exact .inl (.inr ⟨c, hmem hc, hplace, heq ▸ hwhole⟩)
    · exact .inr ⟨hnone, heq.trans hdir⟩
  · rcases h with (hsame | ⟨c, -, -, hwhole⟩) | ⟨-, hdir'⟩
    · exact .inr ⟨hsame.symm.trans hnone, hdir⟩
    · rw [hnone] at hwhole
      cases hwhole
    · cases hnone.symm.trans hdir'
  · exact absurd halters hpart
  · refine .inl (.inr ⟨c, ?_, hplace, hwhole⟩)
    simp only [Ledger.note, hc, Option.toList_some]
    exact List.mem_append_right _ (List.mem_singleton.mpr rfl)

/-- **Targets change at once.** Whatever is sent, on either path, and wherever the run stops: a place
    that no partial file of an entry has had is as it was, or what was announced for it stands there,
    whole, or it is a directory that was made where nothing stood. -/
theorem targets_kept (env : ReceiveEnv) (d : Disk) (s : Intake) (l : Ledger)
    (hr : ReceivedUnder env (fun _ _ => True) (Ledger.note env) {} d s l) (p : Place) (hp : p ∉ l.parts) :
    Kept env d.tree s.disk.tree l p := by
  have h : s.phase.Marked ∧ (∀ p, s.partPlace? env = some p → p ∈ l.parts) ∧
      ∀ p ∉ l.parts, Kept env d.tree s.disk.tree l p := by
    refine hr.invariant (I := fun s l => s.phase.Marked ∧ (∀ p, s.partPlace? env = some p → p ∈ l.parts) ∧
      ∀ p ∉ l.parts, Kept env d.tree s.disk.tree l p) ⟨trivial, nofun, fun p _ => .inl (.inl rfl)⟩ ?_
    intro s l f s' hs _ ⟨hm, hnoted, hkept⟩ _ hstep
    refine ⟨hstep.marked hs hm, fun p hp => ?_, fun p hp => ?_⟩
    · simp only [Ledger.note, hp, Option.toList_some]
      exact List.mem_append_right _ (List.mem_singleton.mpr rfl)
    · have hp' : p ∉ l.parts := fun hmem => hp (List.mem_append_left _ hmem)
      exact (hkept p hp').step hs hm hstep fun hpart => hp' (hnoted p hpart)
  exact h.2.2 p hp

end Run

/-- A file is replaced by a whole one. -/
theorem targets_kept_sample : ∃ s l,
    ReceivedUnder sampleEnv (fun _ _ => True) (Ledger.note sampleEnv) {} hiDisk s l ∧
      ["out", "hi.txt"] ∉ l.parts ∧ s.disk.tree ["out", "hi.txt"] ≠ hiDisk.tree ["out", "hi.txt"] ∧
      Kept sampleEnv hiDisk.tree s.disk.tree l ["out", "hi.txt"] := by
  obtain ⟨⟨r, l⟩, hr, hlast⟩ := Lts.ReachUnder.exists_of_run
    (track (StreamRecv.next sampleEnv) (fun _ input => StreamInput.seen input)
      (@StreamRecv.intake storedStream) (Ledger.note sampleEnv))
    (fun _ _ => True) ({ loop := { disk := hiDisk } }, {}) ((hiWhole "hi.txt" ++ [Frame.done]).map .frame)
    (fun s => ["out", "hi.txt"] ∉ s.2.parts ∧
      s.1.intake.disk.tree ["out", "hi.txt"] ≠ hiDisk.tree ["out", "hi.txt"])
    (by decide +kernel) Lts.meets_true
  simp only [decide_eq_true_eq] at hlast
  exact ⟨_, l, .stream hr, hlast.1, hlast.2, targets_kept sampleEnv hiDisk _ l (.stream hr) _ hlast.1⟩

/-- `a/b` has made the directory `a`, and now a file `a` comes: there was nothing at its target, and
    what is there is neither a file nor a link. -/
theorem directory_at_target : ∃ s l setup,
    ReceivedUnder sampleEnv (fun _ _ => True) (Ledger.note sampleEnv) {} sampleDisk s l ∧
      s.phase.setup? = some setup ∧ setup.relative = "a" ∧
      locate s.disk.tree sampleEnv.cwd setup.currentPath = some ["out", "a"] ∧ ["out", "a"] ∉ l.parts ∧
      ¬ AsBeforeOrWhole sampleEnv sampleDisk.tree s.disk.tree l ["out", "a"] := by
  obtain ⟨⟨r, l⟩, hr, hlast⟩ := Lts.ReachUnder.exists_of_run
    (track (StreamRecv.next sampleEnv) (fun _ input => StreamInput.seen input)
      (@StreamRecv.intake storedStream) (Ledger.note sampleEnv))
    (fun _ _ => True) ({ loop := { disk := sampleDisk } }, {}) ((hiWhole "a/b" ++ [hiHeader "a"]).map .frame)
    (fun s => s.1.intake.phase.setup?.any (fun setup => setup.relative = "a" ∧
        locate s.1.intake.disk.tree sampleEnv.cwd setup.currentPath = some ["out", "a"]) ∧
      ["out", "a"] ∉ s.2.parts ∧ s.1.intake.disk.tree ["out", "a"] = some .dir)
    (by decide +kernel) Lts.meets_true
  simp only [decide_eq_true_eq] at hlast
  obtain ⟨hentry, hparts, hdir⟩ := hlast
  obtain ⟨setup, hsetup, hentry⟩ := (Option.any_eq_true _ _).mp hentry
  simp only [decide_eq_true_eq] at hentry
  refine ⟨_, l, setup, .stream hr, hsetup, hentry.1, hentry.2, hparts, fun h => ?_⟩
  rcases h with hsame | ⟨c, -, -, hwhole⟩
  · rw [hdir] at hsame
    exact absurd hsame (by decide)
  · rw [hdir] at hwhole
    cases hwhole

end Kiko.Transfer
