import Kiko.Core.Compression
import Kiko.Core.MessageText
import Kiko.Transfer.Agreement
import Kiko.Transfer.Footprint

/-!
# The declared size is a bound

A receiver against a peer that sends what it likes, and over a zstd library that does what it
likes. The loops are those of `Stream` and `Mux`; what is new is the way from a data frame to the
bytes that are written, which here is on 64-bit words throughout: the checks before a write, the
decompressors behind them (`Kiko.Core.Compression`), and the counters after it. A write may also
fail, and leave the first of its bytes behind.

Three decoders do arithmetic on what the peer has chosen. `ensureDeclaredSpaceU64_ok_iff` is why
it cannot wrap, `Phase.Measured` what a session knows of its sizes before the first byte, and
`declared_size_bounds` what follows for every run.

The peer chooses the header, the data frames, the offsets and the lengths in a chunk, and the
trailer; the library chooses what comes out of the decompressor, how much of it at a time, and
when it stops. Nothing is asked of either. The loops of `Stream` and `Mux` are taken over as they
are and only the branch that writes is replaced, by one that does the arithmetic of the code on
its own types; over a library that gives back what it was given the two agree (`unpackOver_eq`),
so the replacement is no second model of the same thing.
-/

set_option autoImplicit false

namespace Kiko.Transfer

open Lexical FileTree Effect

/-! ## The checks

`offset + size` of two numbers that a peer has chosen can wrap. The code compares `size` with a
difference that is taken only where the offset is no more than the declared size; that is the
whole argument, and `ensureDeclaredSpaceU64_ok_iff` is its conclusion in numbers that do not
wrap. -/

/-- `ensure_declared_space`, on 64-bit words. -/
def ensureDeclaredSpaceU64 (currentTotal declaredSize nextSize : Nat) (relative : String) :
    Except KikoError Unit :=
  if declaredSize < currentTotal ∨ subU64 declaredSize currentTotal < nextSize then
    .error ("received more data than declared for " ++ relative)
  else .ok ()

/-- The difference is only taken where it does not wrap. -/
theorem ensureDeclaredSpaceU64_eq {currentTotal declaredSize : Nat} (hdeclared : declaredSize ≤ u64Max)
    (nextSize : Nat) (relative : String) :
    ensureDeclaredSpaceU64 currentTotal declaredSize nextSize relative =
      ensureDeclaredSpace currentTotal declaredSize nextSize relative := by
  unfold ensureDeclaredSpaceU64 ensureDeclaredSpace
  by_cases hover : declaredSize < currentTotal
  · rw [if_pos (.inl hover), if_pos (.inl hover)]
  · rw [subU64_eq (not_lt.mp hover) hdeclared]

/-- **The check says what it means**, for any 64-bit words: it passes where the sum, taken without
    wrapping, is within the declared size. -/
theorem ensureDeclaredSpaceU64_ok_iff {currentTotal declaredSize nextSize : Nat} {relative : String}
    (hdeclared : declaredSize ≤ u64Max) :
    ensureDeclaredSpaceU64 currentTotal declaredSize nextSize relative = .ok () ↔
      currentTotal + nextSize ≤ declaredSize := by
  rw [ensureDeclaredSpaceU64_eq hdeclared, ensureDeclaredSpace]
  constructor
  · intro h
    split_ifs at h with hover
    omega
  · intro h
    exact if_neg (by omega)

/-- `declared_remaining_limit`; a `std::size_t` has 64 bits. -/
def declaredRemainingLimit (currentTotal declaredSize : Nat) (relative : String) : Except KikoError Nat := do
  ensureDeclaredSpaceU64 currentTotal declaredSize 0 relative
  let remaining := subU64 declaredSize currentTotal
  .ok (if u64Max < remaining then u64Max else remaining)

theorem declaredRemainingLimit_ok {currentTotal declaredSize limit : Nat} {relative : String}
    (hdeclared : declaredSize ≤ u64Max)
    (h : declaredRemainingLimit currentTotal declaredSize relative = .ok limit) :
    currentTotal ≤ declaredSize ∧ limit ≤ declaredSize - currentTotal := by
  obtain ⟨_, hspace, h⟩ := exists_of_bind_ok h
  have hle : currentTotal ≤ declaredSize := (ensureDeclaredSpaceU64_ok_iff hdeclared).mp hspace
  rw [subU64_eq hle hdeclared] at h
  refine ⟨hle, ?_⟩
  rw [← Except.ok.inj h]
  split_ifs with hmax
  · exact hmax.le
  · exact le_rfl

/-! ## What a session knows of its sizes

Before the first byte is written: the resume offset is no more than the declared size and the
partial file has exactly that length. A peer can answer the question as it likes; what it answers
is checked against what was asked. -/

/-- The sizes a session starts from: what it has of the file fits in what was declared. -/
structure PayloadSession.Measured (s : PayloadSession) : Prop where
  declared : s.setup.declaredSize ≤ u64Max
  hashed : s.hashed.length = s.resumeOffset
  resume : s.resumeOffset ≤ s.setup.declaredSize

/-- The sizes at any phase. -/
def Phase.Measured : Phase → Prop
  | .await (.conflictSkip setup) | .await (.duplicate setup) | .await (.payload setup _ _ _) =>
    setup.declaredSize ≤ u64Max
  | .payload s _ _ | .received s => s.Measured
  | _ => True

section Measured

variable {env : ReceiveEnv} {s s' : Intake} {d d' : Disk}

theorem preparePayload_measured {setup : EntrySetup} {p : Pending} (hsize : setup.declaredSize ≤ u64Max)
    (h : env.preparePayload setup d = .ok p d') : (Phase.await p).Measured := by
  obtain ⟨current, part, hashed, prefixSha256, rfl, -⟩ := preparePayload_ok h
  exact hsize

theorem prepare_measured {plan : Option ReceivePlan} {header : Message} {p : Pending}
    (h : env.prepare plan header d = .ok p d') : (Phase.await p).Measured := by
  simp only [ReceiveEnv.prepare, bind_tree, bind_check_ok] at h
  obtain ⟨setup, hsetup, h⟩ := h
  have hsize : setup.declaredSize ≤ u64Max :=
    Message.getU64_le (entrySetup_ok hsetup).2.2.1 (Nat.zero_le _)
  split_ifs at h
  · obtain ⟨setup', marker, rfl⟩ := prepareSymlink_ok h
    trivial
  · obtain ⟨current, rfl⟩ := prepareDirectory_ok h
    trivial
  · simp only [ReceiveEnv.prepareFile, bind_tree] at h
    split_ifs at h
    · rw [bind_status] at h
      obtain ⟨rfl, -⟩ := pure_ok.mp h
      exact hsize
    · rw [bind_tree] at h
      split_ifs at h
      · obtain ⟨rfl, -⟩ := pure_ok.mp h
        exact hsize
      · exact preparePayload_measured hsize h

/-- A settled session is measured, whatever the peer has acknowledged. -/
theorem onAck_measured {p : Pending} {frame : Frame} (hp : (Phase.await p).Sound env d.tree)
    (hm : (Phase.await p).Measured) :
    (∀ session, env.onAck p frame d = .ok (.inl (.receivePayload session)) d' → session.Measured) ∧
      ∀ p', env.onAck p frame d = .ok (.inr p') d' → (Phase.await p').Measured := by
  have hready := (@onAck_ready env d d' p frame hp).1
  cases p with
  | marker setup marker =>
    refine ⟨fun session h => ?_, fun p' h => ?_⟩ <;>
    · simp only [ReceiveEnv.onAck, bind_check_ok] at h
      obtain ⟨_, -, h⟩ := h
      cases (pure_ok.mp h).1
  | conflictSkip setup =>
    refine ⟨fun session h => ?_, fun p' h => ?_⟩ <;>
    · simp only [ReceiveEnv.onAck, bind_check_ok] at h
      obtain ⟨_, -, h⟩ := h
      split_ifs at h
      · exact absurd h throw_ne_ok
      · cases (pure_ok.mp h).1
  -- a duplicate that is not confirmed becomes a question about a partial file
  | duplicate setup =>
    refine ⟨fun session h => ?_, fun p' h => ?_⟩
    · simp only [ReceiveEnv.onAck, bind_check_ok] at h
      obtain ⟨_, -, h⟩ := h
      split_ifs at h
      · obtain ⟨_, _, -, h⟩ := bind_ok.mp h
        cases (pure_ok.mp h).1
      · obtain ⟨_, _, -, h⟩ := bind_ok.mp h
        rw [bind_status] at h
        cases (pure_ok.mp h).1
    · simp only [ReceiveEnv.onAck, bind_check_ok] at h
      obtain ⟨_, -, h⟩ := h
      split_ifs at h
      · obtain ⟨p'', d₁, hprep, h⟩ := bind_ok.mp h
        obtain ⟨heq, rfl⟩ := pure_ok.mp h
        obtain rfl := Sum.inr.inj heq
        exact preparePayload_measured hm hprep
      · obtain ⟨_, _, -, h⟩ := bind_ok.mp h
        rw [bind_status] at h
        cases (pure_ok.mp h).1
  | payload setup part hashed prefixSha256 =>
    refine ⟨fun session h => ?_, fun p' h => ?_⟩
    · obtain ⟨hoffset, hoffered⟩ := hready session h
      simp only [ReceiveEnv.onAck, bind_check_ok] at h
      obtain ⟨accepted, hack, h⟩ := h
      obtain ⟨s', d₁, hacc, h⟩ := bind_ok.mp h
      obtain ⟨heq, rfl⟩ := pure_ok.mp h
      obtain rfl := Session.receivePayload.inj (Sum.inl.inj heq)
      obtain ⟨rfl, -, -, hlen, -⟩ := acceptOffset_offered hp (recvResumeAck_le hack) hacc
      exact ⟨hm, hlen.symm, hlen ▸ hoffered.length_le⟩
    · simp only [ReceiveEnv.onAck, bind_check_ok] at h
      obtain ⟨_, -, h⟩ := h
      obtain ⟨_, _, -, h⟩ := bind_ok.mp h
      cases (pure_ok.mp h).1

theorem settle_measured {p : Pending} {frame : Frame} {next : Phase} (hp : (Phase.await p).Sound env d.tree)
    (hm : (Phase.await p).Measured) (h : env.settle p frame d = .ok next d') : next.Measured := by
  rw [settle_eq] at h
  cases hack : env.onAck p frame d with
  | error e d₁ =>
    rw [hack] at h
    cases h
  | ok result d₁ =>
    obtain ⟨hsession, hagain⟩ := @onAck_measured env d d₁ p frame hp hm
    rw [hack] at h
    cases result with
    | inr p' =>
      cases h
      exact hagain p' hack
    | inl session =>
      cases session with
      | marker setup marker =>
        cases h
        trivial
      | skipPayload setup =>
        cases h
        trivial
      | receivePayload session =>
        dsimp only at h
        rw [ReceiveEnv.openPart, bind_tree] at h
        cases hp : env.partPlace d₁.tree session.partPath with
        | none =>
          rw [hp] at h
          exact absurd h throw_ne_ok
        | some place =>
          rw [hp] at h
          obtain ⟨rfl, -⟩ := pure_ok.mp h
          exact hsession session hack

theorem after_measured {α : Type} {m : ReceiveM α} {next : α → Phase}
    (h : ∀ a d, m s.disk = .ok a d → (next a).Measured) : (s.after m next).phase.Measured := by
  unfold Intake.after
  cases hm : m s.disk with
  | ok a d => exact h a d hm
  | error e d => trivial

/-- Every step leaves a measured session, if there is one. -/
theorem Intake.Step.measured {f : Option Frame} (hs : Intake.Step env s f s') (hsound : s.Sound env)
    (hm : s.phase.Measured) : s'.phase.Measured := by
  cases hs with
  | manifest => exact hm
  | header hphase hpath hrecord => exact after_measured fun p d hp => prepare_measured hp
  | @ack p frame hphase =>
    have hp : (Phase.await p).Sound env s.disk.tree := hphase ▸ hsound.disk
    exact after_measured fun next d hn => settle_measured hp (hphase ▸ hm) hn
  | put hphase hquiet hnext =>
    rw [hphase] at hm
    rcases hnext with rfl | rfl | ⟨e, rfl⟩
    · exact hm
    · exact hm
    · trivial
  | marker hphase => exact after_measured fun _ _ _ => trivial
  | skipped hphase => trivial
  | commit hphase => exact after_measured fun _ _ _ => trivial
  | done hphase hall => trivial
  | stay hquiet => exact hm
  | fail => trivial

end Measured

/-! ## What is committed

The other half: what comes to stand at a target has the declared size. A verification compares
the length of the file before it is moved, so it is enough to see that nothing is written between
the two. -/

/-- From `t` to `t'` files may have gone, and those that have come have this size. -/
def Commits (size : Nat) (t t' : Tree) : Prop :=
  ∀ place content, t' place = some (.file content) →
    t place = some (.file content) ∨ content.length = size

theorem Commits.refl (size : Nat) (t : Tree) : Commits size t t := fun _ _ h => .inl h

theorem Commits.remove {size : Nat} {t t' : Tree} (h : Commits size t t') (place : Place) :
    Commits size t (t'.remove place) := by
  intro p content hp
  by_cases hplace : p = place
  · rw [hplace, Tree.remove_self] at hp
    cases hp
  · rw [Tree.remove_of_ne _ hplace] at hp
    exact h p content hp

theorem Commits.set {size : Nat} {t t' : Tree} (h : Commits size t t') (place : Place) {content : Bytes}
    (hsize : content.length = size) : Commits size t (t'.set place (.file content)) := by
  intro p content' hp
  by_cases hplace : p = place
  · rw [hplace, Tree.set_self] at hp
    obtain rfl := Node.file.inj (Option.some.inj hp)
    exact .inr hsize
  · rw [Tree.set_of_ne _ _ hplace] at hp
    exact h p content' hp

section Committed

variable {env : ReceiveEnv} {d : Disk} {part current : FsPath} {relative expected actual : String}
  {size received : Nat}

theorem removeFile_commits :
    Ensures (fun d' => Commits size d.tree d'.tree) (fun _ _ => True) (env.removeFile part) d := by
  refine ensures_tree_bind ?_
  split
  next place _ =>
    refine ensures_tree_bind ?_
    split_ifs
    · exact ensures_pure (.refl size d.tree) trivial
    · refine ensures_tree_bind ?_
      exact ensures_modify ((Commits.refl size d.tree).remove place) trivial
  next => exact ensures_pure (.refl size d.tree) trivial

/-- A verification that passes has found the declared size. -/
theorem verifyReceivedDigest_commits :
    Ensures (fun d' => Commits size d.tree d'.tree)
      (fun _ d' => d' = d ∧ env.fileSize d.tree part = some size)
      (env.verifyReceivedDigest part relative received size expected actual) d := by
  refine ensures_tree_bind ?_
  split
  next hnone =>
    refine ensures_pure (.refl size d.tree) ⟨rfl, ?_⟩
    unfold ReceiveEnv.receivedError at hnone
    split_ifs at hnone with _ hstored
    exact not_not.mp hstored
  next => exact removeFile_commits.bind fun _ _ hcommits _ => ensures_throw hcommits

theorem verifyPartFileDigest_commits :
    Ensures (fun d' => Commits size d.tree d'.tree)
      (fun _ d' => d' = d ∧ env.fileSize d.tree part = some size)
      (env.verifyPartFileDigest part relative size expected) d := by
  refine ensures_tree_bind ?_
  split
  · exact verifyReceivedDigest_commits
  · exact removeFile_commits.bind fun _ _ hcommits _ => ensures_throw hcommits

/-- The partial file is moved as it is. -/
theorem finalizePartFile_commits (hsize : env.fileSize d.tree part = some size) :
    Ensures (fun d' => Commits size d.tree d'.tree) (fun _ _ => True)
      (env.finalizePartFile part current) d := by
  refine ensures_tree_bind ?_
  split
  next source content hsource =>
    obtain ⟨place, hlocate, hnode⟩ := Option.bind_eq_some_iff.mp hsource
    obtain ⟨node, hnode, heq⟩ := Option.map_eq_some_iff.mp hnode
    obtain ⟨rfl, rfl⟩ := Prod.mk.inj heq
    have hlength : content.length = size := by
      have hne : place ≠ [] := by
        rintro rfl
        have hroot : look d.tree [] = some .dir := if_pos rfl
        have hreal : real d.tree maxLinks [] = some [] := by rw [real, hroot]
        have hread : readFile d.tree env.cwd part = none := by
          rw [readFile, hlocate, Option.bind_some, hreal, Option.bind_some, hroot]
        rw [ReceiveEnv.fileSize, hread] at hsize
        cases hsize
      have hstat : lstat d.tree env.cwd part = some (.file content) := by
        rw [lstat, hlocate, Option.bind_some, look, if_neg hne, hnode]
      rw [ReceiveEnv.fileSize, readFile_of_lstat hstat] at hsize
      exact Option.some.inj hsize
    refine ensures_tree_bind ?_
    split
    next => exact ensures_throw (.refl size d.tree)
    next target _ =>
      split_ifs
      · exact ensures_throw (.refl size d.tree)
      · exact ensures_modify (((Commits.refl size d.tree).remove place).set target hlength) trivial
  next => exact ensures_throw (.refl size d.tree)

theorem applyFileMetadata_tree (header : Message) :
    Ensures (fun d' => d'.tree = d.tree) (fun _ _ => True) (env.applyFileMetadata current header) d := by
  refine ensures_tree_bind (ensures_check_bind rfl fun mode _ => ?_)
  have htouch (places : List Place) : Ensures (fun d' => d'.tree = d.tree) (fun _ d' => d'.tree = d.tree)
      (ReceiveM.touch places) d := ensures_modify rfl rfl
  refine (htouch _).bind fun _ d₁ htree _ => ?_
  refine ensures_check_bind htree fun mtimeMs _ => ?_
  exact ensures_modify htree trivial

/-- **A payload is committed at its declared size, or not at all.** -/
theorem completeReceived_commits {session : PayloadSession} :
    Ensures (fun d' => Commits session.setup.declaredSize d.tree d'.tree) (fun _ _ => True)
      (env.completeReceived session expected received actual) d := by
  have hrefl : Commits session.setup.declaredSize d.tree d.tree := .refl _ _
  refine ensures_tree_bind (ensures_check_bind hrefl fun _ _ => ensures_tree_bind ?_)
  refine ensures_check_bind hrefl fun _ _ => ?_
  extract_lets commit
  have hcommit (hsize : env.fileSize d.tree session.partPath = some session.setup.declaredSize) :
      Ensures (fun d' => Commits session.setup.declaredSize d.tree d'.tree) (fun _ _ => True)
        (commit ()) d := by
    refine (finalizePartFile_commits hsize).bind fun _ d₁ hcommits _ => ?_
    have hkeep (d₂ : Disk) (htree : d₂.tree = d₁.tree) :
        Commits session.setup.declaredSize d.tree d₂.tree := htree ▸ hcommits
    refine ((applyFileMetadata_tree _).mono hkeep fun _ _ _ h => h).bind fun _ d₂ hcommits₂ _ => ?_
    exact ensures_pure hcommits₂ trivial
  split_ifs
  · refine verifyPartFileDigest_commits.bind ?_
    rintro _ _ - ⟨rfl, hsize⟩
    exact hcommit hsize
  · refine verifyReceivedDigest_commits.bind ?_
    rintro _ _ - ⟨rfl, hsize⟩
    exact hcommit hsize

/-- The payload a phase is about. -/
def Phase.session : Phase → Option PayloadSession
  | .payload session _ _ | .received session => some session
  | _ => none

/-- The partial file a phase has open. -/
def Phase.out : Phase → Option Place
  | .payload _ out _ => some out
  | _ => none

/-- While a payload is received, a file that comes to stand anywhere but at the partial file's place
    has the declared size. -/
def Intake.Confined (s s' : Intake) : Prop :=
  ∀ session place content, s.phase.session = some session → s.phase.out ≠ some place →
    s'.disk.tree place = some (.file content) →
      s.disk.tree place = some (.file content) ∨ content.length = session.setup.declaredSize

theorem Intake.confined_of_tree {s s' : Intake} (h : s'.disk.tree = s.disk.tree) : s.Confined s' :=
  fun _ _ _ _ _ hp => .inl (h ▸ hp)

theorem after_tree {α : Type} {s : Intake} {m : ReceiveM α} {next : α → Phase} {R : Disk → Prop}
    {Q : α → Disk → Prop} (h : Ensures R Q m s.disk) : R (s.after m next).disk := by
  unfold Intake.after
  cases hm : m s.disk with
  | ok a d => exact (h.ok hm).1
  | error e d => exact h.error hm

/-- **Nothing but a whole file is committed**, in any step of the receiver. -/
theorem Intake.Step.confined {s s' : Intake} {f : Option Frame} (hs : Intake.Step env s f s') :
    s.Confined s' := by
  cases hs with
  | manifest hlate honce hdecode hplan =>
    obtain ⟨-, htree, -⟩ := preflightTransferManifest_ok hplan
    exact confined_of_tree htree
  | header hphase hpath hrecord =>
    intro session place content hsession
    rw [hphase] at hsession
    cases hsession
  | ack hphase =>
    intro session place content hsession
    rw [hphase] at hsession
    cases hsession
  | put hphase hquiet hnext =>
    intro session place content hsession hout hp
    rw [hphase] at hout
    have hne : place ≠ _ := fun heq => hout (congrArg some heq.symm)
    exact .inl ((Tree.set_of_ne _ _ hne).symm.trans hp)
  | marker hphase =>
    intro session place content hsession
    rw [hphase] at hsession
    cases hsession
  | skipped hphase => exact confined_of_tree rfl
  | @commit session trailer size actual hphase =>
    intro session' place content hsession hout hp
    have hsame : session' = session := by
      generalize hph : s.phase = phase at hphase hsession
      cases hphase <;> exact (Option.some.inj hsession).symm
    subst hsame
    exact after_tree completeReceived_commits place content hp
  | done hphase hall => exact confined_of_tree rfl
  | stay hquiet => exact confined_of_tree rfl
  | fail => exact confined_of_tree rfl

end Committed

/-! ## What is written

Every write is recorded with its place and its length, whether or not it was completed.
`WithinDeclared` is said of the record; that the file is what the record makes of it is said
beside it. -/

/-- Bytes that were written to the partial file of a session, and where. -/
structure PartWrite where
  session : PayloadSession
  offset : Nat
  bytes : Bytes

/-- A write between the resume offset and the declared size. -/
structure PartWrite.Within (w : PartWrite) : Prop where
  resume : w.session.resumeOffset ≤ w.offset
  declared : w.offset + w.bytes.length ≤ w.session.setup.declaredSize

/-- A write that stops early stays where it began. -/
theorem PartWrite.Within.take {w : PartWrite} (h : w.Within) (count : Nat) :
    ({ w with bytes := w.bytes.take count } : PartWrite).Within where
  resume := h.resume
  declared := (Nat.add_le_add_left (List.length_take_le' count w.bytes) w.offset).trans h.declared

/-- An open partial file, in the middle of a payload. -/
structure PayloadSession.Holds (s : PayloadSession) (content : Bytes) : Prop where
  kept : content.take s.resumeOffset = s.hashed
  fits : content.length ≤ s.setup.declaredSize

/-- A receiver that has stayed within the declared sizes: every byte was written between a resume
    offset and a declared size, and the partial file that is open still begins as it was negotiated. -/
structure Intake.WithinDeclared (s : Intake) (writes : List PartWrite) : Prop where
  writes : ∀ w ∈ writes, w.Within
  stands : ∀ session out content, s.phase = .payload session out content →
    s.disk.tree out = some (.file content) ∧ session.Holds content

theorem PayloadSession.Measured.holds {s : PayloadSession} (h : s.Measured) : s.Holds s.hashed where
  kept := List.take_of_length_le h.hashed.le
  fits := h.hashed ▸ h.resume

theorem PayloadSession.Holds.resume_le {s : PayloadSession} {content : Bytes} (h : s.Holds content)
    (hm : s.Measured) : s.resumeOffset ≤ content.length := by
  have hlength := congrArg List.length h.kept
  rw [List.length_take, hm.hashed] at hlength
  exact hlength ▸ Nat.min_le_right _ _

/-! ## One stream

The decompressor is a state the loop carries along. It is asked for output into a buffer of a
given size, so what can come out of one turn is bounded by what is asked for and not by what the
peer has sent. -/

/-- `receive_files` over a library: the loop, the decompressor, which the loop looks at in a
    compressed data frame only, and what was written so far. -/
structure StreamOver (zstd : Zstd) where
  recv : StreamRecv storedStream
  decompressor : Option zstd.DStream := none
  writes : List PartWrite := []

/-- Something happens to `receive_files`. The decompressor takes at most `turns` turns on a data
    frame; a write that fails has put down the first `torn` bytes. -/
structure StreamEvent where
  input : StreamInput
  turns : Nat := 0
  torn : Option Nat := none

/-- The content of the file at a place. -/
def fileAt (t : Tree) (out : Place) : Bytes :=
  match t out with
  | some (.file content) => content
  | _ => []

namespace StreamOver

variable {zstd : Zstd} (env : ReceiveEnv)

/-- A data frame, up to `commit_received_payload`: the decompressor behind it, and the bytes to
    commit. There is no answer while the decompressor is at work. -/
def decodeData (turns : Nat) (s : StreamPayload storedStream) (decompressor : Option zstd.DStream)
    (payload : Bytes) : Option (Except KikoError (Option zstd.DStream × Bytes)) :=
  let setup := s.session.setup
  if setup.useZstd then
    match decompressor, declaredRemainingLimit s.currentTotal setup.declaredSize setup.relative with
    | none, _ => some (.error "data frame before decompressor ready")
    | _, .error e => some (.error e)
    | some stream, .ok limit =>
      (ZstdStreamDecompressor.decompress payload limit turns stream).map fun result =>
        result.map fun z => (some z.stream, z.out)
  else
    some <| (if payload = [] then .ok () else
      ensureDeclaredSpaceU64 s.currentTotal setup.declaredSize payload.length setup.relative).map
        fun _ => (decompressor, payload)

/-- `commit_received_payload`: the output stream writes where its file ends. -/
def commit (r : StreamOver zstd) (s : StreamPayload storedStream) (bytes : Bytes) (torn : Option Nat) :
    StreamOver zstd :=
  if bytes = [] then r
  else
    let file := fileAt r.recv.loop.disk.tree s.out
    let write : PartWrite := { session := s.session, offset := file.length, bytes := bytes }
    match torn with
    | some count =>
      { r with
        recv :=
          { loop := r.recv.loop.put s.out (file ++ bytes.take count)
            pc := .thrown ("failed to write received file: " ++ s.session.setup.relative) }
        writes := r.writes ++ [{ write with bytes := bytes.take count }] }
    | none =>
      { r with
        recv :=
          { loop := r.recv.loop.put s.out (file ++ bytes)
            pc := .payload
              { s with
                hashed := s.hashed ++ bytes
                currentTotal := addU64 s.currentTotal bytes.length } }
        writes := r.writes ++ [write] }

/-- A data frame of an open payload. -/
def takeData (r : StreamOver zstd) (s : StreamPayload storedStream) (payload : Bytes) (turns : Nat)
    (torn : Option Nat) : Option (StreamOver zstd) :=
  match decodeData turns s r.decompressor payload with
  | none => none
  | some (.error e) => some { r with recv := { r.recv with pc := .thrown e } }
  | some (.ok (decompressor, bytes)) =>
    some (({ r with decompressor := decompressor } : StreamOver zstd).commit s bytes torn)

/-- The decompressor goes with the payload: it is made when one is opened, and otherwise reset. -/
def follow (r : StreamOver zstd) (recv : StreamRecv storedStream) : StreamOver zstd :=
  match r.recv.pc, recv.pc with
  | .payload _, .payload _ => { r with recv := recv }
  | _, .payload s =>
    if s.session.setup.useZstd then
      match ZstdStreamDecompressor.create zstd with
      | .ok stream => { r with recv := recv, decompressor := some stream }
      | .error e => { r with recv := { recv with pc := .thrown e }, decompressor := none }
    else { r with recv := recv, decompressor := none }
  | _, _ => { r with recv := recv, decompressor := none }

/-- `receive_files` goes on: all but the data frames is as in `StreamRecv.next`. -/
def next (r : StreamOver zstd) (event : StreamEvent) : Option (StreamOver zstd) :=
  match r.recv.pc, event.input with
  | .payload s, .frame (.data payload) => r.takeData s payload event.turns event.torn
  | _, input => (r.recv.next env input).map r.follow

/-- `receive_files` is called. -/
def start (zstd : Zstd) (d : Disk) : StreamOver zstd := { recv := { loop := { disk := d } } }

/-! ### What holds of it -/

/-- An open payload counts what its file holds. -/
structure Counts (s : StreamPayload storedStream) : Prop where
  total : s.currentTotal = s.hashed.length
  holds : s.session.Holds s.hashed

structure Inv (r : StreamOver zstd) : Prop where
  sound : r.recv.intake.Sound env
  measured : r.recv.pc.phase.Measured
  counts : ∀ s, r.recv.pc = .payload s → Counts s
  writes : ∀ w ∈ r.writes, w.Within

variable {env} {r r' : StreamOver zstd} {s : StreamPayload storedStream}

theorem start_inv (zstd : Zstd) (d : Disk) : (start zstd d).Inv env where
  sound := sound_start env d
  measured := trivial
  counts s h := by cases h
  writes w h := by cases h

/-- The bytes to commit fit in what is left of the declared size. -/
theorem decodeData_fits {turns : Nat} {decompressor decompressor' : Option zstd.DStream}
    {payload bytes : Bytes} (hm : s.session.Measured) (hs : Counts s)
    (h : decodeData turns s decompressor payload = some (.ok (decompressor', bytes))) :
    s.hashed.length + bytes.length ≤ s.session.setup.declaredSize := by
  unfold decodeData at h
  dsimp only at h
  split_ifs at h with hzstd hnil
  · cases decompressor with
    | none => cases h
    | some stream =>
      cases hlimit : declaredRemainingLimit s.currentTotal s.session.setup.declaredSize
          s.session.setup.relative with
      | error e =>
        rw [hlimit] at h
        cases h
      | ok limit =>
        rw [hlimit] at h
        obtain ⟨result, hrun, h⟩ := Option.map_eq_some_iff.mp h
        cases result with
        | error e => cases h
        | ok z =>
          obtain ⟨-, rfl⟩ := Prod.mk.inj (Except.ok.inj h)
          obtain ⟨hle, hroom⟩ := declaredRemainingLimit_ok hm.declared hlimit
          have hmax : limit ≤ u64Max := hroom.trans ((Nat.sub_le _ _).trans hm.declared)
          have hlength := ZstdStreamDecompressor.decompress_length hmax hrun
          rw [hs.total] at hle hroom
          exact (Nat.add_le_add_left (hlength.trans hroom) _).trans (Nat.add_sub_cancel' hle).le
  · obtain ⟨-, rfl⟩ := Prod.mk.inj (Except.ok.inj (Option.some.inj h))
    rw [hnil]
    exact hs.holds.fits
  · cases hspace : ensureDeclaredSpaceU64 s.currentTotal s.session.setup.declaredSize payload.length
        s.session.setup.relative with
    | error e =>
      rw [hspace] at h
      cases h
    | ok _ =>
      rw [hspace] at h
      obtain ⟨-, rfl⟩ := Prod.mk.inj (Except.ok.inj (Option.some.inj h))
      rw [← hs.total]
      exact (ensureDeclaredSpaceU64_ok_iff hm.declared).mp hspace

/-- What fits is committed at the end of the file. -/
theorem Inv.commit (h : r.Inv env) (hpc : r.recv.pc = .payload s) {bytes : Bytes}
    (hfits : s.hashed.length + bytes.length ≤ s.session.setup.declaredSize) (torn : Option Nat) :
    (r.commit s bytes torn).Inv env := by
  have hm : s.session.Measured := by
    have := h.measured
    rwa [hpc] at this
  have hcounts := h.counts s hpc
  have hresume := hcounts.holds.resume_le hm
  have hstored : Stored env r.recv.loop.disk.tree s.session.partPath s.out s.hashed := by
    have := h.sound.disk
    rwa [StreamRecv.intake, Loop.intake, hpc] at this
  have hfile : fileAt r.recv.loop.disk.tree s.out = s.hashed := by rw [fileAt, hstored.holds]
  -- a payload has a header before it
  have hearly : r.recv.loop.sawFileHeader = true := by
    by_contra hsaw
    rcases h.sound.early (by simpa [StreamRecv.intake, Loop.intake] using hsaw) with h' | h'
    · rw [StreamRecv.intake, Loop.intake, hpc] at h'
      cases h'
    · rw [StreamRecv.intake, Loop.intake, hpc] at h'
      cases h'
  have hwithin : ({ session := s.session, offset := s.hashed.length, bytes := bytes } : PartWrite).Within :=
    ⟨hresume, hfits⟩
  unfold StreamOver.commit
  by_cases hnil : bytes = []
  · rw [if_pos hnil]
    exact h
  rw [if_neg hnil, hfile]
  cases torn with
  -- a write that breaks off has written its first bytes, which lie where the whole would
  | some count =>
    refine ⟨⟨trivial, fun _ => .inr rfl⟩, trivial, fun s' hs' => (by cases hs'), fun w hw => ?_⟩
    rcases List.mem_append.mp hw with hw | hw
    · exact h.writes w hw
    · rw [List.mem_singleton.mp hw]
      exact hwithin.take count
  -- the counters and the file go on together
  | none =>
    have htotal : addU64 s.currentTotal bytes.length = (s.hashed ++ bytes).length := by
      rw [hcounts.total, List.length_append]
      exact addU64_eq (hfits.trans hm.declared)
    refine ⟨⟨hstored.put _, fun hsaw => ?_⟩, hm, ?_, fun w hw => ?_⟩
    · exact absurd (hearly.symm.trans hsaw) (by simp)
    · rintro s' ⟨⟩
      refine ⟨htotal, ?_, ?_⟩
      · show (s.hashed ++ bytes).take s.session.resumeOffset = s.session.hashed
        rw [List.take_append_of_le_length hresume]
        exact hcounts.holds.kept
      · show (s.hashed ++ bytes).length ≤ s.session.setup.declaredSize
        rwa [List.length_append]
    · rcases List.mem_append.mp hw with hw | hw
      · exact h.writes w hw
      · rw [List.mem_singleton.mp hw]
        exact hwithin

theorem Inv.thrown (h : r.Inv env) (e : KikoError) :
    ({ r with recv := { r.recv with pc := .thrown e } } : StreamOver zstd).Inv env where
  sound := ⟨trivial, fun _ => .inr rfl⟩
  measured := trivial
  counts s hs := by cases hs
  writes := h.writes

theorem Inv.takeData (h : r.Inv env) (hpc : r.recv.pc = .payload s) {payload : Bytes} {turns : Nat}
    {torn : Option Nat} (hs : r.takeData s payload turns torn = some r') : r'.Inv env := by
  have hm : s.session.Measured := by
    have := h.measured
    rwa [hpc] at this
  unfold StreamOver.takeData at hs
  split at hs
  next => cases hs
  next e _ =>
    obtain rfl := Option.some.inj hs
    exact h.thrown e
  next decompressor bytes hdecode =>
    obtain rfl := Option.some.inj hs
    have hsame : ({ r with decompressor := decompressor } : StreamOver zstd).Inv env :=
      ⟨h.sound, h.measured, h.counts, h.writes⟩
    exact hsame.commit hpc (decodeData_fits hm (h.counts s hpc) hdecode) torn

theorem openSession_payload {session : Session} {d d' : Disk} {s' : StreamPayload storedStream}
    (h : openSession env session d = .ok (.payload s') d') :
    s'.currentTotal = s'.session.resumeOffset ∧ s'.hashed = s'.session.hashed := by
  cases session with
  | marker setup marker => cases (pure_ok.mp h).1
  | skipPayload setup => cases (pure_ok.mp h).1
  | receivePayload session =>
    obtain ⟨out, d₁, -, h⟩ := bind_ok.mp h
    obtain rfl := StreamPc.payload.inj (pure_ok.mp h).1
    exact ⟨rfl, rfl⟩

/-- A frame that is no data leaves a payload open, or opens one. -/
theorem onFrame_payload {frame : Frame} {pc : StreamPc storedStream} {l l' : Loop} {reply : List Frame}
    {s' : StreamPayload storedStream} (h : onFrame env frame pc l = .ok (.payload s', reply) l')
    (hdata : ∀ s payload, pc = .payload s → frame ≠ .data payload) :
    pc = .payload s' ∨ s'.currentTotal = s'.session.resumeOffset ∧ s'.hashed = s'.session.hashed := by
  cases pc with
  -- A payload that is opened here has counted nothing beyond its offset.
  | await p =>
    obtain ⟨result, l₁, -, h⟩ := bind_ok.mp h
    cases result with
    | inl session =>
      obtain ⟨pc', l₂, hopen, h⟩ := bind_ok.mp h
      obtain ⟨rfl, -⟩ := Prod.mk.inj (pure_ok.mp h).1
      obtain ⟨d, hopen, -⟩ := onDisk_ok.mp hopen
      exact .inr (openSession_payload hopen)
    | inr p' => cases (pure_ok.mp h).1
  -- With a payload open every frame but data leaves it as it is, or ends it.
  | payload s =>
    cases frame with
    | manifest text =>
      obtain ⟨_, l₁, -, h⟩ := bind_ok.mp h
      exact .inl (Prod.mk.inj (pure_ok.mp h).1).1.symm
    | data payload => exact absurd rfl (hdata s payload rfl)
    | fileEnd trailer =>
      obtain ⟨_, l₁, -, h⟩ := bind_ok.mp h
      cases (pure_ok.mp h).1
    | _ => cases h
  | marker setup marker =>
    cases frame with
    | manifest text =>
      obtain ⟨_, l₁, -, h⟩ := bind_ok.mp h
      cases (pure_ok.mp h).1
    | fileEnd trailer =>
      obtain ⟨_, l₁, -, h⟩ := bind_ok.mp h
      cases (pure_ok.mp h).1
    | _ => cases h
  | skipping setup =>
    cases frame with
    | manifest text =>
      obtain ⟨_, l₁, -, h⟩ := bind_ok.mp h
      cases (pure_ok.mp h).1
    | fileEnd trailer =>
      obtain ⟨_, l₁, -, h⟩ := bind_ok.mp h
      cases (pure_ok.mp h).1
    | _ => cases h
  | _ =>
    cases frame with
    | manifest text =>
      obtain ⟨_, l₁, -, h⟩ := bind_ok.mp h
      cases (pure_ok.mp h).1
    | fileHeader header =>
      obtain ⟨_, l₁, -, h⟩ := bind_ok.mp h
      cases (pure_ok.mp h).1
    | fileEnd trailer =>
      obtain ⟨_, l₁, -, h⟩ := bind_ok.mp h
      cases (pure_ok.mp h).1
    | done =>
      obtain ⟨_, l₁, -, h⟩ := bind_ok.mp h
      cases (pure_ok.mp h).1
    | _ => cases h

/-- A payload that is open after a step of the loop was so before, or is freshly opened. -/
theorem next_payload {recv recv' : StreamRecv storedStream} {input : StreamInput}
    {s' : StreamPayload storedStream} (h : recv.next env input = some recv') (hpc : recv'.pc = .payload s')
    (hdata : ∀ s payload, recv.pc = .payload s → input ≠ .frame (.data payload)) :
    recv.pc = .payload s' ∨
      s'.currentTotal = s'.session.resumeOffset ∧ s'.hashed = s'.session.hashed := by
  obtain ⟨l, pc⟩ := recv
  unfold StreamRecv.next at h
  split_ifs at h with hover
  obtain rfl := Option.some.inj h
  have hlive : pc.over = false := by simpa using hover
  cases input with
  | closed =>
    cases pc with
    | finished => cases hlive
    | thrown e => cases hlive
    | _ => cases hpc
  | broken e => cases hpc
  | frame frame =>
    dsimp only at hpc
    rw [feed_eq hlive] at hpc
    cases hframe : onFrame env frame pc l with
    | error e l' =>
      rw [hframe] at hpc
      cases hpc
    | ok result l' =>
      obtain ⟨pc', reply⟩ := result
      rw [hframe] at hpc
      obtain rfl : pc' = .payload s' := hpc
      exact onFrame_payload hframe fun s payload hs => fun hf => hdata s payload hs (hf ▸ rfl)

/-- Where the decompressor follows, the loop stands as it has come to stand, or has thrown. -/
theorem follow_cases (r : StreamOver zstd) (recv : StreamRecv storedStream) :
    (r.follow recv).writes = r.writes ∧
      ((r.follow recv).recv = recv ∨ ∃ e, (r.follow recv).recv = { recv with pc := .thrown e }) := by
  unfold follow
  split
  · exact ⟨rfl, .inl rfl⟩
  · split_ifs
    · split
      · exact ⟨rfl, .inl rfl⟩
      · exact ⟨rfl, .inr ⟨_, rfl⟩⟩
    · exact ⟨rfl, .inl rfl⟩
  · exact ⟨rfl, .inl rfl⟩

theorem Inv.follow (h : r.Inv env) {recv : StreamRecv storedStream} (hsound : recv.intake.Sound env)
    (hmeasured : recv.pc.phase.Measured) (hcounts : ∀ s, recv.pc = .payload s → Counts s) :
    (r.follow recv).Inv env := by
  obtain ⟨hwrites, hrecv | ⟨e, hrecv⟩⟩ := r.follow_cases recv
  · refine ⟨?_, ?_, ?_, hwrites ▸ h.writes⟩ <;> rwa [hrecv]
  · refine ⟨?_, ?_, ?_, hwrites ▸ h.writes⟩
    · rw [hrecv]
      exact ⟨trivial, fun _ => .inr rfl⟩
    · rw [hrecv]
      trivial
    · intro s hs
      rw [hrecv] at hs
      cases hs

/-- **Whatever happens to `receive_files`**, it goes on within the declared size. -/
theorem Inv.next {event : StreamEvent} (h : r.Inv env) (hs : r.next env event = some r') : r'.Inv env := by
  have hother (hdata : ∀ s payload, r.recv.pc = .payload s → event.input ≠ .frame (.data payload))
      (hs : (r.recv.next env event.input).map r.follow = some r') : r'.Inv env := by
    obtain ⟨recv, hnext, rfl⟩ := Option.map_eq_some_iff.mp hs
    have hstep := StreamRecv.next_step h.sound hnext
    have hmeasured : recv.pc.phase.Measured := hstep.measured h.sound h.measured
    refine h.follow (h.sound.step hstep) hmeasured fun s hpc => ?_
    rcases next_payload hnext hpc hdata with hpc' | ⟨htotal, hhashed⟩
    · exact h.counts s hpc'
    · rw [hpc] at hmeasured
      have hm : s.session.Measured := hmeasured
      refine ⟨?_, hhashed ▸ hm.holds⟩
      rw [htotal, hhashed, hm.hashed]
  unfold StreamOver.next at hs
  split at hs
  next s payload hpc _ => exact h.takeData hpc hs
  next hne => exact hother (fun s payload hpc hinput => hne s payload hpc hinput) hs

theorem Inv.withinDeclared (h : r.Inv env) : r.recv.intake.WithinDeclared r.writes where
  writes := h.writes
  stands session out content hphase := by
    have hsound := h.sound.disk
    rw [hphase] at hsound
    refine ⟨hsound.holds, ?_⟩
    obtain ⟨⟨l, pc⟩, dec, writes⟩ := r
    cases pc with
    | payload s =>
      obtain ⟨rfl, -, rfl⟩ := Phase.payload.inj hphase
      exact (h.counts s rfl).holds
    | _ => cases hphase

theorem commit_confined (hpc : r.recv.pc = .payload s) (bytes : Bytes) (torn : Option Nat) :
    r.recv.intake.Confined (r.commit s bytes torn).recv.intake := by
  have hput (file : Bytes) : ∀ session place content, r.recv.intake.phase.session = some session →
      r.recv.intake.phase.out ≠ some place →
      (r.recv.loop.put s.out file).disk.tree place = some (.file content) →
      r.recv.loop.disk.tree place = some (.file content) ∨ content.length = session.setup.declaredSize := by
    intro session place content _ hout hp
    have hphase : r.recv.intake.phase.out = some s.out := by
      rw [StreamRecv.intake, Loop.intake, hpc]
      rfl
    have hne : place ≠ s.out := fun heq => hout (heq ▸ hphase)
    exact .inl ((Tree.set_of_ne _ _ hne).symm.trans hp)
  unfold StreamOver.commit
  by_cases hnil : bytes = []
  · rw [if_pos hnil]
    exact Intake.confined_of_tree rfl
  · rw [if_neg hnil]
    cases torn with
    | some count => exact hput _
    | none => exact hput _

/-- A step of `receive_files` commits whole files only. -/
theorem next_confined {event : StreamEvent} (h : r.Inv env) (hs : r.next env event = some r') :
    r.recv.intake.Confined r'.recv.intake := by
  unfold StreamOver.next at hs
  split at hs
  next s payload hpc _ =>
    unfold takeData at hs
    split at hs
    next => cases hs
    next =>
      obtain rfl := Option.some.inj hs
      exact Intake.confined_of_tree rfl
    next decompressor bytes _ =>
      obtain rfl := Option.some.inj hs
      have hsame : ({ r with decompressor := decompressor } : StreamOver zstd).recv.pc = .payload s := hpc
      exact commit_confined hsame bytes _
  next =>
    obtain ⟨recv, hnext, rfl⟩ := Option.map_eq_some_iff.mp hs
    have hstep := (StreamRecv.next_step h.sound hnext).confined
    obtain ⟨-, hrecv | ⟨e, hrecv⟩⟩ := r.follow_cases recv
    · rw [hrecv]
      exact hstep
    · rw [hrecv]
      exact hstep

end StreamOver

/-! ## Many channels

Here a chunk carries its own offset and length. Both are checked before the block is
decompressed, and the block is decompressed into a buffer of the length it has declared. -/

section Unpacking

variable (zstd : Zstd) (params : PayloadParams)

/-- What a reader makes of a data payload, checks in order. -/
def unpackOver (payload : Bytes) : Except KikoError Chunk :=
  if payload.length < 12 then .error "short data frame"
  else
    let offset := readU64 payload
    let rawLen := readU32 (payload.drop 8)
    if kMuxChunk < rawLen then .error ("mux data chunk too large for " ++ params.relative)
    else if offset < params.resumeOffset then
      .error ("mux data before resume offset for " ++ params.relative)
    else do
      ensureDeclaredSpaceU64 offset params.declaredSize rawLen params.relative
      let body := payload.drop 12
      let plain ← if params.useZstd then zstdDecompressBlock zstd body rawLen
        else if body.length ≠ rawLen then .error "uncompressed chunk size mismatch"
        else .ok body
      if plain.length ≠ rawLen then .error "mux decoded chunk size mismatch"
      else
        ensureDeclaredSpaceU64 offset params.declaredSize plain.length params.relative
        .ok { offset := offset, bytes := plain }

/-- What a reader makes of a frame: a chunk, the end of the file, or an error. -/
def readOver (frame : Frame) : Except KikoError (Option Chunk) :=
  match frame with
  | .chunkEnd => .ok none
  | .data payload => (unpackOver zstd params payload).map some
  | _ => .error "unexpected frame on data channel"

variable {zstd params}

/-- A chunk that is unpacked lies where the session may write. -/
theorem unpackOver_ok {payload : Bytes} {chunk : Chunk} (hdeclared : params.declaredSize ≤ u64Max)
    (h : unpackOver zstd params payload = .ok chunk) :
    params.resumeOffset ≤ chunk.offset ∧ chunk.offset + chunk.bytes.length ≤ params.declaredSize := by
  unfold unpackOver at h
  dsimp only at h
  split_ifs at h with hshort hlarge hbefore <;>
  · obtain ⟨_, -, h⟩ := exists_of_bind_ok h
    obtain ⟨plain, -, h⟩ := exists_of_bind_ok h
    split_ifs at h
    obtain ⟨_, hspace, h⟩ := exists_of_bind_ok h
    obtain rfl := Except.ok.inj h
    exact ⟨not_lt.mp hbefore, (ensureDeclaredSpaceU64_ok_iff hdeclared).mp hspace⟩

/-- Over a library that gives blocks back, a reader does what it does in `MuxReceive`. -/
theorem unpackOver_eq {codec : BlockCodec} {payload : Bytes} (hdeclared : params.declaredSize ≤ u64Max)
    (hcodec : ∀ input size, zstdDecompressBlock zstd input size = codec.decompress input size) :
    unpackOver zstd params payload = unpackChunk codec params payload := by
  unfold unpackOver unpackChunk
  simp only [ensureDeclaredSpaceU64_eq hdeclared, hcodec]

end Unpacking

/-- A reader takes the frame at the front of its channel. -/
def MuxRecv.acceptOver {n : Nat} (zstd : Zstd) (params : PayloadParams) (k : Fin n) (frame : Frame)
    (r : MuxRecv n) : Option (MuxRecv n) :=
  if (r.taps k).pc = .reading then
    let tap : Tap := { r.taps k with got := (r.taps k).got ++ [frame] }
    match readOver zstd params frame with
    | .ok none => some (r.setTap k { tap with pc := .done })
    | .ok (some chunk) =>
      some (r.setTap k { tap with pc := .decoded chunk, received := tap.received ++ [chunk] })
    | .error error => some ((r.setTap k tap).recordFailure k error)
  else none

/-- `record_written_range_locked`, the end of the range on 64-bit words. -/
def recordWrittenRangeU64 (ranges : Pieces.Ranges Nat) (offset size : Nat) : Pieces.Ranges Nat × Nat :=
  let ranges' := if size = 0 then ranges else ranges.add offset (addU64 offset size)
  (ranges', ranges'.front - ranges.front)

theorem recordWrittenRangeU64_eq (ranges : Pieces.Ranges Nat) {offset size : Nat}
    (h : offset + size ≤ u64Max) :
    recordWrittenRangeU64 ranges offset size = recordWrittenRange ranges offset size := by
  rw [recordWrittenRangeU64, recordWrittenRange, addU64_eq h]

/-- A reader, under the file lock, writes its chunk and records the range. -/
def MuxRecv.writeOver {n : Nat} (k : Fin n) (chunk : Chunk) (r : MuxRecv n) : MuxRecv n :=
  let recorded := recordWrittenRangeU64 r.ranges chunk.offset chunk.bytes.length
  { r with
    part := Pieces.overwrite 0 r.part chunk.offset chunk.bytes
    ranges := recorded.1
    log := r.log ++ [chunk] }.setTap k { r.taps k with pc := .wrote chunk.bytes.length recorded.2 }

/-- The write of a reader fails behind its first `count` bytes. -/
def MuxRecv.tear {n : Nat} (k : Fin n) (chunk : Chunk) (count : Nat) (r : MuxRecv n) : MuxRecv n :=
  { r with part := Pieces.overwrite 0 r.part chunk.offset (chunk.bytes.take count) }.recordFailure k
    "write failed during mux receive"

/-- A reader adds its chunk to the count, and reports how far the prefix has come. -/
def MuxRecv.countOver {n : Nat} (k : Fin n) (r : MuxRecv n) : Option (MuxRecv n) :=
  match (r.taps k).pc with
  | .wrote size delta =>
    some ({ r with written := addU64 r.written size, advanced := r.advanced + delta }.setTap k
      { r.taps k with pc := .reading })
  | _ => none

/-- `receive_files_mux` over a library: the loop with its readers, and what was written so far. -/
structure MuxOver (n : Nat) where
  recv : MuxLoop n
  writes : List PartWrite := []

inductive MuxEvent (n : Nat)
  | input (input : MuxInput n)
  /-- the write of a reader fails behind its first `count` bytes -/
  | torn (k : Fin n) (count : Nat)

namespace MuxOver

variable {m n : Nat} (zstd : Zstd) (env : ReceiveEnv)

/-- Something happens while the readers are at work. -/
def readers (r : MuxOver n) (s : PayloadSession) (out : Place) (recv : MuxRecv n) :
    MuxEvent n → Option (MuxOver n)
  | .input (.take k frame) =>
    (recv.acceptOver zstd s.params k frame).map fun recv' => { r with recv := r.recv.wrote s out recv' }
  | .input (.work (.write k)) =>
    match (recv.taps k).pc with
    | .decoded chunk =>
      some
        { recv := r.recv.wrote s out (recv.writeOver k chunk)
          writes := r.writes ++ [{ session := s, offset := chunk.offset, bytes := chunk.bytes }] }
    | _ => none
  | .input (.work (.count k)) =>
    (recv.countOver k).map fun recv' => { r with recv := r.recv.wrote s out recv' }
  | .input (.work (.fail k e)) =>
    (recv.fail k e).map fun recv' => { r with recv := r.recv.wrote s out recv' }
  | .input .ret => r.recv.ret.map fun recv' => { r with recv := recv' }
  | .torn k count =>
    match (recv.taps k).pc with
    | .decoded chunk =>
      some
        { recv := r.recv.wrote s out (recv.tear k chunk count)
          writes := r.writes ++
            [{ session := s, offset := chunk.offset, bytes := chunk.bytes.take count }] }
    | _ => none
  | _ => none

/-- `receive_files_mux` goes on: all but the readers is as in `MuxLoop.next`. -/
def next (r : MuxOver (m + 1)) (event : MuxEvent (m + 1)) : Option (MuxOver (m + 1)) :=
  match r.recv.pc with
  | .receiving s out recv => r.readers zstd s out recv event
  | _ =>
    match event with
    | .input input =>
      (r.recv.next env MuxDelivery.storedCodec input).map fun recv => { r with recv := recv }
    | .torn _ _ => none

/-- `receive_files_mux` is called. -/
def start (m : Nat) (d : Disk) : MuxOver (m + 1) := { recv := { loop := { disk := d } } }

/-! ### What holds of it -/

/-- The readers write to an open file within their bounds, and have in hand what lies there. -/
structure Bounded (s : PayloadSession) (recv : MuxRecv n) : Prop where
  holds : s.Holds recv.part
  decoded : ∀ k chunk, (recv.taps k).pc = .decoded chunk →
    ({ session := s, offset := chunk.offset, bytes := chunk.bytes } : PartWrite).Within

structure Inv (r : MuxOver n) : Prop where
  sound : r.recv.intake.Sound env
  measured : r.recv.pc.phase.Measured
  bounded : ∀ s out recv, r.recv.pc = .receiving s out recv → Bounded s recv
  writes : ∀ w ∈ r.writes, w.Within

variable {zstd env} {s : PayloadSession} {out : Place} {recv recv' : MuxRecv n} {k : Fin n} {chunk : Chunk}

/-- A write within its bounds leaves the file within them, and what was there before the resume
    offset as it was. -/
theorem holds_overwrite {content bytes : Bytes} {offset : Nat} (h : s.Holds content) (hm : s.Measured)
    (hw : ({ session := s, offset := offset, bytes := bytes } : PartWrite).Within) :
    s.Holds (Pieces.overwrite 0 content offset bytes) where
  kept := by
    rw [← h.kept]
    refine List.ext_getElem? fun x => ?_
    rw [List.getElem?_take, List.getElem?_take]
    by_cases hx : x < s.resumeOffset
    · rw [if_pos hx, if_pos hx]
      have hresume := h.resume_le hm
      exact Pieces.getElem?_overwrite_notMem (hx.trans_le hresume) (.inl (hx.trans_le hw.resume))
    · rw [if_neg hx, if_neg hx]
  fits := (Pieces.length_overwrite_le _ _ _ _).trans (max_le h.fits hw.declared)

/-- A reader that comes to have nothing in hand. -/
theorem Bounded.setTap (h : Bounded s recv) {tap : Tap}
    (htap : ∀ chunk, tap.pc = .decoded chunk →
      ({ session := s, offset := chunk.offset, bytes := chunk.bytes } : PartWrite).Within) :
    Bounded s (recv.setTap k tap) where
  holds := h.holds
  decoded j chunk hj := by
    by_cases hjk : j = k
    · subst hjk
      rw [MuxRecv.setTap_taps_self] at hj
      exact htap chunk hj
    · rw [MuxRecv.setTap_taps_of_ne _ _ hjk] at hj
      exact h.decoded j chunk hj

theorem Bounded.recordFailure (h : Bounded s recv) (e : KikoError) : Bounded s (recv.recordFailure k e) := by
  have hsame : Bounded s { recv with error := some (recv.error.getD e) } := ⟨h.holds, h.decoded⟩
  exact hsame.setTap fun chunk hchunk => by cases hchunk

theorem Bounded.accept (h : Bounded s recv) (hm : s.Measured) {frame : Frame}
    (hs : recv.acceptOver zstd s.params k frame = some recv') : Bounded s recv' := by
  unfold MuxRecv.acceptOver at hs
  split_ifs at hs with hpc
  dsimp only at hs
  split at hs
  next =>
    obtain rfl := Option.some.inj hs
    exact h.setTap fun chunk hchunk => by cases hchunk
  next chunk hread =>
    obtain rfl := Option.some.inj hs
    refine h.setTap ?_
    rintro _ ⟨⟩
    cases frame with
    | data payload =>
      have hunpack : unpackOver zstd s.params payload = .ok chunk := by
        cases hu : unpackOver zstd s.params payload with
        | error e =>
          rw [readOver, hu] at hread
          cases hread
        | ok c =>
          rw [readOver, hu] at hread
          rw [Option.some.inj (Except.ok.inj hread)]
      obtain ⟨hresume, hdeclared⟩ := unpackOver_ok hm.declared hunpack
      exact ⟨hresume, hdeclared⟩
    | chunkEnd => cases hread
    | _ => cases hread
  next e _ =>
    obtain rfl := Option.some.inj hs
    have htap : Bounded s (recv.setTap k { recv.taps k with got := (recv.taps k).got ++ [frame] }) :=
      h.setTap fun chunk hchunk => h.decoded k chunk hchunk
    exact htap.recordFailure e

theorem Bounded.write (h : Bounded s recv) (hm : s.Measured) (hpc : (recv.taps k).pc = .decoded chunk) :
    Bounded s (recv.writeOver k chunk) := by
  have hwritten : Bounded s { recv with
      part := Pieces.overwrite 0 recv.part chunk.offset chunk.bytes
      ranges := (recordWrittenRangeU64 recv.ranges chunk.offset chunk.bytes.length).1
      log := recv.log ++ [chunk] } := ⟨holds_overwrite h.holds hm (h.decoded k chunk hpc), h.decoded⟩
  exact hwritten.setTap fun chunk' hchunk => by cases hchunk

theorem Bounded.tear (h : Bounded s recv) (hm : s.Measured) (hpc : (recv.taps k).pc = .decoded chunk)
    (count : Nat) : Bounded s (recv.tear k chunk count) := by
  have hwithin := (h.decoded k chunk hpc).take count
  have htorn : Bounded s
      { recv with part := Pieces.overwrite 0 recv.part chunk.offset (chunk.bytes.take count) } :=
    ⟨holds_overwrite h.holds hm hwithin, h.decoded⟩
  exact htorn.recordFailure _

theorem Bounded.count (h : Bounded s recv) (hs : recv.countOver k = some recv') : Bounded s recv' := by
  unfold MuxRecv.countOver at hs
  split at hs
  next size delta _ =>
    obtain rfl := Option.some.inj hs
    have hsame : Bounded s
        { recv with written := addU64 recv.written size, advanced := recv.advanced + delta } :=
      ⟨h.holds, h.decoded⟩
    exact hsame.setTap fun chunk hchunk => by cases hchunk
  next => cases hs

theorem Bounded.fail (h : Bounded s recv) {e : KikoError} (hs : recv.fail k e = some recv') :
    Bounded s recv' := by
  unfold MuxRecv.fail at hs
  split_ifs at hs
  obtain rfl := Option.some.inj hs
  exact h.recordFailure e

variable {r r' : MuxOver n}

theorem start_inv (m : Nat) (d : Disk) : (start m d).Inv env where
  sound := sound_start env d
  measured := trivial
  bounded s out recv h := by cases h
  writes w h := by cases h

/-- The readers have gone on within their bounds. -/
theorem Inv.wrote (h : r.Inv env) (hpc : r.recv.pc = .receiving s out recv) (hb : Bounded s recv')
    {writes : List PartWrite} (hwrites : ∀ w ∈ writes, w.Within) :
    ({ recv := r.recv.wrote s out recv', writes := writes } : MuxOver n).Inv env := by
  obtain ⟨⟨l, pc⟩, ws⟩ := r
  obtain rfl : pc = .receiving s out recv := hpc
  refine ⟨h.sound.step (wrote_step recv'), h.measured, ?_, hwrites⟩
  rintro s' out' recv'' ⟨⟩
  exact hb

/-- `receive` returns: what it cuts off the file, nobody has written since. -/
theorem Inv.ret {r : MuxOver (m + 1)} {recv' : MuxLoop (m + 1)} (h : r.Inv env)
    (hret : r.recv.ret = some recv') : ({ r with recv := recv' } : MuxOver (m + 1)).Inv env := by
  have hnext : r.recv.next env MuxDelivery.storedCodec .ret = some recv' := hret
  have hstep := MuxLoop.next_step h.sound hnext
  refine ⟨h.sound.step hstep, hstep.measured h.sound h.measured, ?_, h.writes⟩
  intro s out recv hpc
  unfold MuxLoop.ret at hret
  split at hret
  next =>
    split_ifs at hret
    obtain rfl := Option.some.inj hret
    unfold MuxLoop.returned at hpc
    dsimp only at hpc
    split at hpc <;> cases hpc
  next => cases hret

theorem Inv.readers {r r' : MuxOver (m + 1)} {recv : MuxRecv (m + 1)} {event : MuxEvent (m + 1)}
    (h : r.Inv env) (hpc : r.recv.pc = .receiving s out recv)
    (hs : r.readers zstd s out recv event = some r') : r'.Inv env := by
  have hm : s.Measured := by
    have := h.measured
    rwa [hpc] at this
  have hb := h.bounded s out recv hpc
  have hwrites {w : PartWrite} (hw : w.Within) : ∀ w' ∈ r.writes ++ [w], w'.Within := by
    intro w' hmem
    rcases List.mem_append.mp hmem with hmem | hmem
    · exact h.writes w' hmem
    · exact List.mem_singleton.mp hmem ▸ hw
  unfold MuxOver.readers at hs
  split at hs
  next k frame =>
    obtain ⟨recv', hstep, rfl⟩ := Option.map_eq_some_iff.mp hs
    exact h.wrote hpc (hb.accept hm hstep) h.writes
  next k =>
    split at hs
    next chunk hchunk =>
      obtain rfl := Option.some.inj hs
      exact h.wrote hpc (hb.write hm hchunk) (hwrites (hb.decoded k chunk hchunk))
    next => cases hs
  next k =>
    obtain ⟨recv', hstep, rfl⟩ := Option.map_eq_some_iff.mp hs
    exact h.wrote hpc (hb.count hstep) h.writes
  next k e =>
    obtain ⟨recv', hstep, rfl⟩ := Option.map_eq_some_iff.mp hs
    exact h.wrote hpc (hb.fail hstep) h.writes
  next =>
    obtain ⟨recv', hret, rfl⟩ := Option.map_eq_some_iff.mp hs
    exact h.ret hret
  next k count =>
    split at hs
    next chunk hchunk =>
      obtain rfl := Option.some.inj hs
      exact h.wrote hpc (hb.tear hm hchunk count) (hwrites ((hb.decoded k chunk hchunk).take count))
    next => cases hs
  next => cases hs

/-- Readers that are set to work find the file as it was negotiated. -/
theorem openMuxSession_receiving {session : Session} {d d' : Disk}
    (hready : ∀ s, session = .receivePayload s → Ready env d.tree s)
    (h : openMuxSession env n session d = .ok (.receiving s out recv) d') :
    recv = MuxRecv.start n s.hashed s.resumeOffset := by
  cases session with
  | marker setup marker => cases (pure_ok.mp h).1
  | skipPayload setup => cases (pure_ok.mp h).1
  | receivePayload session =>
    obtain ⟨⟨place, content⟩, d₁, hopen, h⟩ := bind_ok.mp h
    obtain ⟨rfl, rfl, rfl⟩ := MuxPc.receiving.inj (pure_ok.mp h).1
    have hpart := openPart_openMux (hready _ rfl)
    rw [hopen, ReceiveEnv.openPart, bind_tree] at hpart
    cases hp : env.partPlace d.tree s.partPath with
    | none =>
      rw [hp] at hpart
      cases hpart
    | some opened =>
      rw [hp] at hpart
      have hphase := (pure_ok.mp hpart).1
      have hcontent : content = s.hashed := (Phase.payload.inj hphase).2.2
      rw [hcontent]

theorem onControl_receiving {frame : Frame} {pc : MuxPc n} {l l' : Loop} {reply : List Frame}
    (hsound : pc.phase.Sound env l.disk.tree) (hidle : ∀ s out recv, pc ≠ .receiving s out recv)
    (h : onControl env frame pc l = .ok (.receiving s out recv, reply) l') :
    recv = MuxRecv.start n s.hashed s.resumeOffset := by
  cases pc with
  | receiving s out recv => exact absurd rfl (hidle s out recv)
  -- Only the answer to a question sets readers to work, and it starts them afresh.
  | await p =>
    obtain ⟨result, l₁, hack, h⟩ := bind_ok.mp h
    obtain ⟨d, hanswer, rfl⟩ := onDisk_ok.mp hack
    cases result with
    | inl session =>
      obtain ⟨pc', l₂, hopen, h⟩ := bind_ok.mp h
      obtain ⟨rfl, -⟩ := Prod.mk.inj (pure_ok.mp h).1
      obtain ⟨d', hopen, -⟩ := onDisk_ok.mp hopen
      exact openMuxSession_receiving (fun s hs => (onAck_ready hsound).1 s (hs ▸ hanswer)) hopen
    | inr p' => cases (pure_ok.mp h).1
  | idle =>
    cases frame with
    | manifest text =>
      obtain ⟨_, l₁, -, h⟩ := bind_ok.mp h
      cases (pure_ok.mp h).1
    | done =>
      obtain ⟨_, l₁, -, h⟩ := bind_ok.mp h
      cases (pure_ok.mp h).1
    | fileHeader header =>
      obtain ⟨_, l₁, -, h⟩ := bind_ok.mp h
      cases (pure_ok.mp h).1
    | _ => cases h
  | marker setup marker =>
    cases frame with
    | fileEnd trailer =>
      obtain ⟨_, l₁, -, h⟩ := bind_ok.mp h
      cases (pure_ok.mp h).1
    | _ => cases h
  | skipping setup k =>
    by_cases hk : k < n
    · cases frame with
      | chunkEnd =>
        simp only [onControl, if_pos hk] at h
        cases (pure_ok.mp h).1
      | _ =>
        simp only [onControl, if_pos hk] at h
        cases h
    · cases frame with
      | fileEnd trailer =>
        simp only [onControl, if_neg hk] at h
        obtain ⟨_, l₁, -, h⟩ := bind_ok.mp h
        cases (pure_ok.mp h).1
      | _ =>
        simp only [onControl, if_neg hk] at h
        cases h
  | payloadEnd s written =>
    cases frame with
    | fileEnd trailer =>
      obtain ⟨_, l₁, -, h⟩ := bind_ok.mp h
      cases (pure_ok.mp h).1
    | _ => cases h
  | _ => cases h

/-- A step of the loop that no reader takes part in sets readers to work at the start, or none. -/
theorem next_receiving {recv recv' : MuxLoop (m + 1)} {input : MuxInput (m + 1)}
    {readers : MuxRecv (m + 1)} (hsound : recv.intake.Sound env)
    (hidle : ∀ s out readers, recv.pc ≠ .receiving s out readers)
    (h : recv.next env MuxDelivery.storedCodec input = some recv')
    (hpc : recv'.pc = .receiving s out readers) :
    readers = MuxRecv.start (m + 1) s.hashed s.resumeOffset := by
  obtain ⟨l, pc⟩ := recv
  have hnot : ∀ s out readers, pc ≠ .receiving s out readers := hidle
  cases input with
  | take k frame =>
    obtain ⟨⟨r₁, reply⟩, htake, rfl⟩ := Option.map_eq_some_iff.mp h
    have hcontrol : r₁ = ((MuxLoop.mk l pc).control env frame).1 := by
      unfold MuxLoop.take at htake
      split at htake
      next s out readers hpc' => exact absurd hpc' (hnot s out readers)
      next =>
        split_ifs at htake
        exact (congrArg Prod.fst (Option.some.inj htake)).symm
    subst hcontrol
    unfold MuxLoop.control at hpc
    cases hframe : onControl env frame pc l with
    | error e l' =>
      rw [hframe] at hpc
      cases hpc
    | ok result l' =>
      obtain ⟨pc', reply'⟩ := result
      rw [hframe] at hpc
      obtain rfl : pc' = .receiving s out readers := hpc
      exact onControl_receiving hsound.disk hnot hframe
  | work move =>
    cases pc with
    | receiving s out readers => exact absurd rfl (hnot s out readers)
    | _ => cases h
  | ret =>
    cases pc with
    | receiving s out readers => exact absurd rfl (hnot s out readers)
    | _ => cases h
  | closed =>
    cases pc with
    | receiving s out readers => exact absurd rfl (hnot s out readers)
    | finished => cases h
    | thrown e => cases h
    | _ =>
      obtain rfl := Option.some.inj h
      cases hpc
  | broken e =>
    cases pc with
    | receiving s out readers => exact absurd rfl (hnot s out readers)
    | finished => cases h
    | thrown e => cases h
    | _ =>
      obtain rfl := Option.some.inj h
      cases hpc

/-- **Whatever happens to `receive_files_mux`**, it goes on within the declared size. -/
theorem Inv.next {r r' : MuxOver (m + 1)} {event : MuxEvent (m + 1)} (h : r.Inv env)
    (hs : r.next zstd env event = some r') : r'.Inv env := by
  unfold MuxOver.next at hs
  split at hs
  next s out recv hpc => exact h.readers hpc hs
  next hidle =>
    cases event with
    | torn k count => cases hs
    | input input =>
      obtain ⟨recv', hnext, rfl⟩ := Option.map_eq_some_iff.mp hs
      have hstep := MuxLoop.next_step h.sound hnext
      have hmeasured : recv'.pc.phase.Measured := hstep.measured h.sound h.measured
      refine ⟨h.sound.step hstep, hmeasured, fun s out readers hpc => ?_, h.writes⟩
      have hpc' : recv'.pc = .receiving s out readers := hpc
      rw [hpc'] at hmeasured
      have hm : s.Measured := hmeasured
      rw [next_receiving h.sound (fun s out readers hr => hidle s out readers hr) hnext hpc']
      exact ⟨hm.holds, fun k chunk hk => by cases hk⟩

theorem Inv.withinDeclared (h : r.Inv env) : r.recv.intake.WithinDeclared r.writes where
  writes := h.writes
  stands session out content hphase := by
    have hsound := h.sound.disk
    rw [hphase] at hsound
    refine ⟨hsound.holds, ?_⟩
    obtain ⟨⟨l, pc⟩, writes⟩ := r
    cases pc with
    | receiving s out recv =>
      obtain ⟨rfl, -, rfl⟩ := Phase.payload.inj hphase
      exact (h.bounded s out recv rfl).holds
    | _ => cases hphase

theorem readers_confined {r r' : MuxOver (m + 1)} {recv : MuxRecv (m + 1)} {event : MuxEvent (m + 1)}
    (h : r.Inv env) (hpc : r.recv.pc = .receiving s out recv)
    (hs : r.readers zstd s out recv event = some r') : r.recv.intake.Confined r'.recv.intake := by
  have hwrote (recv' : MuxRecv (m + 1)) :
      r.recv.intake.Confined (r.recv.wrote s out recv').intake := by
    obtain ⟨⟨l, pc⟩, ws⟩ := r
    obtain rfl : pc = .receiving s out recv := hpc
    have hstep : Intake.Step env (MuxLoop.mk l (.receiving s out recv)).intake none
        ((MuxLoop.mk l (.receiving s out recv)).wrote s out recv').intake := wrote_step recv'
    exact hstep.confined
  unfold MuxOver.readers at hs
  split at hs
  next k frame =>
    obtain ⟨recv', -, rfl⟩ := Option.map_eq_some_iff.mp hs
    exact hwrote recv'
  next k =>
    split at hs
    next => exact Option.some.inj hs ▸ hwrote _
    next => cases hs
  next k =>
    obtain ⟨recv', -, rfl⟩ := Option.map_eq_some_iff.mp hs
    exact hwrote recv'
  next k e =>
    obtain ⟨recv', -, rfl⟩ := Option.map_eq_some_iff.mp hs
    exact hwrote recv'
  next =>
    obtain ⟨recv', hret, rfl⟩ := Option.map_eq_some_iff.mp hs
    have hnext : r.recv.next env MuxDelivery.storedCodec .ret = some recv' := hret
    exact (MuxLoop.next_step h.sound hnext).confined
  next k count =>
    split at hs
    next => exact Option.some.inj hs ▸ hwrote _
    next => cases hs
  next => cases hs

/-- A step of `receive_files_mux` commits whole files only. -/
theorem next_confined {r r' : MuxOver (m + 1)} {event : MuxEvent (m + 1)} (h : r.Inv env)
    (hs : r.next zstd env event = some r') : r.recv.intake.Confined r'.recv.intake := by
  unfold MuxOver.next at hs
  split at hs
  next s out recv hpc => exact readers_confined h hpc hs
  next =>
    cases event with
    | torn k count => cases hs
    | input input =>
      obtain ⟨recv', hnext, rfl⟩ := Option.map_eq_some_iff.mp hs
      exact (MuxLoop.next_step h.sound hnext).confined

end MuxOver

/-- **The declared size is a hard bound.** Whatever a peer sends, over one stream or over any number
    of channels, and whatever the library makes of it: every byte that is written to a partial file
    lies between the resume offset and the declared size, what is committed has the declared size,
    and the check behind this means the same on 64-bit words as on numbers. -/
theorem declared_size_bounds (zstd : Zstd) (env : ReceiveEnv) (d : Disk) :
    (∀ r, Lts.Reach (StreamOver.next env) (StreamOver.start zstd d) r →
      r.recv.intake.WithinDeclared r.writes ∧
        ∀ event r', r.next env event = some r' → r.recv.intake.Confined r'.recv.intake) ∧
    (∀ m r, Lts.Reach (MuxOver.next zstd env) (MuxOver.start m d) r →
      r.recv.intake.WithinDeclared r.writes ∧
        ∀ event r', r.next zstd env event = some r' → r.recv.intake.Confined r'.recv.intake) ∧
    ∀ currentTotal declaredSize nextSize relative, declaredSize ≤ u64Max →
      (ensureDeclaredSpaceU64 currentTotal declaredSize nextSize relative = .ok () ↔
        currentTotal + nextSize ≤ declaredSize) := by
  refine ⟨fun r hr => ?_, fun m r hr => ?_, fun _ _ _ _ => ensureDeclaredSpaceU64_ok_iff⟩
  · have hinv : r.Inv env := hr.invariant (StreamOver.start_inv zstd d) fun h _ hs => h.next hs
    exact ⟨hinv.withinDeclared, fun event r' hs => StreamOver.next_confined hinv hs⟩
  · have hinv : r.Inv env := hr.invariant (MuxOver.start_inv m d) fun h _ hs => h.next hs
    exact ⟨hinv.withinDeclared, fun event r' hs => MuxOver.next_confined hinv hs⟩

end Kiko.Transfer
