import Kiko.Lib.Dialogue
import Kiko.Transfer.TransferLoop

/-!
# What an entry comes to, on either path

Sender and receiver of one path exchange frames; what the exchange does to the receiver can
be said without them. `exchange` says it for an entry whose header has been taken, and
`transferAll` for a whole transfer. This is the abstract receiver: both loops are compared
with it, and with each other only through it.

Two facts make it possible. The question a receiver asks about a header of an honest sender
is one the sender can answer (`Offers`, `takeFileHeader_offers`), and the answer is one the
receiver takes (`onResume_eq`, `onAck_eq`): no entry makes one side expect what the other
does not send.

The abstract receiver is a function, where the two systems are relations: with an honest
sender the only choice left is the order of the threads, and what an entry comes to does
not depend on it. So the proofs about the systems have a value to arrive at, and a
comparison of the two is an equation.

It is written in the operations of `Kiko.Transfer.FileSession`, with the frames between
them left out. An operation that throws ends it with the disk as it was left, as it ends
the loops.
-/

set_option autoImplicit false

namespace Kiko.Transfer

open Lexical FileTree

/-! ## Steps in sequence

`ReceiveM` keeps its state when it throws, so its `bind` is not the one of a state monad
over errors. These are the inversion lemmas of it; nothing below unfolds a `bind`. -/

section Sequence

variable {ε σ α β : Type} {x : EStateM ε σ α} {f : α → EStateM ε σ β} {s s₁ s' : σ} {a : α}

theorem bind_ok {b : β} :
    (x >>= f) s = .ok b s' ↔ ∃ a s₁, x s = .ok a s₁ ∧ f a s₁ = .ok b s' := by
  simp only [bind, EStateM.bind]
  cases x s with
  | ok a s₁ => simp
  | error e s₁ => simp

theorem bind_of_ok (h : x s = .ok a s₁) : (x >>= f) s = f a s₁ := by
  simp only [bind, EStateM.bind, h]

theorem bind_of_error {e : ε} (h : x s = .error e s₁) : (x >>= f) s = .error e s₁ := by
  simp only [bind, EStateM.bind, h]

theorem pure_ok {b : α} : (pure a : EStateM ε σ α) s = .ok b s' ↔ b = a ∧ s' = s := by
  simp [pure, EStateM.pure, eq_comm]

theorem bind_modify {g : σ → σ} {f : Unit → EStateM ε σ β} :
    ((modify g : EStateM ε σ Unit) >>= f) s = f () (g s) := rfl

theorem bind_get {f : σ → EStateM ε σ β} : ((get : EStateM ε σ σ) >>= f) s = f s s := rfl

theorem throw_ne_ok {e : ε} : (throw e : EStateM ε σ α) s ≠ .ok a s' := by
  simp [throw, throwThe, MonadExceptOf.throw, EStateM.throw]

end Sequence

section Disk

variable {α β : Type} {d d' : Disk} {f : α → ReceiveM β} {b : β}

/-- A check leaves the disk as it is. -/
theorem bind_check_ok {result : Except KikoError α} :
    (ReceiveM.check result >>= f) d = .ok b d' ↔ ∃ a, result = .ok a ∧ f a d = .ok b d' := by
  cases result with
  | ok a => simp [ReceiveM.check, bind, EStateM.bind, pure, EStateM.pure]
  | error e =>
    simp [ReceiveM.check, bind, EStateM.bind, throw, throwThe, MonadExceptOf.throw, EStateM.throw]

theorem bind_tree {f : Tree → ReceiveM β} : (ReceiveM.tree >>= f) d = f d.tree d := rfl

theorem bind_status {text : String} {f : Unit → ReceiveM β} :
    (ReceiveM.status text >>= f) d = f () { d with log := d.log ++ [.status text] } := rfl

theorem bind_change {places : List Place} {t : Tree} {f : Unit → ReceiveM β} :
    (ReceiveM.change places t >>= f) d =
      f () { d with tree := t, touched := d.touched ++ places } := rfl

theorem bind_touch {places : List Place} {f : Unit → ReceiveM β} :
    (ReceiveM.touch places >>= f) d = f () { d with touched := d.touched ++ places } := rfl

theorem change_ok {places : List Place} {t : Tree} :
    ReceiveM.change places t d = .ok () d' ↔
      d' = { d with tree := t, touched := d.touched ++ places } := by
  simp [ReceiveM.change, modify, modifyGet, MonadStateOf.modifyGet, EStateM.modifyGet, eq_comm]

theorem onDisk_ok {m : ReceiveM α} {l l' : Loop} {a : α} :
    LoopM.onDisk m l = .ok a l' ↔ ∃ d, m l.disk = .ok a d ∧ l' = { l with disk := d } := by
  simp only [LoopM.onDisk]
  cases m l.disk with
  | ok b d => simp [eq_comm]
  | error e d => simp

end Disk

/-! ## The question of a receiver

Whatever stood on the disk, what is offered is a partial file with its own length and
digest, or nothing. -/

/-- What a receiver says it has of a file is what stands in the partial file, and no more
    than the file will have; nothing but a file stands there. -/
structure Offered (env : ReceiveEnv) (t : Tree) (part : FsPath) (declaredSize : Nat)
    (hashed : Bytes) : Prop where
  length_le : hashed.length ≤ declaredSize
  stands : env.symlinkStatus t part = none ∨
    ∃ content, env.symlinkStatus t part = some (.file content)
  whole : hashed ≠ [] → env.symlinkStatus t part = some (.file hashed)

/-- The question is one about this source's entry. -/
def Offers (env : ReceiveEnv) (source : Source env.prims) (t : Tree) : Pending → Prop
  | .marker _ _ => transferEntryKind source.entry ≠ .file
  | .conflictSkip setup | .duplicate setup =>
    transferEntryKind source.entry = .file ∧ setup.declaredSize = source.entry.size
  | .payload setup part hashed _ =>
    transferEntryKind source.entry = .file ∧ setup.declaredSize = source.entry.size ∧
      setup.useZstd = shouldCompressEntry source.entry ∧
      Offered env t part setup.declaredSize hashed

section Prepare

variable {env : ReceiveEnv} {setup : EntrySetup} {current : FsPath} {header : Message}
  {plan : Option ReceivePlan} {p : Pending} {d d' : Disk}

theorem offerPartial_ok (h : env.offerPartial setup current d = .ok p d') :
    ∃ part hashed prefixSha256,
      p = .payload { setup with currentPath := current } part hashed prefixSha256 ∧
        Offered env d'.tree part setup.declaredSize hashed := by
  simp only [ReceiveEnv.offerPartial, bind_check_ok, bind_tree] at h
  obtain ⟨_, hpart, have_, hhave, h⟩ := h
  unfold ReceiveEnv.validateReceivePartPath at hpart
  unfold ReceiveEnv.resumablePartSize at hhave
  unfold ReceiveEnv.hashExistingPartPrefix at h
  cases hnode : env.symlinkStatus d.tree (partPathFor current) with
  | none =>
    obtain rfl : 0 = have_ := by simpa [hnode] using hhave
    obtain ⟨rfl, rfl⟩ := pure_ok.mp h
    exact ⟨_, _, _, rfl, by simp, .inl hnode, fun hne => absurd rfl hne⟩
  | some node =>
    cases node with
    | dir => simp [hnode] at hpart
    | symlink target => simp [hnode] at hpart
    | file content =>
      simp only [hnode, Except.ok.injEq] at hhave h
      by_cases hpos : 0 < have_
      · -- the whole partial file is offered
        have hle : content.length ≤ setup.declaredSize := by
          by_contra hlt
          rw [if_pos (by omega)] at hhave
          omega
        rw [if_neg (by omega)] at hhave
        subst hhave
        rw [if_pos hpos, if_pos (Nat.le_refl _), List.take_length] at h
        obtain ⟨rfl, rfl⟩ := pure_ok.mp h
        exact ⟨_, _, _, rfl, hle, .inr ⟨_, hnode⟩, fun _ => hnode⟩
      · rw [if_neg hpos] at h
        obtain ⟨rfl, rfl⟩ := pure_ok.mp h
        exact ⟨_, _, _, rfl, by simp, .inr ⟨_, hnode⟩, fun hne => absurd rfl hne⟩

theorem preparePayload_ok (h : env.preparePayload setup d = .ok p d') :
    ∃ current part hashed prefixSha256,
      p = .payload { setup with currentPath := current } part hashed prefixSha256 ∧
        Offered env d'.tree part setup.declaredSize hashed := by
  obtain ⟨current, d₁, -, h⟩ := bind_ok.mp h
  rw [bind_tree, bind_check_ok] at h
  obtain ⟨_, -, h⟩ := h
  obtain ⟨_, d₂, -, h⟩ := bind_ok.mp h
  exact ⟨current, offerPartial_ok h⟩

theorem prepareSymlink_ok (h : env.prepareSymlink setup d = .ok p d') :
    ∃ current skip, p = .marker { setup with currentPath := current } (.symlink (setup.header.get "target") skip) := by
  simp only [ReceiveEnv.prepareSymlink, bind_check_ok, bind_tree] at h
  obtain ⟨_, -, h⟩ := h
  split at h
  · simp only [bind_status, bind_tree, bind_check_ok] at h
    obtain ⟨_, -, h⟩ := h
    exact ⟨setup.currentPath, _, (pure_ok.mp h).1⟩
  · obtain ⟨current, d₁, -, h⟩ := bind_ok.mp h
    simp only [bind_tree, bind_check_ok] at h
    obtain ⟨_, -, h⟩ := h
    exact ⟨current, _, (pure_ok.mp h).1⟩

theorem prepareDirectory_ok (h : env.prepareDirectory setup d = .ok p d') :
    ∃ current, p = .marker { setup with currentPath := current } .directory := by
  simp only [ReceiveEnv.prepareDirectory, bind_check_ok, bind_tree] at h
  obtain ⟨_, -, h⟩ := h
  obtain ⟨_, d₁, -, h⟩ := bind_ok.mp h
  obtain ⟨_, d₂, -, h⟩ := bind_ok.mp h
  exact ⟨setup.currentPath, (pure_ok.mp h).1⟩

theorem entrySetup_ok {t : Tree} (h : env.entrySetup t plan header = .ok setup) :
    setup.relative = header.get "path" ∧ setup.relative ≠ "" ∧
      header.getU64 "size" 0 = .ok setup.declaredSize ∧
      setup.useZstd = (header.get "compress" "zstd" ≠ "none" : Bool) := by
  unfold ReceiveEnv.entrySetup at h
  dsimp only at h
  split_ifs at h with hpath
  simp only [bind, Except.bind] at h
  split at h
  next => cases h
  next size hsize =>
    split at h
    next => cases h
    next =>
      split at h
      next => cases h
      next =>
        obtain rfl := Except.ok.inj h
        exact ⟨rfl, hpath, hsize, rfl⟩

end Prepare

/-! ## A header of an honest sender

Fields are looked up by name in a message that was built by appending optional fields, so
each lookup is a lemma, and the kind of an entry is told the same way on both sides. -/

section Header

variable {env : ReceiveEnv} {source : Source env.prims}

theorem lookup_metadataFields (entry : FileEntry) {key : String} (hmtime : key ≠ "mtime_ms")
    (hmode : key ≠ "mode") : (metadataFields entry).lookup key = none := by
  have h₁ : (key == "mtime_ms") = false := beq_false_of_ne hmtime
  have h₂ : (key == "mode") = false := beq_false_of_ne hmode
  unfold metadataFields
  split_ifs <;> simp [List.lookup, h₁, h₂]

theorem header_path (entry : FileEntry) : (makeFileHeader entry).get "path" = entry.relative := by
  unfold makeFileHeader
  cases transferEntryKind entry <;> simp [Message.get, List.lookup]

theorem header_size (h : transferEntryKind source.entry = .file) :
    (makeFileHeader source.entry).getU64 "size" 0 = .ok source.entry.size := by
  refine Message.getU64_eq ?_ source.size_le
  simp [makeFileHeader, h, Message.get, List.lookup]

theorem header_size_marker {entry : FileEntry} (h : transferEntryKind entry ≠ .file) :
    (makeFileHeader entry).getU64 "size" 0 = .ok 0 := by
  refine Message.getU64_eq (n := 0) ?_ (Nat.zero_le _)
  unfold makeFileHeader
  cases hk : transferEntryKind entry with
  | file => exact absurd hk h
  | directory => simp [Message.get, List.lookup]; rfl
  | symlink => simp [Message.get, List.lookup]; rfl

theorem header_compress (h : transferEntryKind source.entry = .file) :
    ((makeFileHeader source.entry).get "compress" "zstd" ≠ "none" : Bool) =
      shouldCompressEntry source.entry := by
  cases hc : shouldCompressEntry source.entry <;>
    simp [makeFileHeader, h, hc, Message.get, List.lookup]

theorem isSymlinkHeader_iff (entry : FileEntry) :
    isSymlinkHeader (makeFileHeader entry) = true ↔ transferEntryKind entry = .symlink := by
  unfold makeFileHeader isSymlinkHeader
  cases hk : transferEntryKind entry <;> simp [Message.get, List.lookup, lookup_metadataFields]

/-- The receiver tells a directory from a file as the sender does. -/
theorem isDirHeader_iff {setup : EntrySetup} (hrel : setup.relative = source.entry.relative)
    (hne : setup.relative ≠ "")
    (hsize : (makeFileHeader source.entry).getU64 "size" 0 = .ok setup.declaredSize)
    (hlink : transferEntryKind source.entry ≠ .symlink) :
    isDirHeader setup.relative setup.declaredSize = true ↔
      transferEntryKind source.entry = .directory := by
  have hsym : source.entry.symlink = false := by
    by_contra hs
    simp [transferEntryKind, hs] at hlink
  rw [hrel] at hne ⊢
  cases hk : transferEntryKind source.entry with
  | symlink => exact absurd hk hlink
  | file =>
    rw [header_size hk] at hsize
    obtain hsize := Except.ok.inj hsize
    rw [← hsize]
    simp only [transferEntryKind, hsym] at hk
    simp [isDirHeader, hne] at hk ⊢
    tauto
  | directory =>
    rw [header_size_marker (by simp [hk])] at hsize
    obtain hsize := Except.ok.inj hsize
    rw [← hsize]
    simp only [transferEntryKind, hsym] at hk
    simp [isDirHeader, hne] at hk ⊢
    tauto

/-- **The question of a receiver that has read a header is about that header's entry.** -/
theorem prepare_offers {plan : Option ReceivePlan} {d d' : Disk} {p : Pending}
    (h : env.prepare plan (makeFileHeader source.entry) d = .ok p d') :
    Offers env source d'.tree p := by
  simp only [ReceiveEnv.prepare, bind_tree, bind_check_ok] at h
  obtain ⟨setup, hsetup, h⟩ := h
  obtain ⟨hrel, hne, hsize, hzstd⟩ := entrySetup_ok hsetup
  rw [header_path] at hrel
  split_ifs at h with hlink hdir
  · obtain ⟨setup', marker, rfl⟩ := prepareSymlink_ok h
    change transferEntryKind source.entry ≠ .file
    simp [(isSymlinkHeader_iff _).mp hlink]
  · obtain ⟨current, rfl⟩ := prepareDirectory_ok h
    have hlink' := mt (isSymlinkHeader_iff _).mpr hlink
    change transferEntryKind source.entry ≠ .file
    simp [(isDirHeader_iff hrel hne hsize hlink').mp hdir]
  · have hlink' := mt (isSymlinkHeader_iff _).mpr hlink
    have hdir' := mt (isDirHeader_iff hrel hne hsize hlink').mpr hdir
    have hfile : transferEntryKind source.entry = .file := by
      cases hk : transferEntryKind source.entry with
      | file => rfl
      | directory => exact absurd hk hdir'
      | symlink => exact absurd hk hlink'
    rw [header_size hfile] at hsize
    obtain hsize := Except.ok.inj hsize
    rw [header_compress hfile] at hzstd
    simp only [ReceiveEnv.prepareFile, bind_tree] at h
    split_ifs at h
    · rw [bind_status] at h
      obtain ⟨rfl, rfl⟩ := pure_ok.mp h
      exact ⟨hfile, hsize.symm⟩
    · rw [bind_tree] at h
      split_ifs at h
      · obtain ⟨rfl, rfl⟩ := pure_ok.mp h
        exact ⟨hfile, hsize.symm⟩
      · obtain ⟨current, part, hashed, prefixSha256, rfl, hoff⟩ := preparePayload_ok h
        exact ⟨hfile, hsize.symm, hzstd, hoff⟩

theorem takeFileHeader_offers {l l' : Loop} {p : Pending}
    (h : env.takeFileHeader (makeFileHeader source.entry) l = .ok p l') :
    Offers env source l'.disk.tree p := by
  simp only [ReceiveEnv.takeFileHeader, bind_modify] at h
  split_ifs at h with hpath
  · exact absurd h throw_ne_ok
  · rw [bind_get] at h
    obtain ⟨plan, l₁, -, h⟩ := bind_ok.mp h
    rw [bind_modify] at h
    obtain ⟨d, hprep, rfl⟩ := onDisk_ok.mp h
    exact prepare_offers hprep

end Header

/-! ## The answer of an honest sender

The answer is a function of the question and of the file: the offset that was asked for
where the digests agree, and zero where they do not. -/

section Answer

variable {prims : Primitives}

/-- The offset at which the two sides go on with a file of which `hashed` was offered. -/
def agreedOffset (source : Source prims) (hashed : Bytes) (prefixSha256 : String) : Nat :=
  if 0 < hashed.length ∧ prefixSha256 ≠ "" ∧
      prefixSha256 ≠ prims.sha256Hex (source.content.take hashed.length) then 0
  else hashed.length

/-- The sender's session, by the question it was asked. -/
def agreedSession (source : Source prims) : Pending → SendSession
  | .marker _ _ => { action := .markerComplete, accepted := 0 }
  | .conflictSkip _ | .duplicate _ => { action := .skipPayload, accepted := source.entry.size }
  | .payload _ _ hashed prefixSha256 =>
    { action := .sendPayload, accepted := agreedOffset source hashed prefixSha256 }

theorem agreedOffset_le (source : Source prims) (hashed : Bytes) (prefixSha256 : String) :
    agreedOffset source hashed prefixSha256 ≤ hashed.length := by
  unfold agreedOffset
  split_ifs <;> omega

theorem resumeMessage_offset {offset : Nat} (h : offset ≤ u64Max) (prefixSha256 : String)
    (skip : Bool) : (resumeMessage offset prefixSha256 skip).getU64 "offset" 0 = .ok offset :=
  Message.getU64_eq (by simp [resumeMessage, Message.get]) h

theorem resumeMessage_prefix (offset : Nat) (prefixSha256 : String) (skip : Bool) :
    (resumeMessage offset prefixSha256 skip).get "prefix_sha256" = prefixSha256 := by
  by_cases hp : prefixSha256 = ""
  · cases skip <;> simp [resumeMessage, Message.get, List.lookup, hp]
  · simp [resumeMessage, Message.get, List.lookup, hp]

theorem resumeMessage_skip (offset : Nat) (prefixSha256 : String) (skip : Bool) :
    (resumeMessage offset prefixSha256 skip).get "complete_skip" = if skip then "1" else "" := by
  by_cases hp : prefixSha256 = ""
  · cases skip <;> simp [resumeMessage, Message.get, List.lookup, hp]
  · cases skip <;> simp [resumeMessage, Message.get, List.lookup, hp]

/-- What a sender makes of a question for no more than the entry has. -/
theorem recvResumeRequest_eq {entry : FileEntry} {offset : Nat} (hfits : entry.size ≤ u64Max)
    (hle : offset ≤ entry.size) (prefixSha256 : String) (skip : Bool) :
    recvResumeRequest (.resume (resumeMessage offset prefixSha256 skip)) entry =
      .ok { offset := offset, prefixSha256 := prefixSha256,
            completeSkip := offset = entry.size && skip } := by
  simp only [recvResumeRequest, resumeMessage_offset (Nat.le_trans hle hfits),
    resumeMessage_prefix, resumeMessage_skip, bind, Except.bind, if_neg (Nat.not_lt.mpr hle)]
  cases skip <;> simp

variable {env : ReceiveEnv} {source : Source env.prims} {t : Tree} {p : Pending}

theorem validateCompleteSkipSource_ok (h : transferEntryKind source.entry = .file) :
    validateCompleteSkipSource source = .ok () := by
  have hsize := source.size_eq h
  have himo := source.imohash_eq h
  have hne := env.prims.imohashHex_ne source.content
  unfold validateCompleteSkipSource
  rw [if_neg]
  simp [hsize, himo, hne]

/-- **The sender answers.** -/
theorem onResume_eq (h : Offers env source t p) :
    onResume source (.resume p.request) = .ok (agreedSession source p) := by
  have hfits := source.size_le
  cases p with
  | marker setup marker =>
    have hkind : transferEntryKind source.entry ≠ .file := h
    have hreq := recvResumeRequest_eq hfits (Nat.zero_le source.entry.size) "" false
    simp [onResume, Pending.request, hreq, bind, Except.bind, hkind, agreedSession]
  | conflictSkip setup =>
    have hreq := recvResumeRequest_eq hfits (Nat.le_refl source.entry.size) "" true
    simp [onResume, Pending.request, h.2, hreq, bind, Except.bind, h.1, agreedSession,
      validateCompleteSkipSource_ok h.1]
  | duplicate setup =>
    have hreq := recvResumeRequest_eq hfits (Nat.le_refl source.entry.size) "" true
    simp [onResume, Pending.request, h.2, hreq, bind, Except.bind, h.1, agreedSession,
      validateCompleteSkipSource_ok h.1]
  | payload setup part hashed prefixSha256 =>
    obtain ⟨hfile, hsize, -, hoff⟩ := h
    have hle : hashed.length ≤ source.entry.size := hsize ▸ hoff.length_le
    have hcontent := source.size_eq hfile
    have hreq := recvResumeRequest_eq hfits hle prefixSha256 false
    have hshort : ¬ source.content.length < hashed.length := by omega
    simp only [onResume, Pending.request, hreq, bind, Except.bind, hfile, ne_eq,
      not_true_eq_false, if_false, Bool.and_false, Bool.false_eq_true, false_and, hshort,
      agreedSession, agreedOffset]
    split_ifs <;> rfl

/-- What a receiver makes of an answer that accepts no more than was asked for. -/
theorem recvResumeAck_eq {accepted requested declared : Nat} (hreq : accepted ≤ requested)
    (hdec : accepted ≤ declared) (hfits : accepted ≤ u64Max) (relative : String) :
    recvResumeAck (.resumeAck (resumeAckMessage accepted)) requested declared relative =
      .ok accepted := by
  have hget : (resumeAckMessage accepted).getU64 "offset" 0 = .ok accepted :=
    Message.getU64_eq (by simp [resumeAckMessage, Message.get]) hfits
  simp only [recvResumeAck, hget, bind, Except.bind]
  rw [if_neg (by omega)]

theorem endMessage_sha256 (sha256 : String) : (endMessage sha256).get "sha256" = sha256 := by
  simp [endMessage, Message.get]

end Answer

/-! ## The session

Both sides compute the action for themselves, from what they have sent and read.
`settleSession_action` says that they come to the same, which is what makes the next frame
the one that is expected. -/

namespace ReceiveEnv

variable (env : ReceiveEnv)

/-- What the answer makes of the question: the session. -/
def settleSession (source : Source env.prims) : Pending → ReceiveM Session
  | .marker setup marker => return .marker setup marker
  | .conflictSkip setup => return .skipPayload setup
  | .duplicate setup => do
    env.applyFileMetadata setup.currentPath setup.header
    ReceiveM.status ("skipped duplicate " ++ setup.relative)
    return .skipPayload setup
  | .payload setup part hashed prefixSha256 => do
    return .receivePayload
      (← env.acceptOffset setup part hashed (agreedOffset source hashed prefixSha256))

end ReceiveEnv

/-- What a payload session of this source knows of the partial file. -/
structure Resumes (env : ReceiveEnv) (source : Source env.prims) (t : Tree) (s : PayloadSession) :
    Prop where
  kind : transferEntryKind source.entry = .file
  size : s.setup.declaredSize = source.content.length
  zstd : s.setup.useZstd = shouldCompressEntry source.entry
  offset : s.resumeOffset = s.hashed.length
  offered : Offered env t s.partPath s.setup.declaredSize s.hashed

section Session

variable {env : ReceiveEnv} {source : Source env.prims} {t : Tree} {p : Pending}
  {setup : EntrySetup} {part : FsPath} {hashed : Bytes} {d d' : Disk} {s : PayloadSession}

/-- **The receiver takes the answer**, and asks no second time. -/
theorem onAck_eq (h : Offers env source t p) :
    env.onAck p (.resumeAck (resumeAckMessage (agreedSession source p).accepted)) =
      (do return .inl (← env.settleSession source p)) := by
  have hfits := source.size_le
  cases p with
  | marker setup marker =>
    have hack := recvResumeAck_eq (Nat.le_refl 0) (Nat.le_refl 0) (Nat.zero_le _) setup.relative
    simp [ReceiveEnv.onAck, agreedSession, hack, ReceiveM.check, ReceiveEnv.settleSession]
  | conflictSkip setup =>
    have hack := recvResumeAck_eq (Nat.le_refl source.entry.size) (Nat.le_refl _) hfits setup.relative
    simp [ReceiveEnv.onAck, agreedSession, h.2, hack, ReceiveM.check, ReceiveEnv.settleSession]
  | duplicate setup =>
    have hack := recvResumeAck_eq (Nat.le_refl source.entry.size) (Nat.le_refl _) hfits setup.relative
    simp [ReceiveEnv.onAck, agreedSession, h.2, hack, ReceiveM.check, ReceiveEnv.settleSession]
  | payload setup part hashed prefixSha256 =>
    obtain ⟨-, hsize, -, hoff⟩ := h
    have hle := hoff.length_le
    have hagreed := agreedOffset_le source hashed prefixSha256
    have hack := recvResumeAck_eq hagreed (Nat.le_trans hagreed hle) (by omega) setup.relative
    simp [ReceiveEnv.onAck, agreedSession, hack, ReceiveM.check, ReceiveEnv.settleSession]

theorem partPlace_of_file {content : Bytes}
    (h : env.symlinkStatus t part = some (.file content)) :
    ∃ place, env.partPlace t part = some (place, content) ∧ locate t env.cwd part = some place ∧
      t place = some (.file content) ∧ place ≠ [] := by
  obtain ⟨place, hloc, hopen, hnode, hne⟩ := openPlace_of_file h
  exact ⟨place, by simp [ReceiveEnv.partPlace, hopen, hnode], hloc, hnode, hne⟩

/-- A partial file that can be opened: it is what was hashed, or it does not count. -/
theorem partPlace_offered {size : Nat} {place : Place} {content : Bytes}
    (h : Offered env t part size hashed) (hp : env.partPlace t part = some (place, content)) :
    locate t env.cwd part = some place ∧ Leaf t place ∧ place ≠ [] ∧
      (hashed ≠ [] → content = hashed ∧ t place = some (.file hashed)) := by
  rcases h.stands with hnone | ⟨c, hfile⟩
  · obtain ⟨place', hopen, hp⟩ := Option.map_eq_some_iff.mp hp
    obtain ⟨hloc, hnode, hne⟩ := openPlace_of_none hnone hopen
    rw [hnode] at hp
    obtain ⟨rfl, rfl⟩ := Prod.mk.inj hp
    refine ⟨hloc, .inl hnode, hne, fun hh => ?_⟩
    rw [h.whole hh] at hnone
    cases hnone
  · obtain ⟨place', hp', hloc, hnode, hne⟩ := partPlace_of_file hfile
    rw [hp'] at hp
    obtain ⟨rfl, rfl⟩ := Prod.mk.inj (Option.some.inj hp)
    refine ⟨hloc, .inr ⟨_, hnode⟩, hne, fun hh => ?_⟩
    rw [h.whole hh] at hfile
    obtain rfl := Node.file.inj (Option.some.inj hfile)
    exact ⟨rfl, hnode⟩

/-- What the sender has accepted of the partial file is what is left of it. -/
theorem acceptOffset_offered {accepted : Nat} (hoff : Offered env d.tree part setup.declaredSize hashed)
    (hacc : accepted ≤ hashed.length)
    (h : env.acceptOffset setup part hashed accepted d = .ok s d') :
    s.setup = setup ∧ s.partPath = part ∧ s.resumeOffset = accepted ∧
      s.resumeOffset = s.hashed.length ∧ Offered env d'.tree part setup.declaredSize s.hashed := by
  unfold ReceiveEnv.acceptOffset at h
  by_cases hfull : accepted = hashed.length
  · rw [if_pos hfull] at h
    obtain ⟨rfl, rfl⟩ := pure_ok.mp h
    exact ⟨rfl, rfl, rfl, hfull, hoff⟩
  · have hlt : accepted < hashed.length := by omega
    have hne : hashed ≠ [] := by
      rintro rfl
      simp at hlt
    obtain ⟨place, hp, hloc, hnode, hroot⟩ := partPlace_of_file (hoff.whole hne)
    have hbytes : (if 0 < accepted then env.hashExistingPartPrefix d.tree part accepted else some []) =
        some (hashed.take accepted) := by
      split_ifs with hpos
      · simp [ReceiveEnv.hashExistingPartPrefix, hoff.whole hne, hacc]
      · simp [show accepted = 0 by omega]
    simp only [if_neg hfull, bind_status, bind_tree, hbytes] at h
    obtain ⟨_, d₁, hresize, h⟩ := bind_ok.mp h
    obtain ⟨rfl, rfl⟩ := pure_ok.mp h
    have hgrow : accepted - hashed.length = 0 := by omega
    simp only [ReceiveEnv.resizeFile, bind_tree, hp, hnode, Option.isNone_some, Bool.false_eq_true,
      if_false, hgrow, List.replicate_zero, List.append_nil] at hresize
    obtain rfl := change_ok.mp hresize
    have hlen : (hashed.take accepted).length = accepted := by simp [hacc]
    have hstat : env.symlinkStatus (d.tree.set place (.file (hashed.take accepted))) part =
        some (.file (hashed.take accepted)) := lstat_set_file (.inr ⟨_, hnode⟩) hloc hroot
    have hle := hoff.length_le
    exact ⟨rfl, rfl, rfl, hlen.symm, by dsimp only; omega, .inr ⟨_, hstat⟩, fun _ => hstat⟩

/-- What the sender does with an entry, by what the receiver does. -/
def Session.action : Session → SendFileAction
  | .marker _ _ => .markerComplete
  | .skipPayload _ => .skipPayload
  | .receivePayload _ => .sendPayload

/-- Both sides settle on the same. -/
theorem settleSession_action {session : Session} (hs : env.settleSession source p d = .ok session d') :
    (agreedSession source p).action = session.action := by
  cases p with
  | marker setup marker =>
    obtain ⟨rfl, rfl⟩ := pure_ok.mp hs
    rfl
  | conflictSkip setup =>
    obtain ⟨rfl, rfl⟩ := pure_ok.mp hs
    rfl
  | duplicate setup =>
    obtain ⟨_, d₁, -, hs⟩ := bind_ok.mp hs
    rw [bind_status] at hs
    obtain ⟨rfl, -⟩ := pure_ok.mp hs
    rfl
  | payload setup part hashed prefixSha256 =>
    obtain ⟨s', d₁, -, hs⟩ := bind_ok.mp hs
    obtain ⟨rfl, -⟩ := pure_ok.mp hs
    rfl

/-- A settled payload goes on where both sides have agreed to. -/
theorem settleSession_resumes (h : Offers env source d.tree p)
    (hs : env.settleSession source p d = .ok (.receivePayload s) d') :
    Resumes env source d'.tree s ∧ s.resumeOffset = (agreedSession source p).accepted := by
  cases p with
  | marker setup marker => cases (pure_ok.mp hs).1
  | conflictSkip setup => cases (pure_ok.mp hs).1
  | duplicate setup =>
    obtain ⟨_, d₁, -, hs⟩ := bind_ok.mp hs
    rw [bind_status] at hs
    cases (pure_ok.mp hs).1
  | payload setup part hashed prefixSha256 =>
    obtain ⟨hkind, hsize, hzstd, hoff⟩ := h
    obtain ⟨s', d₁, hacc, hs⟩ := bind_ok.mp hs
    obtain ⟨heq, rfl⟩ := pure_ok.mp hs
    obtain rfl := Session.receivePayload.inj heq
    obtain ⟨rfl, rfl, hacc', hlen, hoff'⟩ :=
      acceptOffset_offered hoff (agreedOffset_le source hashed prefixSha256) hacc
    exact ⟨⟨hkind, hsize.trans (source.size_eq hkind), hzstd, hlen, hoff'⟩, hacc'⟩

end Session

/-! ## The exchange, and the transfer -/

namespace ReceiveEnv

variable (env : ReceiveEnv)

/-- The partial file is opened and becomes `file`. -/
def storePart (s : PayloadSession) (file : Bytes) : ReceiveM Unit := do
  let t ← ReceiveM.tree
  match env.partPlace t s.partPath with
  | none => throw ("failed to open output file: " ++ s.partPath.text)
  | some (place, _) => ReceiveM.change [place] (t.set place (.file file))

/-- A payload and its trailer. -/
def takePayload (source : Source env.prims) (s : PayloadSession) : LoopM Unit := do
  let file := s.hashed ++ source.content.drop s.resumeOffset
  LoopM.onDisk (env.storePart s file)
  let size ← LoopM.onDisk (env.completeReceived s (env.prims.sha256Hex source.content)
    file.length (env.prims.sha256Hex file))
  LoopM.countFile
  LoopM.addTotal size

/-- What is left of an exchange when its session stands. -/
def afterSession (source : Source env.prims) : Session → LoopM Unit
  | .marker setup marker => env.endMarker setup marker
  | .skipPayload setup => endSkipped setup
  | .receivePayload s => env.takePayload source s

/-- What happens to the receiver between its question and the end of the entry. -/
def exchange (source : Source env.prims) (p : Pending) : LoopM Unit := do
  env.afterSession source (← LoopM.onDisk (env.settleSession source p))

/-- The entries of a transfer, one after the other, and its end. -/
def transferEntries : List (Source env.prims) → LoopM Unit
  | [] => takeDone
  | source :: rest => do
    env.exchange source (← env.takeFileHeader (makeFileHeader source.entry))
    transferEntries rest

/-- **A transfer, without its frames.** -/
def transferAll (text : ManifestText) (sources : List (Source env.prims)) : LoopM Unit := do
  env.takeManifest text
  env.transferEntries sources

end ReceiveEnv

/-- What a step of a loop comes to: the variables, or the error and the disk it leaves. -/
def verdict (m : LoopM Unit) (l : Loop) : Except (KikoError × Disk) Loop :=
  match m l with
  | .ok _ l' => .ok l'
  | .error e l' => .error (e, l'.disk)

theorem verdict_exchange {env : ReceiveEnv} {source : Source env.prims} {p : Pending} {l : Loop} :
    verdict (env.exchange source p) l =
      match env.settleSession source p l.disk with
      | .ok session d => verdict (env.afterSession source session) { l with disk := d }
      | .error e d => .error (e, d) := by
  simp only [verdict, ReceiveEnv.exchange, bind, EStateM.bind, LoopM.onDisk]
  cases env.settleSession source p l.disk <;> rfl

end Kiko.Transfer
