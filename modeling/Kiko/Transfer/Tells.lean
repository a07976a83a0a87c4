import Kiko.Transfer.DeclaredSize

/-!
# What the operations on the disk report

While a receive loop works on the disk it reports to whoever watches it. All that the operations
of the receiver report by themselves, returning or throwing, are status lines; the one summary
of a plan is the preflight's.

A logic of one judgement, `Along Tells`, closed under the ways the operations are composed. It
is there so that the figures of a display can be followed through the loops without looking into
any operation on the disk: none of them has a figure to report.
-/

set_option autoImplicit false

namespace Kiko.Transfer

open Lexical FileTree Effect

/-- Nothing but status lines has been reported. -/
def Tells (d d' : Disk) : Prop := ∃ texts : List String, d'.log = d.log ++ texts.map .status

instance : Std.Refl Tells := ⟨fun d => ⟨[], by simp⟩⟩

instance : IsTrans Disk Tells where
  trans d₁ d₂ d₃ h h' := by
    obtain ⟨texts, h⟩ := h
    obtain ⟨texts', h'⟩ := h'
    exact ⟨texts ++ texts', by rw [h', h, List.append_assoc, List.map_append]⟩

section Operations

variable {env : ReceiveEnv} {p part current : FsPath} {setup : EntrySetup}

theorem tells_tree : Along Tells ReceiveM.tree := Along.bind along_get fun _ => along_pure

theorem tells_check {α : Type} (result : Except KikoError α) : Along Tells (ReceiveM.check result) := by
  cases result with
  | ok a => exact along_pure
  | error e => exact along_throw

theorem tells_status (text : String) : Along Tells (ReceiveM.status text) := along_modify fun _ => ⟨[text], rfl⟩

theorem tells_change (places : List Place) (t : Tree) : Along Tells (ReceiveM.change places t) :=
  along_modify fun d => refl_of Tells d

theorem tells_touch (places : List Place) : Along Tells (ReceiveM.touch places) :=
  along_modify fun d => refl_of Tells d

theorem tells_createDirectories : Along Tells (env.createDirectories p) := by
  apply tells_tree.bind
  intro t
  split
  · exact tells_change _ _
  · exact along_throw

theorem tells_createParent : Along Tells (env.createParent current) := by
  unfold ReceiveEnv.createParent
  split_ifs
  · exact along_pure
  · exact tells_createDirectories

theorem tells_applyFileMetadata (header : Message) : Along Tells (env.applyFileMetadata current header) := by
  apply tells_tree.bind
  intro t
  apply (tells_check _).bind
  intro mode
  apply (tells_touch _).bind
  intro _
  apply (tells_check _).bind
  intro mtimeMs
  exact tells_touch _

theorem tells_removeFile : Along Tells (env.removeFile p) := by
  apply tells_tree.bind
  intro t
  split
  · apply tells_tree.bind
    intro t'
    split_ifs
    · exact along_pure
    · apply tells_tree.bind
      intro t''
      exact tells_change _ _
  · exact along_pure

theorem tells_verifyReceivedDigest {relative expected actual : String} {received size : Nat} :
    Along Tells (env.verifyReceivedDigest part relative received size expected actual) := by
  apply tells_tree.bind
  intro t
  split
  · exact along_pure
  · apply tells_removeFile.bind
    intro _
    exact along_throw

theorem tells_verifyPartFileDigest {relative expected : String} {size : Nat} :
    Along Tells (env.verifyPartFileDigest part relative size expected) := by
  apply tells_tree.bind
  intro t
  split
  · exact tells_verifyReceivedDigest
  · apply tells_removeFile.bind
    intro _
    exact along_throw

theorem tells_atomicReplaceFile {source : Place} {node : Node Bytes} {context : String} :
    Along Tells (env.atomicReplaceFile source node current context) := by
  apply tells_tree.bind
  intro t
  split
  · exact along_throw
  · split_ifs
    · exact along_throw
    · exact tells_change _ _

theorem tells_finalizePartFile : Along Tells (env.finalizePartFile part current) := by
  apply tells_tree.bind
  intro t
  split
  · exact tells_atomicReplaceFile
  · exact along_throw

theorem tells_createSafeSymlink {relative target : String} :
    Along Tells (env.createSafeSymlink current relative target) := by
  apply (tells_check _).bind
  intro _
  apply tells_createParent.bind
  intro _
  apply tells_tree.bind
  intro t
  split
  · exact along_throw
  · split_ifs
    · exact along_throw
    · apply (tells_touch _).bind
      intro _
      exact tells_atomicReplaceFile

theorem tells_resolveConflictPath : Along Tells (env.resolveConflictPath setup) := by
  unfold ReceiveEnv.resolveConflictPath
  cases setup.planned with
  | some planned =>
    dsimp only
    split_ifs
    · apply (tells_status _).bind
      intro _
      exact along_pure
    · exact along_pure
  | none =>
    apply tells_tree.bind
    intro t
    split_ifs
    · apply tells_tree.bind
      intro t'
      apply (tells_check _).bind
      intro renamed
      apply (tells_status _).bind
      intro _
      exact along_pure
    · exact along_pure

theorem tells_offerPartial : Along Tells (env.offerPartial setup current) := by
  apply tells_tree.bind
  intro t
  apply (tells_check _).bind
  intro _
  apply tells_tree.bind
  intro t'
  apply (tells_check _).bind
  intro have_
  apply tells_tree.bind
  intro t''
  split
  · exact along_pure
  · exact along_pure

theorem tells_preparePayload : Along Tells (env.preparePayload setup) := by
  apply tells_resolveConflictPath.bind
  intro current
  apply tells_tree.bind
  intro t
  apply (tells_check _).bind
  intro _
  apply tells_createParent.bind
  intro _
  exact tells_offerPartial

theorem tells_prepare (plan : Option ReceivePlan) (header : Message) : Along Tells (env.prepare plan header) := by
  apply tells_tree.bind
  intro t
  apply (tells_check _).bind
  intro setup
  split_ifs
  · apply (tells_check _).bind
    intro _
    apply tells_tree.bind
    intro t'
    split_ifs
    · apply (tells_status _).bind
      intro _
      apply tells_tree.bind
      intro t''
      apply (tells_check _).bind
      intro _
      exact along_pure
    · apply tells_resolveConflictPath.bind
      intro current
      apply tells_tree.bind
      intro t''
      apply (tells_check _).bind
      intro _
      exact along_pure
  · apply tells_tree.bind
    intro t'
    apply (tells_check _).bind
    intro _
    apply tells_createDirectories.bind
    intro _
    apply (tells_applyFileMetadata _).bind
    intro _
    exact along_pure
  · apply tells_tree.bind
    intro t'
    split_ifs
    · apply (tells_status _).bind
      intro _
      exact along_pure
    · apply tells_tree.bind
      intro t''
      split_ifs
      · exact along_pure
      · exact tells_preparePayload

theorem tells_resizeFile {size : Nat} {relative : String} : Along Tells (env.resizeFile part size relative) := by
  apply tells_tree.bind
  intro t
  split
  · apply tells_tree.bind
    intro t'
    split_ifs
    · exact along_throw
    · apply tells_tree.bind
      intro t''
      exact tells_change _ _
  · exact along_throw

theorem tells_acceptOffset {hashed : Bytes} {accepted : Nat} :
    Along Tells (env.acceptOffset setup part hashed accepted) := by
  unfold ReceiveEnv.acceptOffset
  by_cases hfull : accepted = hashed.length
  · rw [if_pos hfull]
    exact along_pure
  · rw [if_neg hfull]
    apply (tells_status _).bind
    intro _
    apply tells_tree.bind
    intro t
    split
    · exact along_throw
    · apply tells_resizeFile.bind
      intro _
      exact along_pure

theorem tells_onAck (p : Pending) (frame : Frame) : Along Tells (env.onAck p frame) := by
  cases p with
  | marker setup marker =>
    apply (tells_check _).bind
    intro _
    exact along_pure
  | conflictSkip setup =>
    apply (tells_check _).bind
    intro accepted
    split_ifs
    · exact along_throw
    · exact along_pure
  | duplicate setup =>
    apply (tells_check _).bind
    intro accepted
    split_ifs
    · apply tells_preparePayload.bind
      intro p'
      exact along_pure
    · apply (tells_applyFileMetadata _).bind
      intro _
      apply (tells_status _).bind
      intro _
      exact along_pure
  | payload setup part hashed prefixSha256 =>
    apply (tells_check _).bind
    intro accepted
    apply tells_acceptOffset.bind
    intro session
    exact along_pure

theorem tells_completeMarker (marker : Marker) : Along Tells (env.completeMarker setup marker) := by
  unfold ReceiveEnv.completeMarker
  split
  · apply tells_tree.bind
    intro t
    apply (tells_check _).bind
    intro _
    exact tells_createSafeSymlink
  · exact along_pure

theorem tells_completeReceived {session : PayloadSession} {expected actual : String} {size : Nat} :
    Along Tells (env.completeReceived session expected size actual) := by
  apply tells_tree.bind
  intro t
  apply (tells_check _).bind
  intro _
  apply tells_tree.bind
  intro t'
  apply (tells_check _).bind
  intro _
  have hend : Along Tells (env.finalizePartFile session.partPath session.setup.currentPath >>= fun _ =>
      env.applyFileMetadata session.setup.currentPath session.setup.header >>= fun _ =>
        pure session.setup.declaredSize) := by
    apply tells_finalizePartFile.bind
    intro _
    apply (tells_applyFileMetadata _).bind
    intro _
    exact along_pure
  split_ifs
  · exact tells_verifyPartFileDigest.bind fun _ => hend
  · exact tells_verifyReceivedDigest.bind fun _ => hend

theorem tells_openStream {session : PayloadSession} : Along Tells (env.openStream session) := by
  apply tells_tree.bind
  intro t
  split
  · exact along_throw
  · apply (tells_change _ _).bind
    intro _
    exact along_pure

theorem tells_openMux {session : PayloadSession} : Along Tells (env.openMux session) := by
  apply tells_tree.bind
  intro t
  split
  next => exact along_throw
  next place content _ =>
    by_cases hgone : 0 < session.resumeOffset ∧ (t place).isNone
    · rw [if_pos hgone]
      exact along_throw
    · rw [if_neg hgone]
      apply (tells_change _ _).bind
      intro _
      exact along_pure

theorem tells_takeData {codec : StreamCodec} {s : StreamPayload codec} (payload : Bytes) :
    Along Tells (takeData s payload) := by
  have hcommit (s : StreamPayload codec) (bytes : Bytes) : Along Tells (commitReceivedPayload s bytes) := by
    unfold commitReceivedPayload
    split_ifs
    · exact along_pure
    · have happend : Along Tells (append s.out bytes) := by
        apply tells_tree.bind
        intro t
        split
        · exact tells_change _ _
        · exact along_pure
      exact happend.bind fun _ => along_pure
  unfold takeData
  dsimp only
  by_cases hzstd : s.session.setup.useZstd = true
  · rw [if_pos hzstd]
    apply (tells_check _).bind
    intro _
    apply (tells_check _).bind
    intro out
    exact hcommit _ _
  · rw [if_neg hzstd]
    apply (tells_check _).bind
    intro _
    exact hcommit _ _

end Operations

end Kiko.Transfer
