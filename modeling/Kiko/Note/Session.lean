import Kiko.Lib.Transition
import Kiko.Note.Workspace

/-!
# Two sessions and their channels (`note/note_session`)

```
   any thread      edit ─── calls ──┐
                                    ├── queue_frame ──> outgoing ── sender thread ──> wire
   reader thread   ack ──── reply ──┘                                                  │
        ^──────────────────────────────────────────────────────────── peer's wire <────┘
```

An edit is two steps, as in the source: the workspace's lock is released before
`queue_frame` takes the session's, so frames of one side may be queued in any order. The
sender thread holds the frame it has taken from the queue while it sends it, and the reader
the ack it is about to queue.

`edited` and `processed` are history: the edits a side has made, the last one first, and the
edits of the peer it has dealt with. A session starts here once the hellos are exchanged;
what `request_stop` and a broken connection do is left out, and a frame travels as it is.
-/

set_option autoImplicit false

namespace Kiko.Note

def kNoteOutboxMaxFrames : Nat := 128
def kNoteOutboxMaxBytes : Nat := 8 * 1024 * 1024

/-- `frames_coalesce`. -/
def framesCoalesce (queued incoming : NoteFrame) : Bool :=
  queued.padId = incoming.padId &&
    ((isNoteEdit queued && isNoteEdit incoming) || (queued.type = .ack && incoming.type = .ack))

/-- What the platform decides. -/
structure NoteEnv where
  /-- `queued_frame_bytes`: strings count by their capacity -/
  queuedFrameBytes : NoteFrame → Nat
  /-- how many threads may be inside an edit at a time; each has a stack in the one address
      space of 64 bits -/
  threads : Nat
  threads_lt : threads < 2 ^ 64 - 1

/-- A `NoteSession` that runs. -/
structure NoteSession where
  workspace : NoteWorkspace
  outgoing : List NoteFrame := []
  outgoingBytes : Nat := 0
  stopped : Bool := false
  /-- edits whose threads have yet to call `queue_frame` -/
  calls : List NoteFrame := []
  /-- the frame the sender thread is sending -/
  sending : Option NoteFrame := none
  /-- the ack the reader thread has yet to queue -/
  reply : Option NoteFrame := none
  edited : List NoteFrame := []
  processed : List NoteFrame := []

namespace NoteSession

/-- `queue_frame`. -/
def queueFrame (env : NoteEnv) (s : NoteSession) (frame : NoteFrame) : NoteSession × Bool :=
  if s.stopped then (s, false)
  else
    let frameBytes := env.queuedFrameBytes frame
    let ahead := s.outgoing.takeWhile fun queued => !framesCoalesce queued frame
    match s.outgoing.dropWhile fun queued => !framesCoalesce queued frame with
    | queued :: behind =>
      if frame.revision < queued.revision then (s, true)
      else
        let remaining := s.outgoingBytes - env.queuedFrameBytes queued
        if kNoteOutboxMaxBytes < frameBytes ∨ kNoteOutboxMaxBytes - frameBytes < remaining then
          ({ s with stopped := true }, false)
        else
          ({ s with
              outgoing := ahead ++ frame :: behind
              outgoingBytes := remaining + frameBytes }, true)
    | [] =>
      if kNoteOutboxMaxFrames ≤ s.outgoing.length ∨ kNoteOutboxMaxBytes < frameBytes ∨
          kNoteOutboxMaxBytes - frameBytes < s.outgoingBytes then
        ({ s with stopped := true }, false)
      else
        ({ s with
            outgoing := s.outgoing ++ [frame]
            outgoingBytes := s.outgoingBytes + frameBytes }, true)

/-- A frame has come in (`run`): an ack is noted, an edit is applied and will be
    acknowledged. -/
def receive (s : NoteSession) (now : Nat) (frame : NoteFrame) : NoteSession :=
  if frame.type = .ack then { s with workspace := s.workspace.acknowledge frame }
  else
    let s := { s with workspace := (s.workspace.applyRemote frame).1 }
    if isNoteEdit frame then
      { s with
          reply := some (makeNoteAck now frame.padId frame.revision)
          processed := frame :: s.processed }
    else s

@[simp] theorem receive_sending (s : NoteSession) (now : Nat) (frame : NoteFrame) :
    (s.receive now frame).sending = s.sending := by
  unfold receive
  split_ifs <;> rfl

@[simp] theorem receive_outgoing (s : NoteSession) (now : Nat) (frame : NoteFrame) :
    (s.receive now frame).outgoing = s.outgoing := by
  unfold receive
  split_ifs <;> rfl

end NoteSession

/-- Both sessions, and what is under way from either. -/
structure NoteSystem where
  side : Role → NoteSession
  wire : Role → List NoteFrame := fun _ => []

inductive NoteLabel
  /-- an edit, up to the release of the workspace's lock -/
  | edit (r : Role) (now : Nat) (op : EditOp)
  | selectPad (r : Role) (padId : String)
  /-- the edit with this index gets to `queue_frame` -/
  | queueEdit (r : Role) (i : Nat)
  | queueReply (r : Role)
  /-- the sender thread takes the first frame of the queue -/
  | take (r : Role)
  | send (r : Role)
  /-- the reader thread deals with a frame -/
  | receive (r : Role) (now : Nat)
deriving DecidableEq, Repr

namespace NoteSystem

def setSide (s : NoteSystem) (r : Role) (session : NoteSession) : NoteSystem :=
  { s with side := Function.update s.side r session }

/-- Two sessions before the first edit. -/
def start (writerId : Role → String) : NoteSystem :=
  { side := fun r => { workspace := NoteWorkspace.new (writerId r) } }

/-- One step of either side's threads; an edit that throws changes nothing. -/
def step (env : NoteEnv) (s : NoteSystem) : NoteLabel → Option NoteSystem
  | .edit r now op =>
    let session := s.side r
    if session.calls.length < env.threads then
      match session.workspace.edit now op with
      | .error _ => some s
      | .ok (workspace, frame) =>
        some (s.setSide r { session with
          workspace := workspace
          calls := frame :: session.calls
          edited := frame :: session.edited })
    else none
  | .selectPad r padId =>
    some (s.setSide r { s.side r with workspace := ((s.side r).workspace.selectPad padId).1 })
  | .queueEdit r i =>
    match (s.side r).calls[i]? with
    | some frame =>
      some (s.setSide r
        ({ s.side r with calls := (s.side r).calls.eraseIdx i }.queueFrame env frame).1)
    | none => none
  | .queueReply r =>
    match (s.side r).reply with
    | some frame => some (s.setSide r ({ s.side r with reply := none }.queueFrame env frame).1)
    | none => none
  | .take r =>
    match (s.side r).stopped, (s.side r).sending, (s.side r).outgoing with
    | false, none, frame :: rest =>
      some (s.setSide r { s.side r with
        outgoing := rest
        outgoingBytes := (s.side r).outgoingBytes - env.queuedFrameBytes frame
        sending := some frame })
    | _, _, _ => none
  | .send r =>
    match (s.side r).sending with
    | some frame =>
      some { s.setSide r { s.side r with sending := none } with
        wire := Function.update s.wire r (s.wire r ++ [frame]) }
    | none => none
  | .receive r now =>
    match (s.side r).reply, s.wire r.peer with
    | none, frame :: rest =>
      some { s.setSide r ((s.side r).receive now frame) with
        wire := Function.update s.wire r.peer rest }
    | _, _ => none

/-- Nothing is under way on either side: no edit on its way to the queue, both queues and
    both channels empty, and the threads between them idle. -/
def Settled (s : NoteSystem) : Prop :=
  ∀ r, (s.side r).calls = [] ∧ (s.side r).outgoing = [] ∧ (s.side r).sending = none ∧
    (s.side r).reply = none ∧ s.wire r = []

end NoteSystem

/-! ## The queue

A frame replaces a queued one of its pad and type in place, or goes to the end, or does not
fit and stops the session. -/

/-- What `queue_frame` does to the queue when there is room: the frame goes to its end, or
    takes the place of one it supersedes, or is itself superseded. -/
inductive Queued (frame : NoteFrame) : (before after : List NoteFrame) → Prop
  | appended {queue : List NoteFrame} (h : ∀ queued ∈ queue, framesCoalesce queued frame = false) :
      Queued frame queue (queue ++ [frame])
  | replaced {ahead behind : List NoteFrame} {queued : NoteFrame}
      (h : framesCoalesce queued frame = true) (hr : queued.revision ≤ frame.revision) :
      Queued frame (ahead ++ queued :: behind) (ahead ++ frame :: behind)
  | superseded {queue : List NoteFrame} {queued : NoteFrame} (hm : queued ∈ queue)
      (h : framesCoalesce queued frame = true) (hr : frame.revision < queued.revision) :
      Queued frame queue queue

/-- **`queue_frame`.** Either the session stops, or was stopped, with its queue as it was, or
    the queue takes the frame; nothing else changes but the count of bytes. -/
theorem queueFrame_spec (env : NoteEnv) (s : NoteSession) (frame : NoteFrame) :
    ∃ outgoing bytes stopped,
      (s.queueFrame env frame).1 =
        { s with outgoing := outgoing, outgoingBytes := bytes, stopped := stopped } ∧
      (s.stopped = true → stopped = true) ∧
      (stopped = true ∧ outgoing = s.outgoing ∨ stopped = false ∧ Queued frame s.outgoing outgoing) := by
  by_cases hs : s.stopped
  · refine ⟨s.outgoing, s.outgoingBytes, s.stopped, ?_, id, .inl ⟨hs, rfl⟩⟩
    rw [NoteSession.queueFrame, if_pos hs]
  · have hf : s.stopped = false := by simpa using hs
    cases hd : s.outgoing.dropWhile fun queued => !framesCoalesce queued frame with
    | nil =>
      have hnone : ∀ queued ∈ s.outgoing, framesCoalesce queued frame = false := by
        intro queued hq
        simpa using List.dropWhile_eq_nil_iff.mp hd queued hq
      rw [NoteSession.queueFrame, if_neg hs]
      simp only [hd]
      split
      · exact ⟨_, _, true, rfl, fun _ => rfl, .inl ⟨rfl, rfl⟩⟩
      · exact ⟨_, _, s.stopped, rfl, id, .inr ⟨hf, .appended hnone⟩⟩
    | cons queued behind =>
      have hsplit := List.takeWhile_append_dropWhile
        (p := fun queued => !framesCoalesce queued frame) (l := s.outgoing)
      rw [hd] at hsplit
      have hc : framesCoalesce queued frame = true := by
        have := List.head_dropWhile_not (fun queued => !framesCoalesce queued frame)
          (w := (by simp [hd] : s.outgoing.dropWhile _ ≠ []))
        simpa [hd] using this
      have hm : queued ∈ s.outgoing := hsplit ▸ by simp
      rw [NoteSession.queueFrame, if_neg hs]
      simp only [hd]
      split
      case isTrue hlt => exact ⟨_, _, s.stopped, rfl, id, .inr ⟨hf, .superseded hm hc hlt⟩⟩
      case isFalse hle =>
        split
        · exact ⟨_, _, true, rfl, fun _ => rfl, .inl ⟨rfl, rfl⟩⟩
        · generalize List.takeWhile _ s.outgoing = ahead at hsplit ⊢
          have hq : Queued frame (ahead ++ queued :: behind) (ahead ++ frame :: behind) :=
            .replaced hc (not_lt.mp hle)
          rw [hsplit] at hq
          exact ⟨_, _, s.stopped, rfl, id, .inr ⟨hf, hq⟩⟩

@[simp] theorem queueFrame_sending (env : NoteEnv) (s : NoteSession) (frame : NoteFrame) :
    (s.queueFrame env frame).1.sending = s.sending := by
  obtain ⟨outgoing, bytes, stopped, h, -⟩ := queueFrame_spec env s frame
  rw [h]

@[simp] theorem queueFrame_workspace (env : NoteEnv) (s : NoteSession) (frame : NoteFrame) :
    (s.queueFrame env frame).1.workspace = s.workspace := by
  obtain ⟨outgoing, bytes, stopped, h, -⟩ := queueFrame_spec env s frame
  rw [h]

end Kiko.Note
