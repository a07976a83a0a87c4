import Kiko.Note.LocalEdit
import Kiko.Note.Session

/-!
# The note editor (`tui/tui_note`)

```
   session thread    payload ── workspace ── notice ──> pending_remote ──┐
                                    │                                    │ apply_remote_updates
   user interface    editor_text <──┴── load_active_document <───────────┘
                     editor_text ── send_editor ── update_active ──> workspace, queue
```

The thread of the user interface and that of the session share the workspace, the queue of frames and
`pending_remote`; each takes a lock for one operation at a time, so a handler of the user interface is a
sequence of steps here (`UiPc`) and the session moves between any two of them. What the user has typed and the
workspace does not have yet is marked by `local_dirty`.

`Aligned` is what the handlers keep between the two texts. `Guarded` is what they keep for a text that is not
in the workspace yet. The peer is anybody, as in `LocalEdit`.

What is only displayed (title, code, route, status) is left out. `applying_remote` is up only inside
`load_active_document`, where no handler runs.
-/

set_option autoImplicit false

namespace Kiko.Note

def kNoteQrMaxBytes : Nat := 1200

/-- How long `send_editor` waits after the last change, in milliseconds. -/
def kNoteDebounce : Nat := 250

/-- The handler that has called `send_editor`. -/
inductive Sender
  /-- `Event::Custom` and the renderer -/
  | refresh
  | switchActivePad (padId : String)
  | newPad
deriving DecidableEq

/-- Only what nobody has asked for waits. -/
def Sender.waitForDebounce : Sender → Bool
  | .refresh => true
  | _ => false

/-- Where the thread of the user interface stands. -/
inductive UiPc
  /-- in `screen.Loop` -/
  | idle
  /-- at `apply_remote_updates` -/
  | applyRemote
  /-- in its loop, with the frames that are left -/
  | applyFrames (frames : List NoteFrame)
  /-- at the `load_active_document` of its loop -/
  | loadFrame (frames : List NoteFrame)
  /-- at `send_editor` -/
  | send (sender : Sender)
  /-- inside `update_active`, with the workspace's lock released -/
  | queueEdit (frame : NoteFrame) (sender : Sender)
  | select (padId : String)
  | create
  /-- inside `create_pad` -/
  | queueCreate (frame : NoteFrame)
  | load
  | clear
  /-- inside `clear_active` -/
  | queueClear (frame : NoteFrame)
deriving DecidableEq

/-- What the handler does when `send_editor` is back. -/
def Sender.next : Sender → UiPc
  | .refresh => .idle
  | .switchActivePad padId => .select padId
  | .newPad => .create

/-- The frames of `apply_remote_updates` that are left. -/
def UiPc.frames : UiPc → List NoteFrame
  | .applyFrames frames | .loadFrame frames => frames
  | _ => []

/-- The handler is at a step that replaces the text or takes the mark away. -/
def UiPc.replaces : UiPc → Bool
  | .loadFrame _ | .load | .queueEdit .. | .queueClear _ => true
  | _ => false

/-- Where the session's thread stands in `NoteSession::run`. -/
inductive ReaderPc
  | reading
  /-- at the callback for an update that was applied -/
  | notifying (frame : NoteFrame)
  /-- about to queue the ack -/
  | replying
  | ended
deriving DecidableEq

def ReaderPc.notice : ReaderPc → List NoteFrame
  | .notifying frame => [frame]
  | _ => []

/-- What `run_tui_note` and its session hold. -/
structure NoteEditor where
  session : NoteSession
  reader : ReaderPc := .reading
  pendingRemote : List NoteFrame := []
  editorText : String := ""
  localDirty : Bool := false
  dirtySince : Option Nat := none
  noteQr : String := ""
  pc : UiPc := .idle
  /-- history: the pad that was active when the text was last changed -/
  draftPad : String := "main"
  /-- history: what the text has been handed to the workspace with since it was last changed -/
  handed : Option NoteFrame := none

inductive NoteButton
  | prev
  | next
  | new
  | clear
  | qr
deriving DecidableEq

inductive EditorLabel
  /-- the user changes the text -/
  | type (text : String) (steady : Nat)
  | click (button : NoteButton)
  /-- `Event::Custom`, or the screen is drawn -/
  | refresh
  /-- the handler that runs goes on -/
  | ui (now steady : Nat)
  /-- a payload comes in from the peer -/
  | receive (now : Nat) (payload : Bytes)
  | notify
  | queueReply
  /-- the session's thread leaves its loop: the channel is gone, an error, or `stop_` -/
  | finish
  /-- the sender thread takes the first frame of the queue -/
  | take
  | sent
  | sendFails
  /-- `request_stop` -/
  | quit
deriving DecidableEq

/-- Neither the user nor a handler. -/
def EditorLabel.ofSession : EditorLabel → Bool
  | .type .. | .click _ | .refresh | .ui .. => false
  | _ => true

/-- `active_pad_index`. -/
def activePadIndex (snapshot : NoteWorkspaceSnapshot) : Nat :=
  (snapshot.documents.findIdx? fun document => document.padId = snapshot.activePad).getD 0

/-- The callback for an update that was applied: the frame takes the place of one of its pad. -/
def putPending (frame : NoteFrame) : List NoteFrame → List NoteFrame
  | [] => [frame]
  | queued :: rest => if queued.padId = frame.padId then frame :: rest else queued :: putPending frame rest

namespace NoteEditor

variable (env : NoteEnv) (lib : Json.Library) (printQrcode : String → Option String) (s : NoteEditor)

def start (writerId : String) : NoteEditor := { session := { workspace := NoteWorkspace.new writerId } }

abbrev workspace : NoteWorkspace := s.session.workspace

/-- `reset_local_edit`. -/
def resetLocalEdit : NoteEditor := { s with localDirty := false, dirtySince := none, handed := none }

/-- `load_active_document`. -/
def loadActiveDocument : NoteEditor :=
  { s with editorText := s.workspace.activeDocument.text, noteQr := "" }.resetLocalEdit

/-- A change of the text, and `mark_local_changed`. -/
def typed (text : String) (steady : Nat) : NoteEditor :=
  { s with
    editorText := text
    noteQr := ""
    localDirty := true
    dirtySince := some steady
    draftPad := s.workspace.activePad
    handed := none }

/-- `switch_active_pad`. -/
def switchActivePad (padId : String) : NoteEditor :=
  if padId = "" ∨ padId = s.workspace.activePad then s else { s with pc := .send (.switchActivePad padId) }

/-- `Prev` and `Next`: the pad so many places on. -/
def turn (places : Nat → Nat) : NoteEditor :=
  let snapshot := s.workspace.snapshot
  let count := snapshot.documents.length
  if count ≤ 1 then s
  else match snapshot.documents[(activePadIndex snapshot + places count) % count]? with
    | some document => s.switchActivePad document.padId
    | none => s

/-- The handlers of the buttons, up to the first lock they take for a change. -/
def click : NoteButton → NoteEditor
  | .prev => s.turn fun count => count - 1
  | .next => s.turn fun _ => 1
  | .new => { s with pc := .send .newPad }
  | .clear =>
    { s with editorText := "", noteQr := "", draftPad := s.workspace.activePad, handed := none, pc := .clear }
  | .qr =>
    if s.noteQr ≠ "" then { s with noteQr := "" }
    else if s.editorText = "" ∨ kNoteQrMaxBytes < s.editorText.utf8ByteSize then s
    else match printQrcode s.editorText with
      | some out => { s with noteQr := out }
      | none => s

/-- A local edit, up to the release of the workspace's lock. -/
def edited (workspace : NoteWorkspace) (frame : NoteFrame) (pc : UiPc) : NoteEditor :=
  { s with session := { s.session with workspace := workspace, edited := frame :: s.session.edited }, pc := pc }

/-- The session after `queue_frame`, and whether it has taken the frame. -/
def queue (frame : NoteFrame) : NoteEditor × Bool :=
  let (session, queued) := s.session.queueFrame env frame
  ({ s with session := session }, queued)

/-- The next step of the handler that runs; `none` where there is none, or it has thrown. -/
def uiStep (now steady : Nat) : Option NoteEditor :=
  match s.pc with
  | .idle => none
  | .applyRemote =>
    if s.localDirty then some { s with pc := .send .refresh }
    else some { s with pendingRemote := [], pc := .applyFrames s.pendingRemote }
  | .applyFrames [] => some { s with pc := .send .refresh }
  | .applyFrames (frame :: frames) =>
    if s.workspace.activePad ≠ frame.padId then some { s with pc := .applyFrames frames }
    else some { s with pc := .loadFrame frames }
  | .loadFrame frames => some { s.loadActiveDocument with pc := .applyFrames frames }
  | .send sender =>
    match s.localDirty, s.dirtySince with
    | true, some since =>
      if kNoteMaxBytes < s.editorText.utf8ByteSize then some { s with pc := sender.next }
      else if sender.waitForDebounce ∧ steady - since < kNoteDebounce then some { s with pc := sender.next }
      else match s.workspace.edit now (.updateActive s.editorText) with
        | .ok (workspace, frame) =>
          some { s.edited workspace frame (.queueEdit frame sender) with handed := some frame }
        | .error _ => none
    | _, _ => some { s with pc := sender.next }
  | .queueEdit frame sender =>
    match s.queue env frame with
    | (s, true) => some { s.resetLocalEdit with pc := sender.next }
    | (s, false) => some { s with pc := sender.next }
  | .select padId =>
    match s.workspace.selectPad padId with
    | (workspace, true) => some { s with session := { s.session with workspace := workspace }, pc := .load }
    | (_, false) => some { s with pc := .idle }
  | .create =>
    match s.workspace.edit now .createPad with
    | .ok (workspace, frame) => some (s.edited workspace frame (.queueCreate frame))
    | .error _ => none
  | .queueCreate frame =>
    match s.queue env frame with
    | (s, true) => some { s with pc := .load }
    | (s, false) => some { s with pc := .idle }
  | .load => some { s.loadActiveDocument with pc := .idle }
  | .clear =>
    match s.workspace.edit now .clearActive with
    | .ok (workspace, frame) =>
      some { s.edited workspace frame (.queueClear frame) with handed := some frame }
    | .error _ => none
  | .queueClear frame => some { (s.queue env frame).1.resetLocalEdit with pc := .idle }

/-- `stop_` is set, by whoever. -/
def stop : NoteEditor := { s with session := { s.session with stopped := true } }

/-- A frame comes in, up to the release of the workspace's lock. -/
def receive (now : Nat) (frame : NoteFrame) : NoteEditor :=
  if frame.type = .bye then { s.stop with reader := .ended }
  else
    { s with
      session := s.session.receive now frame
      reader :=
        if isNoteEdit frame then
          if (s.workspace.applyRemote frame).2 then .notifying frame else .replying
        else .reading }

def step : EditorLabel → Option NoteEditor
  | .type text steady => if s.pc = .idle then some (s.typed text steady) else none
  | .click button => if s.pc = .idle then some (s.click printQrcode button) else none
  | .refresh => if s.pc = .idle then some { s with pc := .applyRemote } else none
  | .ui now steady => s.uiStep env now steady
  | .receive now payload =>
    if s.reader = .reading then
      match decodeNoteFrame lib payload with
      | .ok frame => some (s.receive now frame)
      | .error _ => some { s.stop with reader := .ended }
    else none
  | .notify =>
    match s.reader with
    | .notifying frame =>
      some { s with pendingRemote := putPending frame s.pendingRemote, reader := .replying }
    | _ => none
  | .queueReply =>
    match s.reader, s.session.reply with
    | .replying, some frame =>
      some { ({ s with session := { s.session with reply := none } }.queue env frame).1 with reader := .reading }
    | _, _ => none
  | .finish => if s.reader = .reading then some { s.stop with reader := .ended } else none
  | .take =>
    match s.session.stopped, s.session.sending, s.session.outgoing with
    | false, none, frame :: rest =>
      some { s with session := { s.session with
        outgoing := rest
        outgoingBytes := s.session.outgoingBytes - env.queuedFrameBytes frame
        sending := some frame } }
    | _, _, _ => none
  | .sent =>
    if s.session.sending = none then none
    else some { s with session := { s.session with sending := none } }
  | .sendFails =>
    if s.session.sending = none then none
    else some { s with session := { s.session with sending := none, stopped := true } }
  | .quit => some s.stop

end NoteEditor

/-! ## The workspace and the session

What the workspace makes of a text, a clear and a frame, as far as the text on the screen is concerned. -/

section Workspace

variable {env : NoteEnv} {ws ws' : NoteWorkspace} {frame : NoteFrame} {now : Nat} {text : String}

namespace NoteWorkspace

/-- An update that is not applied, or is for another pad, leaves the text on the screen as it is. -/
theorem text_applyRemote (h : ws.Sound) (hpad : frame.padId ≠ "") :
    (ws.applyRemote frame).1.activePad = ws.activePad ∧
    ((ws.applyRemote frame).1.activeDocument.text = ws.activeDocument.text ∨
      ((ws.applyRemote frame).2 = true ∧ frame.padId = ws.activePad)) := by
  by_cases he : isNoteEdit frame = true
  · have heq : ws.applyRemote frame =
        (ws.put frame.padId (applyNoteUpdate (ws.ensurePad frame.padId frame.title) frame).1,
          (applyNoteUpdate (ws.ensurePad frame.padId frame.title) frame).2) := by
      rw [applyRemote, if_pos he, normalizedPadId_of_ne hpad]
    rw [heq]
    refine ⟨rfl, ?_⟩
    simp only [put, activeDocument]
    by_cases hp : ws.activePad = frame.padId
    · cases happ : (applyNoteUpdate (ws.ensurePad frame.padId frame.title) frame).2 with
      | true => exact .inr ⟨rfl, hp.symm⟩
      | false =>
        left
        have hkept : (applyNoteUpdate (ws.ensurePad frame.padId frame.title) frame).1 =
            ws.ensurePad frame.padId frame.title := by
          unfold applyNoteUpdate at happ ⊢
          split_ifs at happ ⊢
          · rfl
          · rfl
        have hl := h.ensurePad_active.1
        rw [hp] at hl
        rw [hp, AList.lookup_insert, hkept, ensurePad_eq (normalizedPadId_of_ne hpad), hl]
        show (if frame.title = "" then ws.activeDocument else
          { ws.activeDocument with title := frame.title }).text = ws.activeDocument.text
        split
        · rfl
        · rfl
    · left
      rw [AList.lookup_insert_ne hp]
  · rw [applyRemote, if_neg he]
    exact ⟨rfl, .inl rfl⟩

theorem text_acknowledge (ws : NoteWorkspace) (frame : NoteFrame) :
    (ws.acknowledge frame).activePad = ws.activePad ∧
      (ws.acknowledge frame).activeDocument = ws.activeDocument := by
  unfold acknowledge
  split
  · exact ⟨rfl, rfl⟩
  · exact ⟨rfl, rfl⟩

/-- A frame of the active pad that is newer than its document. -/
theorem Sound.text_applyLocal (h : ws.Sound) {type : NoteFrameType} (htype : type = .update ∨ type = .clear)
    (hnext : ws.activeDocument.revision ≠ u64Max) :
    (ws.applyLocal ws.activeDocument (ws.activeFrame now type text)).1.activeDocument.text =
      (ws.activeFrame now type text).incomingText := by
  have he : isNoteEdit (ws.activeFrame now type text) = true := by
    rcases htype with rfl | rfl
    · rfl
    · rfl
  rw [h.activeDocument_applyLocal, applyNoteUpdate_of_lt he (h.key_lt_activeFrame_iff.mpr hnext)]

theorem Sound.padId_active (h : ws.Sound) : normalizedPadId ws.activeDocument.padId = ws.activePad := by
  rw [h.padId _ _ h.ensurePad_active.1]
  exact normalizedPadId_of_ne (h.named _ h.active)

/-- **What the editor hands to the workspace.** A text of at most the limit is taken over. -/
theorem Sound.update_active (h : ws.Sound) (now : Nat) (htext : text.utf8ByteSize ≤ kNoteMaxBytes) :
    ∃ ws' frame, ws.edit now (.updateActive text) = .ok (ws', frame) ∧ ws'.Sound ∧
      ws'.activePad = ws.activePad ∧ frame.text = text ∧ frame.padId = ws.activePad ∧
      (ws.activeDocument.revision ≠ u64Max → ws'.activeDocument.text = text) := by
  have hedit : ws.edit now (.updateActive text) =
      .ok (ws.applyLocal ws.activeDocument (ws.activeFrame now .update text)) := h.updateActive_eq htext
  exact ⟨_, _, hedit, h.edit hedit, rfl, rfl, h.padId_active, fun hnext => h.text_applyLocal (.inl rfl) hnext⟩

theorem Sound.clear_active (h : ws.Sound) (now : Nat) :
    ∃ ws' frame, ws.edit now .clearActive = .ok (ws', frame) ∧ ws'.Sound ∧
      ws'.activePad = ws.activePad ∧ frame.text = "" ∧ frame.padId = ws.activePad ∧
      (ws.activeDocument.revision ≠ u64Max → ws'.activeDocument.text = "") := by
  have hedit : ws.edit now .clearActive =
      .ok (ws.applyLocal ws.activeDocument (ws.activeFrame now .clear "")) := h.clearActive_eq
  exact ⟨_, _, hedit, h.edit hedit, rfl, rfl, h.padId_active, fun hnext => h.text_applyLocal (.inr rfl) hnext⟩

theorem Sound.selectPad (h : ws.Sound) (padId : String) : (ws.selectPad padId).1.Sound :=
  h.step (show ws.step Json.compact (.selectPad padId) = _ from rfl)

/-- A pad is made without an error: there was none of its name, so it is empty. -/
theorem edit_createPad_ok (ws : NoteWorkspace) (now : Nat) :
    ∃ ws' frame, ws.edit now .createPad = .ok (ws', frame) := by
  have hfree := ws.freshNumber_free ws.nextPadNumber
  have hname : normalizedPadId (padName (ws.freshNumber ws.documents.entries.length ws.nextPadNumber)) =
      padName (ws.freshNumber ws.documents.entries.length ws.nextPadNumber) := by
    apply normalizedPadId_of_ne
    intro heq
    have := congrArg String.toList heq
    simp [padName] at this
  have hnone := AList.lookup_eq_none.mpr hfree
  simp only [edit, createPad]
  rw [ensurePad_eq hname, hnone]
  exact ⟨_, _, rfl⟩

end NoteWorkspace

end Workspace

section Session

variable {env : NoteEnv} {session : NoteSession} {frame : NoteFrame} {now : Nat}

@[simp] theorem queueFrame_edited (env : NoteEnv) (session : NoteSession) (frame : NoteFrame) :
    (session.queueFrame env frame).1.edited = session.edited := by
  obtain ⟨outgoing, bytes, stopped, h, -⟩ := queueFrame_spec env session frame
  rw [h]

/-- A stopped session stays stopped. -/
theorem queueFrame_running (h : (session.queueFrame env frame).1.stopped = false) : session.stopped = false := by
  obtain ⟨outgoing, bytes, stopped, heq, hstays, -⟩ := queueFrame_spec env session frame
  have hstopped : stopped = false := by
    rw [heq] at h
    exact h
  by_contra hne
  rw [hstays (by simpa using hne)] at hstopped
  cases hstopped

/-- A session that has not taken a frame is stopped. -/
theorem queueFrame_refused (h : (session.queueFrame env frame).2 = false) :
    (session.queueFrame env frame).1.stopped = true := by
  unfold NoteSession.queueFrame at h ⊢
  by_cases hs : session.stopped = true
  · rw [if_pos hs]
    exact hs
  · rw [if_neg hs] at h ⊢
    cases hd : session.outgoing.dropWhile fun queued => !framesCoalesce queued frame with
    | nil =>
      simp only [hd] at h ⊢
      split_ifs at h ⊢
      rfl
    | cons queued behind =>
      simp only [hd] at h ⊢
      split_ifs at h ⊢
      rfl

theorem receive_workspace (session : NoteSession) (now : Nat) (frame : NoteFrame) :
    (session.receive now frame).workspace =
      if frame.type = .ack then session.workspace.acknowledge frame
      else (session.workspace.applyRemote frame).1 := by
  unfold NoteSession.receive
  split_ifs
  · rfl
  · rfl
  · rfl

@[simp] theorem receive_edited (session : NoteSession) (now : Nat) (frame : NoteFrame) :
    (session.receive now frame).edited = session.edited := by
  unfold NoteSession.receive
  split_ifs
  · rfl
  · rfl
  · rfl

@[simp] theorem receive_stopped (session : NoteSession) (now : Nat) (frame : NoteFrame) :
    (session.receive now frame).stopped = session.stopped := by
  unfold NoteSession.receive
  split_ifs
  · rfl
  · rfl
  · rfl

end Session

theorem map_putPending (frame : NoteFrame) (pending : List NoteFrame) :
    (putPending frame pending).map (·.padId) =
      if frame.padId ∈ pending.map (·.padId) then pending.map (·.padId)
      else pending.map (·.padId) ++ [frame.padId] := by
  induction pending with
  | nil => rfl
  | cons queued rest ih =>
    by_cases hpad : queued.padId = frame.padId
    · simp [putPending, hpad]
    · simp only [putPending, if_neg hpad, List.map_cons, ih, List.mem_cons, Ne.symm hpad, false_or]
      split_ifs
      · rfl
      · rfl

/-! ## What the handlers keep

The invariant is by the place a handler stands at: between two of its locks the session may have moved, and
what was true under the first lock need not be under the second. -/

namespace NoteEditor

variable {env : NoteEnv} {lib : Json.Library} {printQrcode : String → Option String} {s s' : NoteEditor}
  {l : EditorLabel} {frame : NoteFrame} {now steady : Nat} {writerId : String}

/-- The updates of the session that the user interface has still to look at. -/
def coming (s : NoteEditor) : List NoteFrame := s.reader.notice ++ (s.pendingRemote ++ s.pc.frames)

/-- The editor has the text of the active pad, or an update of the pad is on its way to it. -/
def Shown (s : NoteEditor) : Prop :=
  s.editorText = s.workspace.activeDocument.text ∨ s.workspace.activePad ∈ s.coming.map (·.padId)

/-- How far the two texts may differ, by where the handler stands. -/
def Aligned (s : NoteEditor) : Prop :=
  match s.pc with
  | .applyFrames _ => s.localDirty = false ∧ s.Shown
  | .queueEdit .. | .queueClear _ => s.Shown
  | .clear => s.editorText = ""
  | .load | .loadFrame _ | .queueCreate _ => True
  | .idle | .applyRemote | .send _ | .select _ | .create => s.localDirty = true ∨ s.Shown

/-- The text is in the workspace, or too long for it. -/
def Safe (s : NoteEditor) : Prop := kNoteMaxBytes < s.editorText.utf8ByteSize ∨ s.handed ≠ none

/-- Where a handler is about to replace the text, or to take the mark away, the text is safe. -/
def Guarded (s : NoteEditor) : Prop :=
  match s.pc with
  | .applyFrames _ | .loadFrame _ => s.localDirty = false
  | .queueEdit .. | .queueClear _ => s.handed ≠ none
  | .clear => s.editorText = ""
  | .select _ | .create | .queueCreate _ | .load => s.localDirty = true → s.Safe
  | .idle | .applyRemote | .send _ => True

/-- The pad the text was written in is the active one. -/
def SamePad (s : NoteEditor) : Prop :=
  match s.pc with
  | .load | .queueCreate _ => True
  | _ => s.localDirty = true → s.draftPad = s.workspace.activePad

structure Inv (printQrcode : String → Option String) (s : NoteEditor) : Prop where
  sound : s.workspace.Sound
  since : s.localDirty = true ↔ s.dirtySince ≠ none
  guarded : s.Guarded
  handed : ∀ frame ∈ s.handed, frame.text = s.editorText ∧ frame ∈ s.session.edited
  pads : (s.pendingRemote.map (·.padId)).Nodup
  qr : s.noteQr ≠ "" → printQrcode s.editorText = some s.noteQr ∧ s.editorText ≠ "" ∧
    s.editorText.utf8ByteSize ≤ kNoteQrMaxBytes

/-- What holds as long as the session runs. -/
structure Running (s : NoteEditor) : Prop where
  aligned : s.Aligned
  same : s.SamePad
  draft : ∀ frame ∈ s.handed, frame.padId = s.draftPad
  clearing : s.pc = .clear → s.draftPad = s.workspace.activePad

theorem coming_setPc (s : NoteEditor) (pc : UiPc) :
    ({ s with pc := pc } : NoteEditor).coming = s.reader.notice ++ (s.pendingRemote ++ pc.frames) := rfl

/-- A thread of the session leaves what belongs to the user interface alone. -/
structure SameUi (s s' : NoteEditor) : Prop where
  pc : s'.pc = s.pc
  editorText : s'.editorText = s.editorText
  localDirty : s'.localDirty = s.localDirty
  dirtySince : s'.dirtySince = s.dirtySince
  noteQr : s'.noteQr = s.noteQr
  handed : s'.handed = s.handed
  draftPad : s'.draftPad = s.draftPad

theorem SameUi.refl (s : NoteEditor) : SameUi s s := ⟨rfl, rfl, rfl, rfl, rfl, rfl, rfl⟩

theorem Inv.sameUi (h : s.Inv printQrcode) (ui : SameUi s s') (hsound : s'.workspace.Sound)
    (hedited : s'.session.edited = s.session.edited) (hpads : (s'.pendingRemote.map (·.padId)).Nodup) :
    s'.Inv printQrcode := by
  obtain ⟨-, hsince, hguarded, hhanded, -, hqr⟩ := h
  refine ⟨hsound, ?_, ?_, ?_, hpads, ?_⟩
  · rw [ui.localDirty, ui.dirtySince]
    exact hsince
  · unfold Guarded Safe at hguarded ⊢
    rw [ui.pc, ui.localDirty, ui.editorText, ui.handed]
    exact hguarded
  · rw [ui.handed, ui.editorText, hedited]
    exact hhanded
  · rw [ui.noteQr, ui.editorText]
    exact hqr

theorem Running.sameUi (h : s.Running) (ui : SameUi s s') (hactive : s'.workspace.activePad = s.workspace.activePad)
    (hshown : s.Shown → s'.Shown) : s'.Running := by
  obtain ⟨haligned, hsame, hdraft, hclearing⟩ := h
  refine ⟨?_, ?_, ?_, ?_⟩
  · unfold Aligned at haligned ⊢
    rw [ui.pc, ui.localDirty, ui.editorText]
    cases hpc : s.pc with
    | applyFrames frames =>
      rw [hpc] at haligned
      exact ⟨haligned.1, hshown haligned.2⟩
    | queueEdit frame sender | queueClear frame =>
      rw [hpc] at haligned
      exact hshown haligned
    | clear | load | loadFrame frames | queueCreate frame =>
      rw [hpc] at haligned
      exact haligned
    | idle | applyRemote | send sender | select padId | create =>
      rw [hpc] at haligned
      exact haligned.imp_right hshown
  · unfold SamePad at hsame ⊢
    rw [ui.pc, ui.localDirty, ui.draftPad, hactive]
    exact hsame
  · rw [ui.handed, ui.draftPad]
    exact hdraft
  · rw [ui.pc, ui.draftPad, hactive]
    exact hclearing

/-! ## The threads of the session

They change the workspace and never the editor. What they owe the editor is a notice for every text that has
changed. -/

theorem Shown.follow (h : s.Shown) (htext : s'.editorText = s.editorText)
    (hactive : s'.workspace.activePad = s.workspace.activePad)
    (hdocument : s'.workspace.activeDocument.text = s.workspace.activeDocument.text ∨
      s'.workspace.activePad ∈ s'.coming.map (·.padId))
    (hcoming : ∀ pad ∈ s.coming.map (·.padId), pad ∈ s'.coming.map (·.padId)) : s'.Shown := by
  unfold Shown
  rcases hdocument with hdocument | hcomes
  · rw [htext, hdocument, hactive]
    exact h.imp_right (hcoming _)
  · exact .inr hcomes

/-- What a step of the session's threads leaves of the editor. -/
structure Served (s s' : NoteEditor) : Prop where
  ui : SameUi s s'
  sound : s'.workspace.Sound
  edited : s'.session.edited = s.session.edited
  pads : (s'.pendingRemote.map (·.padId)).Nodup
  active : s'.workspace.activePad = s.workspace.activePad
  shown : s.Shown → s'.Shown
  running : s'.session.stopped = false → s.session.stopped = false

/-- The workspace is the same, and no update is forgotten. -/
theorem Served.of_workspace (h : s.Inv printQrcode) (ui : SameUi s s') (hws : s'.workspace = s.workspace)
    (hedited : s'.session.edited = s.session.edited) (hpending : s'.pendingRemote = s.pendingRemote)
    (hnotice : s'.reader.notice = s.reader.notice)
    (hrunning : s'.session.stopped = false → s.session.stopped = false) : Served s s' := by
  refine ⟨ui, hws ▸ h.sound, hedited, hpending ▸ h.pads, by rw [hws], fun hshown => ?_, hrunning⟩
  refine hshown.follow ui.editorText (by rw [hws]) (.inl (by rw [hws])) fun pad hpad => ?_
  unfold coming at hpad ⊢
  rw [hnotice, hpending, ui.pc]
  exact hpad

theorem sound_receive {payload : Bytes} (h : s.Inv printQrcode)
    (hdecode : decodeNoteFrame lib payload = .ok frame) : (s.session.receive now frame).workspace.Sound := by
  apply h.sound.step
  show s.session.workspace.step lib (.receive payload) = _
  simp only [NoteWorkspace.step, hdecode, receive_workspace]
  split_ifs
  · rfl
  · rfl

/-- A frame by which the text of no pad changes. -/
theorem served_quiet {payload : Bytes} (h : s.Inv printQrcode) (hreading : s.reader = .reading)
    (hdecode : decodeNoteFrame lib payload = .ok frame) (hnot : (s.workspace.applyRemote frame).2 = false)
    (reader : ReaderPc) : Served s { s with session := s.session.receive now frame, reader := reader } := by
  have hws : (s.session.receive now frame).workspace.activePad = s.workspace.activePad ∧
      (s.session.receive now frame).workspace.activeDocument.text = s.workspace.activeDocument.text := by
    rw [receive_workspace]
    split_ifs
    · obtain ⟨hactive, hdocument⟩ := NoteWorkspace.text_acknowledge s.workspace frame
      exact ⟨hactive, by rw [hdocument]⟩
    · obtain ⟨hactive, htext⟩ := NoteWorkspace.text_applyRemote h.sound (decodeNoteFrame_ok hdecode).2.2
      refine ⟨hactive, htext.resolve_right fun happlied => ?_⟩
      exact absurd happlied.1 (by rw [hnot]; decide)
  refine ⟨⟨rfl, rfl, rfl, rfl, rfl, rfl, rfl⟩, sound_receive h hdecode, receive_edited .., h.pads, hws.1,
    fun hshown => ?_, fun hrunning => (receive_stopped ..).symm.trans hrunning⟩
  refine hshown.follow ?_ ?_ ?_ ?_
  · rfl
  · exact hws.1
  · exact .inl hws.2
  · intro pad hpad
    unfold coming at hpad
    rw [hreading] at hpad
    show pad ∈ (reader.notice ++ (s.pendingRemote ++ s.pc.frames)).map (·.padId)
    rw [List.map_append, List.mem_append]
    exact .inr hpad

theorem served_receive {payload : Bytes} (h : s.Inv printQrcode) (hreading : s.reader = .reading)
    (hdecode : decodeNoteFrame lib payload = .ok frame) : Served s (s.receive now frame) := by
  have hnone : s.reader.notice = [] := by rw [hreading]; rfl
  unfold receive
  split_ifs with hbye hedit happlied
  · exact .of_workspace h ⟨rfl, rfl, rfl, rfl, rfl, rfl, rfl⟩ rfl rfl rfl hnone.symm nofun
  · have hnotAck : frame.type ≠ .ack := fun hack => by simp [isNoteEdit, hack] at hedit
    have hws : (s.session.receive now frame).workspace = (s.workspace.applyRemote frame).1 := by
      rw [receive_workspace, if_neg hnotAck]
    obtain ⟨hactive, htext⟩ := NoteWorkspace.text_applyRemote h.sound (decodeNoteFrame_ok hdecode).2.2
    rw [← hws] at hactive htext
    refine ⟨⟨rfl, rfl, rfl, rfl, rfl, rfl, rfl⟩, sound_receive h hdecode, receive_edited .., h.pads, hactive,
      fun hshown => ?_, fun hrunning => (receive_stopped ..).symm.trans hrunning⟩
    refine hshown.follow ?_ ?_ ?_ ?_
    · rfl
    · exact hactive
    · refine htext.imp_right fun hpad => ?_
      show (s.session.receive now frame).workspace.activePad ∈ _
      rw [hactive, ← hpad.2]
      exact List.mem_cons_self
    · intro pad hpad
      rw [coming, hnone, List.nil_append] at hpad
      exact List.mem_cons_of_mem _ hpad
  · exact served_quiet h hreading hdecode (by simpa using happlied) .replying
  · refine served_quiet h hreading hdecode ?_ .reading
    rw [NoteWorkspace.applyRemote, if_neg hedit]

theorem served_notify (h : s.Inv printQrcode) (hreader : s.reader = .notifying frame) :
    Served s { s with pendingRemote := putPending frame s.pendingRemote, reader := .replying } := by
  refine ⟨⟨rfl, rfl, rfl, rfl, rfl, rfl, rfl⟩, h.sound, rfl, ?_, rfl, fun hshown => ?_, id⟩
  · show ((putPending frame s.pendingRemote).map (·.padId)).Nodup
    rw [map_putPending]
    split_ifs with hmem
    · exact h.pads
    · exact h.pads.append (List.nodup_singleton _) (by simpa [List.disjoint_singleton] using hmem)
  · refine hshown.follow ?_ ?_ (.inl ?_) fun pad hpad => ?_
    · rfl
    · rfl
    · rfl
    simp only [coming, hreader, ReaderPc.notice, List.map_append, List.mem_append, List.map_cons, List.map_nil,
      List.mem_singleton, map_putPending] at hpad ⊢
    split_ifs with hmem
    · rcases hpad with rfl | hpad
      · exact .inr (.inl hmem)
      · exact .inr hpad
    · rcases hpad with rfl | hpad | hpad
      · simp
      · simp [hpad]
      · simp [hpad]

/-- **The session's threads, and `request_stop`.** -/
theorem served_step (h : s.Inv printQrcode) (hs : s.step env lib printQrcode l = some s')
    (hl : l.ofSession = true) : Served s s' := by
  -- a step that does not touch the workspace owes the editor nothing
  have hkeep {session : NoteSession} {reader : ReaderPc} (hws : session.workspace = s.workspace)
      (hedited : session.edited = s.session.edited) (hnotice : reader.notice = s.reader.notice)
      (hrunning : session.stopped = false → s.session.stopped = false) :
      Served s { s with session := session, reader := reader } :=
    .of_workspace h ⟨rfl, rfl, rfl, rfl, rfl, rfl, rfl⟩ hws hedited rfl hnotice hrunning
  cases l with
  | type text steady | click button | refresh | ui now steady => cases hl
  | receive now payload =>
    simp only [step] at hs
    split_ifs at hs with hreading
    split at hs
    next frame hdecode =>
      obtain rfl := Option.some.inj hs
      exact served_receive h hreading hdecode
    next =>
      obtain rfl := Option.some.inj hs
      exact hkeep rfl rfl (by rw [hreading]; rfl) nofun
  -- the notice comes behind the change it is about
  | notify =>
    simp only [step] at hs
    split at hs
    next frame hreader =>
      obtain rfl := Option.some.inj hs
      exact served_notify h hreader
    next => cases hs
  | queueReply =>
    simp only [step] at hs
    split at hs
    next frame hreader hreply =>
      obtain rfl := Option.some.inj hs
      refine hkeep ?_ ?_ (by rw [hreader]; rfl) ?_
      · exact queueFrame_workspace ..
      · exact queueFrame_edited ..
      · exact queueFrame_running
    next => cases hs
  | finish =>
    simp only [step] at hs
    split_ifs at hs with hreading
    obtain rfl := Option.some.inj hs
    exact hkeep rfl rfl (by rw [hreading]; rfl) nofun
  | take =>
    simp only [step] at hs
    split at hs
    next hstopped _ _ =>
      obtain rfl := Option.some.inj hs
      exact hkeep rfl rfl rfl id
    next => cases hs
  | sent =>
    simp only [step] at hs
    split_ifs at hs
    obtain rfl := Option.some.inj hs
    exact hkeep rfl rfl rfl id
  | sendFails =>
    simp only [step] at hs
    split_ifs at hs
    obtain rfl := Option.some.inj hs
    exact hkeep rfl rfl rfl nofun
  | quit =>
    obtain rfl := Option.some.inj hs
    exact hkeep rfl rfl rfl nofun

/-! ## The user interface

One case for each place of a handler. Those that replace the text of the editor, or take the mark away, are
the ones where a text could be lost. -/

theorem Inv.reset (h : s.Inv printQrcode) (pc : UiPc)
    (hguarded : ({ s.resetLocalEdit with pc := pc } : NoteEditor).Guarded) :
    ({ s.resetLocalEdit with pc := pc } : NoteEditor).Inv printQrcode :=
  ⟨h.sound, by simp [resetLocalEdit], hguarded, by simp [resetLocalEdit], h.pads, h.qr⟩

theorem Inv.setPc (h : s.Inv printQrcode) (pc : UiPc) (hguarded : ({ s with pc := pc } : NoteEditor).Guarded) :
    ({ s with pc := pc } : NoteEditor).Inv printQrcode :=
  ⟨h.sound, h.since, hguarded, h.handed, h.pads, h.qr⟩

theorem Inv.load (h : s.Inv printQrcode) (pc : UiPc)
    (hguarded : ({ s.loadActiveDocument with pc := pc } : NoteEditor).Guarded) :
    ({ s.loadActiveDocument with pc := pc } : NoteEditor).Inv printQrcode :=
  ⟨h.sound, by simp [loadActiveDocument, resetLocalEdit], hguarded, by simp [loadActiveDocument, resetLocalEdit],
    h.pads, fun hne => absurd rfl hne⟩

/-- `send_editor` goes on to what is behind it, with the text safe or not changed. -/
theorem guarded_next {sender : Sender} (h : sender = .refresh ∨ (s.localDirty = true → s.Safe)) :
    ({ s with pc := sender.next } : NoteEditor).Guarded := by
  cases sender with
  | refresh => trivial
  | switchActivePad padId | newPad =>
    rcases h with h | h
    · cases h
    · exact h

/-- `queue_frame` leaves what belongs to the user interface and the workspace alone. -/
theorem served_queue (h : s.Inv printQrcode) (frame : NoteFrame) : Served s (s.queue env frame).1 :=
  .of_workspace h ⟨rfl, rfl, rfl, rfl, rfl, rfl, rfl⟩ (queueFrame_workspace ..) (queueFrame_edited ..) rfl rfl
    queueFrame_running

theorem Served.inv (h : s.Inv printQrcode) (hserved : Served s s') : s'.Inv printQrcode :=
  h.sameUi hserved.ui hserved.sound hserved.edited hserved.pads

theorem Served.keeps_running (h : s.Running) (hserved : Served s s') : s'.Running :=
  h.sameUi hserved.ui hserved.active hserved.shown

theorem queue_refused {t : NoteEditor} (h : s.queue env frame = (t, false)) : t.session.stopped = true := by
  have ht : t = (s.queue env frame).1 := by rw [h]
  have hrefused : (s.queue env frame).2 = false := by rw [h]
  rw [ht]
  exact queueFrame_refused hrefused

/-- A local edit takes its place among those that were made. -/
theorem Inv.edited (h : s.Inv printQrcode) {workspace : NoteWorkspace} (hsound : workspace.Sound) (pc : UiPc)
    (handed : Option NoteFrame) (hhanded : ∀ f ∈ handed, f.text = s.editorText ∧ f ∈ frame :: s.session.edited)
    (hguarded : ({ s.edited workspace frame pc with handed := handed } : NoteEditor).Guarded) :
    ({ s.edited workspace frame pc with handed := handed } : NoteEditor).Inv printQrcode :=
  ⟨hsound, h.since, hguarded, hhanded, h.pads, h.qr⟩

theorem inv_uiStep (h : s.Inv printQrcode) (hs : s.uiStep env now steady = some s') : s'.Inv printQrcode := by
  have hguarded := h.guarded
  unfold Guarded at hguarded
  unfold uiStep at hs
  cases hpc : s.pc with
  | idle =>
    rw [hpc] at hs
    cases hs
  | applyRemote =>
    simp only [hpc] at hs
    split_ifs at hs with hdirty
    · obtain rfl := Option.some.inj hs
      exact h.setPc _ trivial
    · obtain rfl := Option.some.inj hs
      have hclean : s.localDirty = false := by simpa using hdirty
      exact ⟨h.sound, h.since, hclean, h.handed, List.nodup_nil, h.qr⟩
  | applyFrames frames =>
    rw [hpc] at hguarded
    cases frames with
    | nil =>
      simp only [hpc] at hs
      obtain rfl := Option.some.inj hs
      exact h.setPc _ trivial
    | cons frame frames =>
      simp only [hpc] at hs
      split_ifs at hs
      · obtain rfl := Option.some.inj hs
        exact h.setPc _ hguarded
      · obtain rfl := Option.some.inj hs
        exact h.setPc _ hguarded
  | loadFrame frames =>
    simp only [hpc] at hs
    obtain rfl := Option.some.inj hs
    exact h.load _ rfl
  | send sender =>
    simp only [hpc] at hs
    split at hs
    next since hdirty hsince =>
      split_ifs at hs with hlong hwait
      · obtain rfl := Option.some.inj hs
        exact h.setPc _ (guarded_next (.inr fun _ => .inl hlong))
      · obtain rfl := Option.some.inj hs
        refine h.setPc _ (guarded_next (.inl ?_))
        cases sender with
        | refresh => rfl
        | switchActivePad padId | newPad => exact absurd hwait.1 Bool.false_ne_true
      · obtain ⟨workspace, frame, hedit, hsound, -, htext, -⟩ :=
          h.sound.update_active now (not_lt.mp hlong)
        rw [hedit] at hs
        obtain rfl := Option.some.inj hs
        refine h.edited hsound _ _ ?_ nofun
        intro f hf
        obtain rfl := Option.some.inj hf
        exact ⟨htext, List.mem_cons_self⟩
    next hnot =>
      obtain rfl := Option.some.inj hs
      refine h.setPc _ (guarded_next (.inr fun hdirty => ?_))
      -- what is dirty has been so since some time
      obtain ⟨since, hsince⟩ := Option.ne_none_iff_exists'.mp (h.since.mp hdirty)
      exact (hnot since hdirty hsince).elim
  | queueEdit frame sender =>
    rw [hpc] at hguarded
    simp only [hpc] at hs
    have hserved : Served s (s.queue env frame).1 := served_queue h frame
    have hqueue := hserved.inv h
    split at hs
    next t ht =>
      obtain rfl := Option.some.inj hs
      rw [ht] at hqueue
      exact hqueue.reset _ (guarded_next (s := t.resetLocalEdit) (.inr nofun))
    next t ht =>
      obtain rfl := Option.some.inj hs
      rw [ht] at hqueue hserved
      refine hqueue.setPc _ (guarded_next (.inr fun _ => .inr ?_))
      rw [hserved.ui.handed]
      exact hguarded
  | select padId =>
    rw [hpc] at hguarded
    simp only [hpc] at hs
    have hsound := h.sound.selectPad padId
    split at hs
    next workspace hselect =>
      obtain rfl := Option.some.inj hs
      rw [hselect] at hsound
      exact ⟨hsound, h.since, hguarded, h.handed, h.pads, h.qr⟩
    next =>
      obtain rfl := Option.some.inj hs
      exact h.setPc _ trivial
  | create =>
    rw [hpc] at hguarded
    simp only [hpc] at hs
    split at hs
    next workspace frame hedit =>
      obtain rfl := Option.some.inj hs
      refine h.edited (h.sound.edit hedit) _ _ (fun f hf => ?_) hguarded
      obtain ⟨htext, hmem⟩ := h.handed f hf
      exact ⟨htext, List.mem_cons_of_mem _ hmem⟩
    next => cases hs
  | queueCreate frame =>
    rw [hpc] at hguarded
    simp only [hpc] at hs
    have hserved : Served s (s.queue env frame).1 := served_queue h frame
    have hqueue := hserved.inv h
    split at hs
    next t ht =>
      obtain rfl := Option.some.inj hs
      rw [ht] at hqueue hserved
      apply hqueue.setPc
      show t.localDirty = true → t.Safe
      unfold Safe
      rw [hserved.ui.localDirty, hserved.ui.editorText, hserved.ui.handed]
      exact hguarded
    next t ht =>
      obtain rfl := Option.some.inj hs
      rw [ht] at hqueue
      exact hqueue.setPc _ trivial
  | load =>
    simp only [hpc] at hs
    obtain rfl := Option.some.inj hs
    exact h.load _ trivial
  | clear =>
    rw [hpc] at hguarded
    simp only [hpc] at hs
    obtain ⟨workspace, frame, hedit, hsound, -, htext, -⟩ :=
      h.sound.clear_active now
    rw [hedit] at hs
    obtain rfl := Option.some.inj hs
    refine h.edited hsound _ _ ?_ nofun
    intro f hf
    obtain rfl := Option.some.inj hf
    exact ⟨htext.trans hguarded.symm, List.mem_cons_self⟩
  | queueClear frame =>
    simp only [hpc] at hs
    obtain rfl := Option.some.inj hs
    exact ((served_queue h frame).inv h).reset _ trivial

theorem shown_setPc (h : s.Shown) (pc : UiPc) (hframes : s.pc.frames ⊆ pc.frames) :
    ({ s with pc := pc } : NoteEditor).Shown := by
  refine h.follow rfl rfl (.inl rfl) fun pad hpad => ?_
  apply List.map_subset _ _ hpad
  intro f hf
  rw [coming] at hf
  rw [coming_setPc]
  rcases List.mem_append.mp hf with hf | hf
  · exact List.mem_append_left _ hf
  · apply List.mem_append_right
    rcases List.mem_append.mp hf with hf | hf
    · exact List.mem_append_left _ hf
    · exact List.mem_append_right _ (hframes hf)

theorem shown_load (s : NoteEditor) (pc : UiPc) : ({ s.loadActiveDocument with pc := pc } : NoteEditor).Shown := .inl rfl

/-- The handler is behind `send_editor`. -/
theorem aligned_next {sender : Sender} (hframes : s.pc.frames = []) (h : s.localDirty = true ∨ s.Shown) :
    ({ s with pc := sender.next } : NoteEditor).Aligned := by
  have hshown (pc : UiPc) : s.Shown → ({ s with pc := pc } : NoteEditor).Shown :=
    fun hs => shown_setPc hs pc (by rw [hframes]; exact List.nil_subset _)
  cases sender with
  | refresh => exact h.imp_right (hshown _)
  | switchActivePad padId => exact h.imp_right (hshown _)
  | newPad => exact h.imp_right (hshown _)

theorem samePad_next {sender : Sender} (h : s.localDirty = true → s.draftPad = s.workspace.activePad) :
    ({ s with pc := sender.next } : NoteEditor).SamePad := by
  cases sender with
  | refresh => exact h
  | switchActivePad padId => exact h
  | newPad => exact h

theorem next_ne_clear (sender : Sender) : sender.next ≠ .clear := by
  cases sender <;> nofun

/-- **What a handler keeps while the session runs and the active pad has a next revision.** -/
theorem running_uiStep (h : s.Inv printQrcode) (hr : s.Running)
    (hnext : s.workspace.activeDocument.revision ≠ u64Max) (hs : s.uiStep env now steady = some s')
    (hstays : s'.session.stopped = false) : s'.Running := by
  obtain ⟨haligned, hsame, hdraft, hclearing⟩ := hr
  unfold Aligned at haligned
  unfold SamePad at hsame
  unfold uiStep at hs
  cases hpc : s.pc with
  | idle =>
    rw [hpc] at hs
    cases hs
  | applyRemote =>
    rw [hpc] at haligned hsame
    simp only [hpc] at hs
    split_ifs at hs with hdirty
    · obtain rfl := Option.some.inj hs
      exact ⟨.inl hdirty, hsame, hdraft, nofun⟩
    · obtain rfl := Option.some.inj hs
      have hclean : s.localDirty = false := by simpa using hdirty
      have hshown := haligned.resolve_left hdirty
      refine ⟨⟨hclean, hshown.imp_right fun hcomes => ?_⟩, hsame, hdraft, nofun⟩
      simpa [coming, hpc, UiPc.frames] using hcomes
  | applyFrames frames =>
    rw [hpc] at haligned hsame
    obtain ⟨hclean, hshown⟩ := haligned
    cases frames with
    | nil =>
      simp only [hpc] at hs
      obtain rfl := Option.some.inj hs
      exact ⟨.inr (shown_setPc hshown _ (by rw [hpc]; exact List.nil_subset _)), hsame, hdraft, nofun⟩
    | cons frame frames =>
      simp only [hpc] at hs
      split_ifs at hs with hother
      · obtain rfl := Option.some.inj hs
        refine ⟨⟨hclean, hshown.imp_right fun hcomes => ?_⟩, hsame, hdraft, nofun⟩
        -- the frame passed over is for another pad
        rw [coming, hpc] at hcomes
        rw [coming_setPc]
        simp only [UiPc.frames, List.map_append, List.map_cons, List.mem_append, List.mem_cons, hother,
          false_or] at hcomes ⊢
        exact hcomes
      · obtain rfl := Option.some.inj hs
        exact ⟨trivial, hsame, hdraft, nofun⟩
  | loadFrame frames =>
    simp only [hpc] at hs
    obtain rfl := Option.some.inj hs
    exact ⟨⟨rfl, shown_load ..⟩, nofun, nofun, nofun⟩
  | send sender =>
    rw [hpc] at haligned hsame
    simp only [hpc] at hs
    have hgoesOn : ({ s with pc := sender.next } : NoteEditor).Running :=
      ⟨aligned_next (by rw [hpc]; rfl) haligned, samePad_next hsame, hdraft,
        fun heq => absurd heq (next_ne_clear sender)⟩
    split at hs
    next since hdirty hsince =>
      split_ifs at hs with hlong hwait
      · obtain rfl := Option.some.inj hs
        exact hgoesOn
      · obtain rfl := Option.some.inj hs
        exact hgoesOn
      · obtain ⟨workspace, frame, hedit, -, hactive, -, hpad, htext⟩ :=
          h.sound.update_active now (not_lt.mp hlong)
        rw [hedit] at hs
        obtain rfl := Option.some.inj hs
        refine ⟨.inl (htext hnext).symm, fun _ => (hsame hdirty).trans hactive.symm, ?_, nofun⟩
        intro f hf
        obtain rfl := Option.some.inj hf
        exact hpad.trans (hsame hdirty).symm
    next =>
      obtain rfl := Option.some.inj hs
      exact hgoesOn
  | queueEdit frame sender =>
    rw [hpc] at haligned
    simp only [hpc] at hs
    have hserved : Served s (s.queue env frame).1 := served_queue h frame
    split at hs
    next t ht =>
      obtain rfl := Option.some.inj hs
      rw [ht] at hserved
      refine ⟨aligned_next (s := t.resetLocalEdit) ?_ (.inr (hserved.shown haligned)), samePad_next nofun, nofun,
        fun heq => absurd heq (next_ne_clear sender)⟩
      show t.pc.frames = []
      rw [hserved.ui.pc, hpc]
      rfl
    next t ht =>
      obtain rfl := Option.some.inj hs
      exact absurd (queue_refused ht) (by rw [show t.session.stopped = false from hstays]; decide)
  | select padId =>
    rw [hpc] at haligned hsame
    simp only [hpc] at hs
    split at hs
    next workspace hselect =>
      obtain rfl := Option.some.inj hs
      exact ⟨trivial, trivial, hdraft, nofun⟩
    next =>
      obtain rfl := Option.some.inj hs
      refine ⟨haligned.imp_right fun hshown => ?_, hsame, hdraft, nofun⟩
      exact shown_setPc hshown _ (by rw [hpc]; exact List.nil_subset _)
  | create =>
    simp only [hpc] at hs
    split at hs
    next workspace frame hedit =>
      obtain rfl := Option.some.inj hs
      exact ⟨trivial, trivial, hdraft, nofun⟩
    next => cases hs
  | queueCreate frame =>
    simp only [hpc] at hs
    have hserved : Served s (s.queue env frame).1 := served_queue h frame
    split at hs
    next t ht =>
      obtain rfl := Option.some.inj hs
      rw [ht] at hserved
      refine ⟨trivial, trivial, ?_, nofun⟩
      show ∀ f ∈ t.handed, f.padId = t.draftPad
      rw [hserved.ui.handed, hserved.ui.draftPad]
      exact hdraft
    next t ht =>
      obtain rfl := Option.some.inj hs
      exact absurd (queue_refused ht) (by rw [show t.session.stopped = false from hstays]; decide)
  | load =>
    simp only [hpc] at hs
    obtain rfl := Option.some.inj hs
    exact ⟨.inr (shown_load ..), nofun, nofun, nofun⟩
  | clear =>
    rw [hpc] at haligned hsame
    simp only [hpc] at hs
    obtain ⟨workspace, frame, hedit, -, hactive, -, hpad, htext⟩ :=
      h.sound.clear_active now
    rw [hedit] at hs
    obtain rfl := Option.some.inj hs
    have hpadIs := hclearing hpc
    refine ⟨.inl (haligned.trans (htext hnext).symm), fun _ => hpadIs.trans hactive.symm, ?_, nofun⟩
    intro f hf
    obtain rfl := Option.some.inj hf
    exact hpad.trans hpadIs.symm
  | queueClear frame =>
    rw [hpc] at haligned
    simp only [hpc] at hs
    obtain rfl := Option.some.inj hs
    have hserved : Served s (s.queue env frame).1 := served_queue h frame
    refine ⟨.inr ?_, nofun, nofun, nofun⟩
    exact shown_setPc (s := (s.queue env frame).1.resetLocalEdit) (hserved.shown haligned) _
      (by rw [show (s.queue env frame).1.resetLocalEdit.pc = s.pc from rfl, hpc]; exact List.nil_subset _)

/-- **The user.** A change of the text starts a new draft; a button starts a handler. -/
theorem inv_user (h : s.Inv printQrcode) (hs : s.step env lib printQrcode l = some s')
    (hl : (∃ text steady, l = .type text steady) ∨ (∃ button, l = .click button) ∨ l = .refresh) :
    s'.Inv printQrcode ∧ (s.Running → s'.Running) ∧ s'.session = s.session := by
  obtain ⟨hsound, hsince, hguarded, hhanded, hpads, hqr⟩ := h
  -- the handlers that send first leave the text where it is
  have hsend (sender : Sender) (hpc : s.pc = .idle) (hr : s.Running) :
      ({ s with pc := .send sender } : NoteEditor).Running := by
    obtain ⟨haligned, hsame, hdraft, -⟩ := hr
    unfold Aligned at haligned
    unfold SamePad at hsame
    rw [hpc] at haligned hsame
    refine ⟨haligned.imp_right fun hshown => ?_, hsame, hdraft, nofun⟩
    exact shown_setPc hshown _ (by rw [hpc]; exact List.nil_subset _)
  -- a switch to another pad loads that pad's text
  have hswitch (pad : String) (hpc : s.pc = .idle) : (s.switchActivePad pad).Inv printQrcode ∧
      (s.Running → (s.switchActivePad pad).Running) ∧ (s.switchActivePad pad).session = s.session := by
    unfold switchActivePad
    split_ifs
    · exact ⟨⟨hsound, hsince, hguarded, hhanded, hpads, hqr⟩, id, rfl⟩
    · exact ⟨⟨hsound, hsince, trivial, hhanded, hpads, hqr⟩, hsend _ hpc, rfl⟩
  have hturn (places : Nat → Nat) (hpc : s.pc = .idle) : (s.turn places).Inv printQrcode ∧
      (s.Running → (s.turn places).Running) ∧ (s.turn places).session = s.session := by
    unfold turn
    dsimp only
    split_ifs
    · exact ⟨⟨hsound, hsince, hguarded, hhanded, hpads, hqr⟩, id, rfl⟩
    · split
      · exact hswitch _ hpc
      · exact ⟨⟨hsound, hsince, hguarded, hhanded, hpads, hqr⟩, id, rfl⟩
  -- the user types, presses a button, or asks for a refresh
  rcases hl with ⟨text, steady, rfl⟩ | ⟨button, rfl⟩ | rfl
  · simp only [step] at hs
    split_ifs at hs with hpc
    obtain rfl := Option.some.inj hs
    refine ⟨⟨hsound, ?_, ?_, nofun, hpads, fun hne => absurd rfl hne⟩, fun _ => ⟨?_, ?_, nofun, ?_⟩, rfl⟩
    · simp [typed]
    · simp [Guarded, typed, hpc]
    · simp [Aligned, typed, hpc]
    · simp [SamePad, typed, hpc]
    · intro hclear
      rw [show (s.typed text steady).pc = s.pc from rfl, hpc] at hclear
      cases hclear
  · simp only [step] at hs
    split_ifs at hs with hpc
    obtain rfl := Option.some.inj hs
    cases button with
    | prev => exact hturn (fun count => count - 1) hpc
    | next => exact hturn (fun _ => 1) hpc
    | new => exact ⟨⟨hsound, hsince, trivial, hhanded, hpads, hqr⟩, hsend _ hpc, rfl⟩
    | clear =>
      exact ⟨⟨hsound, hsince, rfl, nofun, hpads, fun hne => absurd rfl hne⟩,
        fun _ => ⟨rfl, fun _ => rfl, nofun, fun _ => rfl⟩, rfl⟩
    | qr =>
      have hkeeps (out : String) (hout : out ≠ "" → printQrcode s.editorText = some out ∧ s.editorText ≠ "" ∧
          s.editorText.utf8ByteSize ≤ kNoteQrMaxBytes) : ({ s with noteQr := out } : NoteEditor).Inv printQrcode ∧
          (s.Running → ({ s with noteQr := out } : NoteEditor).Running) ∧
          ({ s with noteQr := out } : NoteEditor).session = s.session :=
        ⟨⟨hsound, hsince, hguarded, hhanded, hpads, hout⟩,
          fun hr => ⟨hr.aligned, hr.same, hr.draft, hr.clearing⟩, rfl⟩
      simp only [click]
      split_ifs with hne hlimits
      · exact hkeeps "" fun h => absurd rfl h
      · exact hkeeps _ hqr
      · rw [not_or, not_lt] at hlimits
        split
        next out hout => exact hkeeps out fun _ => ⟨hout, hlimits.1, hlimits.2⟩
        next => exact hkeeps _ hqr
  · simp only [step] at hs
    split_ifs at hs with hpc
    obtain rfl := Option.some.inj hs
    refine ⟨⟨hsound, hsince, trivial, hhanded, hpads, hqr⟩, fun hr => ?_, rfl⟩
    obtain ⟨haligned, hsame, hdraft, -⟩ := hr
    unfold Aligned at haligned
    unfold SamePad at hsame
    rw [hpc] at haligned hsame
    refine ⟨haligned.imp_right fun hshown => ?_, hsame, hdraft, nofun⟩
    exact shown_setPc hshown _ (by rw [hpc]; exact List.nil_subset _)

theorem label_cases (l : EditorLabel) : ((∃ text steady, l = .type text steady) ∨ (∃ button, l = .click button) ∨
    l = .refresh) ∨ (∃ now steady, l = .ui now steady) ∨ l.ofSession = true := by
  cases l with
  | type text steady => exact .inl (.inl ⟨text, steady, rfl⟩)
  | click button => exact .inl (.inr (.inl ⟨button, rfl⟩))
  | refresh => exact .inl (.inr (.inr rfl))
  | ui now steady => exact .inr (.inl ⟨now, steady, rfl⟩)
  | receive now payload | notify | queueReply | finish | take | sent | sendFails | quit => exact .inr (.inr rfl)

theorem inv_step (h : s.Inv printQrcode) (hs : s.step env lib printQrcode l = some s') : s'.Inv printQrcode := by
  rcases label_cases l with hl | ⟨now, steady, rfl⟩ | hl
  · exact (inv_user h hs hl).1
  · exact inv_uiStep h hs
  · exact (served_step h hs hl).inv h

/-- What a step of a handler leaves as it was: a session that was stopped, and, elsewhere than at these steps, the
    text. -/
structure Passes (s s' : NoteEditor) : Prop where
  running : s'.session.stopped = false → s.session.stopped = false
  text : s.pc.replaces = false → s'.localDirty = s.localDirty ∧ s'.editorText = s.editorText

theorem uiStep_passes (hs : s.uiStep env now steady = some s') : Passes s s' := by
  -- the queue is the session's: whether it takes the frame is all that comes back
  have hqueue {frame : NoteFrame} {t : NoteEditor} {taken : Bool} (ht : s.queue env frame = (t, taken)) :
      (t.session.stopped = false → s.session.stopped = false) ∧
        t.localDirty = s.localDirty ∧ t.editorText = s.editorText := by
    have hfst : (s.queue env frame).1 = t := by rw [ht]
    exact hfst ▸ ⟨queueFrame_running, rfl, rfl⟩
  unfold uiStep at hs
  cases hat : s.pc with
  | idle =>
    rw [hat] at hs
    cases hs
  | applyRemote =>
    simp only [hat] at hs
    split_ifs at hs <;>
      · obtain rfl := Option.some.inj hs
        exact ⟨id, fun _ => ⟨rfl, rfl⟩⟩
  | applyFrames frames =>
    cases frames with
    | nil =>
      simp only [hat] at hs
      obtain rfl := Option.some.inj hs
      exact ⟨id, fun _ => ⟨rfl, rfl⟩⟩
    | cons frame frames =>
      simp only [hat] at hs
      split_ifs at hs <;>
        · obtain rfl := Option.some.inj hs
          exact ⟨id, fun _ => ⟨rfl, rfl⟩⟩
  | loadFrame frames | load =>
    simp only [hat] at hs
    obtain rfl := Option.some.inj hs
    exact ⟨id, by rw [hat]; nofun⟩
  | send sender =>
    simp only [hat] at hs
    split at hs
    · split_ifs at hs
      · obtain rfl := Option.some.inj hs
        exact ⟨id, fun _ => ⟨rfl, rfl⟩⟩
      · obtain rfl := Option.some.inj hs
        exact ⟨id, fun _ => ⟨rfl, rfl⟩⟩
      · split at hs
        · obtain rfl := Option.some.inj hs
          exact ⟨id, fun _ => ⟨rfl, rfl⟩⟩
        · cases hs
    · obtain rfl := Option.some.inj hs
      exact ⟨id, fun _ => ⟨rfl, rfl⟩⟩
  | select padId =>
    simp only [hat] at hs
    split at hs <;>
      · obtain rfl := Option.some.inj hs
        exact ⟨id, fun _ => ⟨rfl, rfl⟩⟩
  | create | clear =>
    simp only [hat] at hs
    split at hs
    · obtain rfl := Option.some.inj hs
      exact ⟨id, fun _ => ⟨rfl, rfl⟩⟩
    · cases hs
  | queueEdit frame sender =>
    simp only [hat] at hs
    split at hs
    next t ht =>
      obtain rfl := Option.some.inj hs
      have hkept := hqueue ht
      exact ⟨hkept.1, by rw [hat]; nofun⟩
    next t ht =>
      obtain rfl := Option.some.inj hs
      have hkept := hqueue ht
      exact ⟨hkept.1, by rw [hat]; nofun⟩
  | queueCreate frame =>
    simp only [hat] at hs
    split at hs
    next t ht =>
      obtain rfl := Option.some.inj hs
      have hkept := hqueue ht
      exact ⟨hkept.1, fun _ => hkept.2⟩
    next t ht =>
      obtain rfl := Option.some.inj hs
      have hkept := hqueue ht
      exact ⟨hkept.1, fun _ => hkept.2⟩
  | queueClear frame =>
    simp only [hat] at hs
    obtain rfl := Option.some.inj hs
    exact ⟨queueFrame_running, by rw [hat]; nofun⟩

/-- There is a revision after that of the active pad's document (see `LocalEdit`). -/
def HasNext (s : NoteEditor) (_ : EditorLabel) : Prop := s.workspace.activeDocument.revision ≠ u64Max

instance (s : NoteEditor) (l : EditorLabel) : Decidable (HasNext s l) := inferInstanceAs (Decidable (_ ≠ _))

theorem running_step (h : s.Inv printQrcode) (hr : s.session.stopped = false → s.Running) (hnext : HasNext s l)
    (hs : s.step env lib printQrcode l = some s') (hstays : s'.session.stopped = false) : s'.Running := by
  rcases label_cases l with hl | ⟨now, steady, rfl⟩ | hl
  · obtain ⟨-, hkeeps, hsession⟩ := inv_user h hs hl
    exact hkeeps (hr (hsession ▸ hstays))
  · exact running_uiStep h (hr ((uiStep_passes hs).running hstays)) hnext hs hstays
  · have hserved := served_step h hs hl
    exact hserved.keeps_running (hr (hserved.running hstays))

theorem inv_start (writerId : String) : (start writerId).Inv printQrcode :=
  ⟨NoteWorkspace.sound_new writerId, by simp [start], trivial, nofun, List.nodup_nil, fun hne => absurd rfl hne⟩

theorem running_start (writerId : String) : (start writerId).Running := by
  refine ⟨.inr (.inl ?_), nofun, nofun, nofun⟩
  show "" = (NoteWorkspace.new writerId).activeDocument.text
  rw [NoteWorkspace.activeDocument, NoteWorkspace.new, NoteWorkspace.put, AList.lookup_insert]
  rfl

theorem reach_inv (h : Lts.ReachUnder (step env lib printQrcode) HasNext (start writerId) s) : s.Inv printQrcode :=
  h.invariant (inv_start writerId) fun hi _ hs => inv_step hi hs

theorem reach_running (h : Lts.ReachUnder (step env lib printQrcode) HasNext (start writerId) s)
    (hstopped : s.session.stopped = false) : s.Running :=
  h.invariant_with (I := fun s => s.session.stopped = false → s.Running) reach_inv (fun _ => running_start writerId)
    (fun hi _ hr hnext hs => running_step hi hr hnext hs) hstopped

/-! ## A text is not lost

From the moment it is typed: it stays marked until it is handed over, or is too long to be, or the user
changes it again. -/

/-- A handler that replaces a text that is not in the workspace yet has handed it over, or it is too long. -/
theorem safe_of_replaces (h : s.Inv printQrcode) (hdirty : s.localDirty = true) (hpc : s.pc.replaces = true) :
    s.Safe := by
  have hguarded := h.guarded
  unfold Guarded at hguarded
  cases hat : s.pc with
  | loadFrame frames =>
    rw [hat] at hguarded
    rw [show s.localDirty = false from hguarded] at hdirty
    cases hdirty
  | load =>
    rw [hat] at hguarded
    exact hguarded hdirty
  | queueEdit frame sender | queueClear frame =>
    rw [hat] at hguarded
    exact .inr hguarded
  | idle | applyRemote | applyFrames frames | send sender | select padId | create | queueCreate frame | clear =>
    rw [hat] at hpc
    cases hpc

/-- **A text that the user has typed stays until it is safe**, or the user changes or clears it. -/
theorem draft_step (h : s.Inv printQrcode) (hdirty : s.localDirty = true)
    (hs : s.step env lib printQrcode l = some s') :
    (s'.localDirty = true ∧ s'.editorText = s.editorText) ∨ (∃ text steady, l = .type text steady) ∨
      l = .click .clear ∨ s.Safe := by
  rcases label_cases l with (⟨text, steady, rfl⟩ | ⟨button, rfl⟩ | rfl) | ⟨now, steady, rfl⟩ | hl
  · exact .inr (.inl ⟨text, steady, rfl⟩)
  · simp only [step] at hs
    split_ifs at hs
    obtain rfl := Option.some.inj hs
    cases button with
    | clear => exact .inr (.inr (.inl rfl))
    | prev | next =>
      left
      simp only [click, turn, switchActivePad]
      split_ifs
      · exact ⟨hdirty, rfl⟩
      · split
        · split_ifs
          · exact ⟨hdirty, rfl⟩
          · exact ⟨hdirty, rfl⟩
        · exact ⟨hdirty, rfl⟩
    | new => exact .inl ⟨hdirty, rfl⟩
    | qr =>
      left
      simp only [click]
      split_ifs
      · exact ⟨hdirty, rfl⟩
      · exact ⟨hdirty, rfl⟩
      · split
        · exact ⟨hdirty, rfl⟩
        · exact ⟨hdirty, rfl⟩
  · simp only [step] at hs
    split_ifs at hs
    obtain rfl := Option.some.inj hs
    exact .inl ⟨hdirty, rfl⟩
  · cases hpc : s.pc.replaces with
    | false =>
      obtain ⟨hmark, htext⟩ := (uiStep_passes hs).text hpc
      exact .inl ⟨hmark.trans hdirty, htext⟩
    | true => exact .inr (.inr (.inr (safe_of_replaces h hdirty hpc)))
  · have hui := (served_step h hs hl).ui
    exact .inl ⟨hui.localDirty.trans hdirty, hui.editorText⟩

/-! ## A handler ends

Run on its own, a handler ends, and what it has done by then can be said in one sentence; this is used for the
refresh. -/

theorem uiStep_isSome (h : s.Inv printQrcode) (hpc : s.pc ≠ .idle) (now steady : Nat) :
    (s.uiStep env now steady).isSome = true := by
  unfold uiStep
  cases hat : s.pc with
  | idle => exact absurd hat hpc
  | applyRemote =>
    simp only
    split_ifs <;> rfl
  | applyFrames frames =>
    cases frames with
    | nil => rfl
    | cons frame frames =>
      simp only
      split_ifs <;> rfl
  | loadFrame frames | load | queueClear frame => rfl
  | send sender =>
    simp only
    split
    · split_ifs with hlong hwait
      · rfl
      · rfl
      · obtain ⟨workspace, frame, hedit, -⟩ := h.sound.update_active now (not_lt.mp hlong)
        rw [hedit]
        rfl
    · rfl
  | queueEdit frame sender | queueCreate frame | select padId =>
    simp only
    split <;> rfl
  | create =>
    obtain ⟨workspace, frame, hedit⟩ := s.workspace.edit_createPad_ok now
    simp only [hedit]
    rfl
  | clear =>
    obtain ⟨workspace, frame, hedit, -⟩ := h.sound.clear_active now
    simp only [hedit]
    rfl

/-- What the handler of a refresh has done by its end, with these frames ahead and nobody else at work. -/
structure Refreshed (s s' : NoteEditor) (frames : List NoteFrame) : Prop where
  pc : s'.pc = .idle
  pendingRemote : s'.pendingRemote = s.pendingRemote
  session : s'.session = s.session
  reader : s'.reader = s.reader
  text : s'.editorText = s.workspace.activeDocument.text ∨
    (s'.editorText = s.editorText ∧ s.workspace.activePad ∉ frames.map (·.padId))

/-- The loop of `apply_remote_updates`, and what is behind it. -/
theorem run_applyFrames (env : NoteEnv) (lib : Json.Library) (printQrcode : String → Option String) (now steady : Nat)
    (frames : List NoteFrame) : ∀ s : NoteEditor, s.pc = .applyFrames frames → s.localDirty = false →
    ∃ k s', Lts.run (step env lib printQrcode) s (.replicate k (.ui now steady)) = some s' ∧
      Refreshed s s' frames := by
  induction frames with
  | nil =>
    intro s hpc hclean
    refine ⟨2, { s with pc := .idle }, ?_, rfl, rfl, rfl, rfl, .inr ⟨rfl, List.not_mem_nil⟩⟩
    simp [Lts.run, step, uiStep, hpc, hclean, Sender.next]
  | cons frame frames ih =>
    intro s hpc hclean
    by_cases hother : s.workspace.activePad = frame.padId
    · obtain ⟨k, s', hrun, hdone⟩ := ih { s.loadActiveDocument with pc := .applyFrames frames } rfl rfl
      refine ⟨k + 2, s', ?_, hdone.pc, hdone.pendingRemote, hdone.session, hdone.reader, .inl ?_⟩
      · have hat : s.uiStep env now steady = some { s with pc := .loadFrame frames } := by simp [uiStep, hpc, hother]
        rw [List.replicate_succ, List.replicate_succ, Lts.run_cons, step, hat]
        exact hrun
      · rcases hdone.text with htext | htext
        · exact htext
        · exact htext.1
    · obtain ⟨k, s', hrun, hdone⟩ := ih { s with pc := .applyFrames frames } rfl hclean
      refine ⟨k + 1, s', ?_, hdone.pc, hdone.pendingRemote, hdone.session, hdone.reader, hdone.text.imp_right ?_⟩
      · have hat : s.uiStep env now steady = some { s with pc := .applyFrames frames } := by simp [uiStep, hpc, hother]
        rw [List.replicate_succ, Lts.run_cons, step, hat]
        exact hrun
      · intro hkept
        refine ⟨hkept.1, fun hmem => ?_⟩
        rcases List.mem_cons.mp hmem with heq | hmem
        · exact hother heq
        · exact hkept.2 hmem

theorem coming_idle (hpc : s.pc = .idle) : s.coming = s.reader.notice ++ s.pendingRemote := by
  rw [coming, hpc]
  exact congrArg _ (List.append_nil _)

/-- **A refresh brings the editor up to date**, but for an update the session has still to report. -/
theorem run_refresh (env : NoteEnv) (lib : Json.Library) (printQrcode : String → Option String) (hpc : s.pc = .idle)
    (hclean : s.localDirty = false) (hshown : s.Shown) (now steady : Nat) : ∃ k s',
    Lts.run (step env lib printQrcode) s (.refresh :: .replicate k (.ui now steady)) = some s' ∧ s'.pc = .idle ∧
      s'.pendingRemote = [] ∧ s'.session = s.session ∧
      (s'.editorText = s.workspace.activeDocument.text ∨
        ∃ frame, s.reader = .notifying frame ∧ frame.padId = s.workspace.activePad) := by
  obtain ⟨k, s', hrun, hdone⟩ := run_applyFrames env lib printQrcode now steady s.pendingRemote
    { s with pendingRemote := [], pc := .applyFrames s.pendingRemote } rfl hclean
  refine ⟨k + 1, s', ?_, hdone.pc, hdone.pendingRemote, hdone.session, ?_⟩
  · have hat : step env lib printQrcode s .refresh = some { s with pc := .applyRemote } := by simp [step, hpc]
    have hnext : ({ s with pc := .applyRemote } : NoteEditor).uiStep env now steady =
        some { s with pendingRemote := [], pc := .applyFrames s.pendingRemote } := by
      simp [uiStep, hclean]
    rw [List.replicate_succ, Lts.run_cons, hat, Option.bind_some, Lts.run_cons, step, hnext]
    exact hrun
  · rcases hdone.text with htext | ⟨htext, hnot⟩
    · exact .inl htext
    · rcases hshown with hshown | hcomes
      · exact .inl (htext.trans hshown)
      · right
        rw [coming_idle hpc, List.map_append] at hcomes
        have hnotice := (List.mem_append.mp hcomes).resolve_right hnot
        cases hreader : s.reader with
        | notifying frame =>
          rw [hreader] at hnotice
          exact ⟨frame, rfl, (List.mem_singleton.mp hnotice).symm⟩
        | reading | replying | ended =>
          rw [hreader] at hnotice
          cases hnotice

/-! ## The editor -/

/-- **The note editor**, in every order of the two threads, the user and any peer, as long as the active pad has a next
    revision. No handler throws, and at most one update of a pad is pending. A QR code on the screen is that of the
    text. A text that is not in the workspace yet stays until the user changes or clears it, or it has been handed to
    the workspace as an edit (while the session runs, of the pad it was written in), or it is too long for that. While
    the session runs and nothing is to be handed over, the editor has the text of the active pad, or an update of the
    pad waits to be looked at; a refresh then brings it up to date, unless the reader is about to report another update
    of the pad. -/
theorem note_editor (h : Lts.ReachUnder (step env lib printQrcode) HasNext (start writerId) s) :
    (s.pc ≠ .idle → ∀ now steady, (s.step env lib printQrcode (.ui now steady)).isSome = true) ∧
    (s.pendingRemote.map (·.padId)).Nodup ∧
    (s.noteQr ≠ "" → printQrcode s.editorText = some s.noteQr ∧ s.editorText.utf8ByteSize ≤ kNoteQrMaxBytes) ∧
    (∀ l s', s.step env lib printQrcode l = some s' → s.localDirty = true →
      (s'.localDirty = true ∧ s'.editorText = s.editorText) ∨ (∃ text steady, l = .type text steady) ∨
      l = .click .clear ∨ kNoteMaxBytes < s.editorText.utf8ByteSize ∨
      ∃ frame, s.handed = some frame ∧ frame ∈ s.session.edited ∧ frame.text = s.editorText ∧
        (s.session.stopped = false → frame.padId = s.draftPad)) ∧
    (s.session.stopped = false → s.pc = .idle → s.localDirty = false →
      (s.editorText = s.workspace.activeDocument.text ∨
        s.workspace.activePad ∈ (s.reader.notice ++ s.pendingRemote).map (·.padId)) ∧
      ∀ now steady, ∃ k s',
        Lts.run (step env lib printQrcode) s (.refresh :: .replicate k (.ui now steady)) = some s' ∧
        s'.pc = .idle ∧ s'.pendingRemote = [] ∧ s'.session = s.session ∧
        (s'.editorText = s.workspace.activeDocument.text ∨
          ∃ frame, s.reader = .notifying frame ∧ frame.padId = s.workspace.activePad)) := by
  have hinv := reach_inv h
  refine ⟨fun hpc now steady => uiStep_isSome hinv hpc now steady, hinv.pads, fun hne => ?_, ?_, ?_⟩
  · obtain ⟨hprint, -, hsize⟩ := hinv.qr hne
    exact ⟨hprint, hsize⟩
  · intro l s' hs hdirty
    rcases draft_step hinv hdirty hs with hkept | htyped | hcleared | hlong | hhanded
    · exact .inl hkept
    · exact .inr (.inl htyped)
    · exact .inr (.inr (.inl hcleared))
    · exact .inr (.inr (.inr (.inl hlong)))
    · obtain ⟨frame, hframe⟩ := Option.ne_none_iff_exists'.mp hhanded
      obtain ⟨htext, hmem⟩ := hinv.handed frame hframe
      have hpad (hruns : s.session.stopped = false) : frame.padId = s.draftPad :=
        (reach_running h hruns).draft frame hframe
      exact .inr (.inr (.inr (.inr ⟨frame, hframe, hmem, htext, hpad⟩)))
  · intro hruns hpc hclean
    have haligned := (reach_running h hruns).aligned
    unfold Aligned at haligned
    rw [hpc] at haligned
    have hshown : s.Shown := haligned.resolve_left (by rw [hclean]; decide)
    refine ⟨?_, run_refresh env lib printQrcode hpc hclean hshown⟩
    exact coming_idle hpc ▸ hshown

def sampleNoteEnv : NoteEnv where
  queuedFrameBytes frame := 160 + frame.text.utf8ByteSize
  threads := 1
  threads_lt := by decide

/-- Typed, looked at too early, and handed to the workspace; then sent, and shown as it stands there. -/
theorem note_editor_sample : ∃ s s' : NoteEditor,
    s.step sampleNoteEnv Json.compact (fun _ => some "") (.ui 2 300) = some s' ∧
    (s.localDirty = true ∧ s'.localDirty = false ∧
      ∃ frame ∈ s.session.edited, frame.text = "hi" ∧ frame.padId = s.draftPad) ∧
    s'.session.outgoing.map (·.text) = ["hi"] ∧
    (s'.editorText = s'.workspace.activeDocument.text ∨
      s'.workspace.activePad ∈ (s'.reader.notice ++ s'.pendingRemote).map (·.padId)) := by
  obtain ⟨s, hreach, hs⟩ := Lts.ReachUnder.exists_of_run (step sampleNoteEnv Json.compact fun _ => some "") HasNext
    (start "w") [.type "hi" 0, .refresh, .ui 1 100, .ui 1 100, .refresh, .ui 2 300, .ui 2 300]
    (fun s => s.localDirty = true ∧ s.editorText = "hi" ∧ s.session.stopped = false ∧ HasNext s (.ui 2 300) ∧
      ((s.step sampleNoteEnv Json.compact (fun _ => some "") (.ui 2 300)).any fun s' =>
        s'.session.stopped = false ∧ s'.pc = .idle ∧ s'.localDirty = false ∧
          s'.session.outgoing.map (·.text) = ["hi"]) = true) (by decide) (by decide)
  obtain ⟨hdirty, htext, hruns, hnext, hstep⟩ := of_decide_eq_true hs
  obtain ⟨s', hstep, hs'⟩ := (Option.any_eq_true ..).mp hstep
  obtain ⟨hruns', hpc, hclean, hqueue⟩ := of_decide_eq_true hs'
  have hsafe := (note_editor hreach).2.2.2.1 (.ui 2 300) s' hstep hdirty
  have hshown := (note_editor (hreach.tail hnext hstep)).2.2.2.2 hruns' hpc hclean
  refine ⟨s, s', hstep, ⟨hdirty, hclean, ?_⟩, hqueue, hshown.1⟩
  rcases hsafe with ⟨hkept, -⟩ | ⟨_, _, htyped⟩ | hcleared | hlong | ⟨frame, -, hmem, hframe, hpad⟩
  · rw [hclean] at hkept
    cases hkept
  · cases htyped
  · cases hcleared
  · rw [htext] at hlong
    exact absurd hlong (by decide)
  · exact ⟨frame, hmem, hframe.trans htext, hpad hruns⟩

end NoteEditor

end Kiko.Note
