import Kiko.Lib.Transition
import Kiko.Note.Codec
import Kiko.Note.Workspace

/-!
# What a local edit does, whatever the peer has sent

Here the peer is anybody: its frames are all that `decode_note_frame` accepts, with any title,
writer and revision. What a workspace keeps of itself even so is `Sound`: a document stands
under its own pad, its revision has 64 bits, and the active pad has a document.

The next revision is the document's plus one, in 64 bits. A peer that sends the greatest revision
there is leaves no greater one: the edit then has revision 0, loses to the document it was made
on, and is gone (`local_edit_iff`, `local_edit_lost`).
-/

set_option autoImplicit false

namespace Kiko.Note

/-- What may happen to a workspace. -/
inductive WorkspaceOp
  | edit (now : Nat) (op : EditOp)
  | selectPad (padId : String)
  /-- a payload comes in from the peer, as `NoteSession::run` deals with it -/
  | receive (payload : Bytes)

namespace NoteWorkspace

/-- `active_document`. -/
def activeDocument (ws : NoteWorkspace) : NoteDocument :=
  (ws.documents.lookup ws.activePad).getD {}

/-- An operation that throws leaves the workspace as it is. -/
def step (lib : Json.Library) (ws : NoteWorkspace) : WorkspaceOp → Option NoteWorkspace
  | .edit now op =>
    match ws.edit now op with
    | .ok (ws', _) => some ws'
    | .error _ => some ws
  | .selectPad padId => some (ws.selectPad padId).1
  | .receive payload =>
    match decodeNoteFrame lib payload with
    | .ok frame =>
      if frame.type = .ack then some (ws.acknowledge frame) else some (ws.applyRemote frame).1
    | .error _ => some ws

/-- Every document stands under its own pad with a revision of 64 bits, and the active pad is
    one of them. -/
structure Sound (ws : NoteWorkspace) : Prop where
  padId : ∀ pad document, ws.documents.lookup pad = some document → document.padId = pad
  revision : ∀ pad document, ws.documents.lookup pad = some document → document.revision ≤ u64Max
  named : ∀ pad ∈ ws.documents, pad ≠ ""
  active : ws.activePad ∈ ws.documents

variable {lib : Json.Library} {ws ws' : NoteWorkspace} {document d : NoteDocument} {frame : NoteFrame}
  {pad title text : String} {now : Nat} {op : EditOp}

theorem normalizedPadId_ne (pad : String) : normalizedPadId pad ≠ "" := by
  unfold normalizedPadId
  split
  · decide
  · assumption

theorem normalizedPadId_of_ne (h : pad ≠ "") : normalizedPadId pad = pad := if_neg h

/-- The document `ensure_pad_locked` answers is the pad's own. -/
theorem Sound.ensurePad (h : ws.Sound) (pad title : String) :
    (ws.ensurePad pad title).padId = normalizedPadId pad ∧
      (ws.ensurePad pad title).revision ≤ u64Max := by
  rw [ensurePad_eq rfl]
  cases hl : ws.documents.lookup (normalizedPadId pad) with
  | none => exact ⟨rfl, Nat.zero_le _⟩
  | some document =>
    have hpad := h.padId _ _ hl
    have hrevision := h.revision _ _ hl
    dsimp only
    split
    · exact ⟨hpad, hrevision⟩
    · exact ⟨hpad, hrevision⟩

/-- The document of the active pad is there. -/
theorem Sound.ensurePad_active (h : ws.Sound) :
    ws.documents.lookup ws.activePad = some ws.activeDocument ∧
      ws.ensurePad ws.activePad = ws.activeDocument := by
  obtain ⟨document, hl⟩ := Option.isSome_iff_exists.mp (AList.lookup_isSome.mpr h.active)
  have hactive : ws.activeDocument = document := by rw [activeDocument, hl]; rfl
  refine ⟨hactive ▸ hl, ?_⟩
  rw [ensurePad_eq (normalizedPadId_of_ne (h.named _ h.active)), hl, hactive]
  rfl

/-- A sound document put in the place of a pad's. -/
theorem Sound.put (h : ws.Sound) (hpad : document.padId = pad) (hne : pad ≠ "")
    (hrevision : document.revision ≤ u64Max)
    (hdocs : ws'.documents = ws.documents.insert pad document)
    (hactive : ws'.activePad = ws.activePad ∨ ws'.activePad = pad) : ws'.Sound := by
  have hcases {p : String} {d : NoteDocument} (hl : ws'.documents.lookup p = some d) :
      (p = pad ∧ d = document) ∨ ws.documents.lookup p = some d := by
    rw [hdocs] at hl
    by_cases hp : p = pad
    · subst hp
      rw [AList.lookup_insert] at hl
      exact .inl ⟨rfl, (Option.some.inj hl).symm⟩
    · rw [AList.lookup_insert_ne hp] at hl
      exact .inr hl
  refine ⟨fun p d hl => ?_, fun p d hl => ?_, fun p hp => ?_, ?_⟩
  · rcases hcases hl with ⟨rfl, rfl⟩ | hl
    · exact hpad
    · exact h.padId p d hl
  · rcases hcases hl with ⟨rfl, rfl⟩ | hl
    · exact hrevision
    · exact h.revision p d hl
  · rw [hdocs, AList.mem_insert] at hp
    rcases hp with rfl | hp
    · exact hne
    · exact h.named p hp
  · rw [hdocs, AList.mem_insert]
    rcases hactive with heq | heq
    · exact .inr (heq ▸ h.active)
    · exact .inl heq

/-- A frame with a 64-bit revision leaves a document with one, under its own pad. -/
theorem applyNoteUpdate_sound (hd : document.revision ≤ u64Max) (hf : frame.revision ≤ u64Max)
    (hpad : document.padId = normalizedPadId frame.padId) :
    (applyNoteUpdate document frame).1.revision ≤ u64Max ∧
      (applyNoteUpdate document frame).1.padId = document.padId := by
  unfold applyNoteUpdate
  split
  · exact ⟨hd, rfl⟩
  split
  · exact ⟨hd, rfl⟩
  split
  · exact ⟨hd, rfl⟩
  exact ⟨hf, hpad.symm⟩

theorem nextRevision_le (document : NoteDocument) : nextRevision document ≤ u64Max := by
  have : nextRevision document < 2 ^ 64 := Nat.mod_lt _ (by decide)
  unfold u64Max
  omega

/-- What the edits have in common: the document of a pad, and a frame for that pad. -/
theorem Sound.applyLocal (h : ws.Sound) {base : NoteWorkspace} (hpad : normalizedPadId pad = pad)
    (hframe : frame.padId = normalizedPadId (ws.ensurePad pad title).padId)
    (hrevision : frame.revision ≤ u64Max) (hdocs : base.documents = ws.documents)
    (hactive : base.activePad = ws.activePad ∨ base.activePad = pad) :
    (base.applyLocal (ws.ensurePad pad title) frame).1.Sound := by
  obtain ⟨hid, hrev⟩ := h.ensurePad pad title
  rw [hpad] at hid
  rw [hid, hpad] at hframe
  obtain ⟨hrevision', hpadId⟩ := applyNoteUpdate_sound hrev hrevision (by rw [hid, hframe, hpad])
  refine h.put (hpadId.trans hid) (hpad ▸ normalizedPadId_ne pad) hrevision' ?_ hactive
  rw [NoteWorkspace.applyLocal, NoteWorkspace.put, hdocs, hid]

theorem makeNoteUpdate_frame {padId writerId : String} {revision : Nat}
    (h : makeNoteUpdate now padId revision text title writerId = .ok frame) :
    frame = { type := .update, revision := revision, timestampMs := now, writerId := writerId,
              padId := normalizedPadId padId, title := title, text := text } := by
  unfold makeNoteUpdate at h
  split at h
  · cases h
  · exact (Except.ok.inj h).symm

/-- What the active pad is edited by. -/
def activeFrame (ws : NoteWorkspace) (now : Nat) (type : NoteFrameType) (text : String) : NoteFrame :=
  { type := type
    revision := nextRevision ws.activeDocument
    timestampMs := now
    writerId := ws.writerId
    padId := normalizedPadId ws.activeDocument.padId
    title := ws.activeDocument.title
    text := text }

theorem Sound.updateActive_eq (h : ws.Sound) (ht : text.utf8ByteSize ≤ kNoteMaxBytes) :
    ws.updateActive now text = .ok (ws.applyLocal ws.activeDocument (ws.activeFrame now .update text)) := by
  rw [updateActive, h.ensurePad_active.2, makeNoteUpdate, if_neg (not_lt.mpr ht)]
  rfl

theorem Sound.clearActive_eq (h : ws.Sound) :
    ws.clearActive now = .ok (ws.applyLocal ws.activeDocument (ws.activeFrame now .clear "")) := by
  rw [clearActive, h.ensurePad_active.2]
  rfl

theorem updateActive_long (ht : kNoteMaxBytes < text.utf8ByteSize) :
    ∃ e, ws.updateActive now text = .error e :=
  ⟨_, by rw [updateActive, makeNoteUpdate, if_pos ht]; rfl⟩

/-- A local edit leaves a sound workspace. -/
theorem Sound.edit {frame : NoteFrame} (h : ws.Sound) (he : ws.edit now op = .ok (ws', frame)) :
    ws'.Sound := by
  have hactive : normalizedPadId ws.activePad = ws.activePad :=
    normalizedPadId_of_ne (h.named _ h.active)
  have hlocal (type : NoteFrameType) (text : String) :
      (ws.applyLocal ws.activeDocument (ws.activeFrame now type text)).1.Sound := by
    rw [← h.ensurePad_active.2]
    refine h.applyLocal hactive ?_ (nextRevision_le _) rfl (.inl rfl)
    rw [h.ensurePad_active.2]
    rfl
  cases op with
  | updateActive text =>
    by_cases ht : text.utf8ByteSize ≤ kNoteMaxBytes
    · rw [NoteWorkspace.edit, h.updateActive_eq ht] at he
      have hws : _ = ws' := congrArg Prod.fst (Except.ok.inj he)
      exact hws ▸ hlocal .update text
    · have hlong : ∃ e, ws.updateActive now text = .error e := updateActive_long (not_le.mp ht)
      obtain ⟨e, hthrow⟩ := hlong
      rw [NoteWorkspace.edit, hthrow] at he
      cases he
  | clearActive =>
    rw [NoteWorkspace.edit, h.clearActive_eq] at he
    have hws : _ = ws' := congrArg Prod.fst (Except.ok.inj he)
    exact hws ▸ hlocal .clear ""
  | createPad =>
    rw [NoteWorkspace.edit, createPad] at he
    obtain ⟨f, hf, he⟩ := exists_of_bind_ok he
    have hname (n : Nat) : normalizedPadId (padName n) = padName n := by
      refine normalizedPadId_of_ne fun heq => ?_
      have := congrArg String.toList heq
      simp [padName] at this
    have hframe := makeNoteUpdate_frame hf
    have hws : _ = ws' := congrArg Prod.fst (Except.ok.inj he)
    rw [← hws]
    refine h.applyLocal (hname _) ?_ ?_ rfl (.inr rfl)
    · rw [hframe]
    · rw [hframe]
      exact nextRevision_le _

/-- **Every operation keeps a workspace sound.** -/
theorem Sound.step {l : WorkspaceOp} (h : ws.Sound) (hs : step lib ws l = some ws') : ws'.Sound := by
  cases l with
  | edit now op =>
    simp only [NoteWorkspace.step] at hs
    split at hs
    · rename_i he
      exact Option.some.inj hs ▸ h.edit he
    · exact Option.some.inj hs ▸ h
  | selectPad padId =>
    obtain rfl := Option.some.inj hs
    unfold selectPad
    dsimp only
    split
    case isTrue hmem => exact ⟨h.padId, h.revision, h.named, hmem⟩
    case isFalse => exact h
  | receive payload =>
    simp only [NoteWorkspace.step] at hs
    split at hs
    swap
    · exact Option.some.inj hs ▸ h
    rename_i frame hdecode
    obtain ⟨hfits, -, hpad⟩ := decodeNoteFrame_ok hdecode
    split at hs
    · rename_i hack
      obtain rfl := Option.some.inj hs
      rw [acknowledge, if_pos hack]
      exact ⟨h.padId, h.revision, h.named, h.active⟩
    · obtain rfl := Option.some.inj hs
      unfold applyRemote
      split
      swap
      · exact h
      obtain ⟨hid, hrev⟩ := h.ensurePad frame.padId frame.title
      obtain ⟨hrevision, hpadId⟩ := applyNoteUpdate_sound hrev hfits.revision hid
      exact h.put (hpadId.trans hid) (normalizedPadId_ne _) hrevision rfl (.inl rfl)

theorem sound_new (writerId : String) : (new writerId).Sound := by
  have hlookup {pad : String} {document : NoteDocument}
      (hl : (new writerId).documents.lookup pad = some document) :
      pad = "main" ∧ document = { padId := "main", title := "Note 1" } := by
    by_cases hp : pad = "main"
    · subst hp
      rw [new, put, AList.lookup_insert] at hl
      exact ⟨rfl, (Option.some.inj hl).symm⟩
    · rw [new, put, AList.lookup_insert_ne hp] at hl
      cases hl
  refine ⟨fun pad document hl => ?_, fun pad document hl => ?_, fun pad hpad => ?_, ?_⟩
  · obtain ⟨rfl, rfl⟩ := hlookup hl
    rfl
  · obtain ⟨rfl, rfl⟩ := hlookup hl
    exact Nat.zero_le _
  · obtain ⟨document, hl⟩ := Option.isSome_iff_exists.mp (AList.lookup_isSome.mpr hpad)
    obtain ⟨rfl, -⟩ := hlookup hl
    decide
  · rw [new, put, AList.mem_insert]
    exact .inl rfl

theorem sound_of_reach {writerId : String} (h : Lts.Reach (NoteWorkspace.step lib) (new writerId) ws) :
    ws.Sound :=
  h.invariant (sound_new writerId) fun hi _ hs => hi.step hs

/-! ## Whether an edit takes effect

The frame of an edit has the next revision, and so it wins, unless there is no next one. The
exact condition is one on the revision of the active document alone. -/

/-- The edit has given the active pad the text, and its frame wins over the document it was made
    on, wherever that is held. -/
def TakesEffect (ws : NoteWorkspace) (text : String) (result : Except KikoError (NoteWorkspace × NoteFrame)) :
    Prop :=
  ∃ ws' frame, result = .ok (ws', frame) ∧ ws'.activePad = ws.activePad ∧
    ws'.activeDocument.text = text ∧ ws.activeDocument.key < frame.key ∧
    ∀ d : NoteDocument, d.key = ws.activeDocument.key →
      (applyNoteUpdate d frame).2 = true ∧ (applyNoteUpdate d frame).1.text = text

/-- A frame that wins is applied. -/
theorem applyNoteUpdate_of_lt (he : isNoteEdit frame = true) (h : d.key < frame.key) :
    applyNoteUpdate d frame =
      ({ revision := frame.revision, timestampMs := frame.timestampMs, writerId := frame.writerId,
         padId := normalizedPadId frame.padId,
         title := if frame.title = "" then d.title else frame.title,
         text := frame.incomingText }, true) := by
  have hnot := mt NoteFrame.key_le_iff.mpr (not_le.mpr h)
  push Not at hnot
  rw [applyNoteUpdate, if_neg (by simp [he]), if_neg (not_lt.mpr hnot.1), if_neg]
  rintro ⟨heq, hle⟩
  exact absurd hle (not_le.mpr (hnot.2 heq))

/-- The edit wins when its revision is not the one after the greatest. -/
theorem Sound.key_lt_activeFrame_iff (h : ws.Sound) {type : NoteFrameType} :
    ws.activeDocument.key < (ws.activeFrame now type text).key ↔
      ws.activeDocument.revision ≠ u64Max := by
  have hle := h.revision _ _ h.ensurePad_active.1
  constructor
  · intro hlt heq
    -- the revision has wrapped to 0
    have hzero : (ws.activeFrame now type text).revision = 0 := by
      show (ws.activeDocument.revision + 1) % 2 ^ 64 = 0
      rw [heq]
      rfl
    rcases Prod.Lex.toLex_lt_toLex.mp hlt with hrevision | ⟨hrevision, -⟩
    · exact absurd hrevision (by rw [hzero]; exact Nat.not_lt_zero _)
    · exact absurd (heq.symm.trans (hrevision.trans hzero)) (by decide)
  · intro hne
    have hnext : (ws.activeFrame now type text).revision = ws.activeDocument.revision + 1 := by
      refine Nat.mod_eq_of_lt ?_
      unfold u64Max at hle hne
      omega
    exact Prod.Lex.toLex_lt_toLex.mpr (.inl (by show _ < (ws.activeFrame now type text).revision; omega))

theorem Sound.activeDocument_applyLocal (h : ws.Sound) (frame : NoteFrame) :
    (ws.applyLocal ws.activeDocument frame).1.activeDocument =
      (applyNoteUpdate ws.activeDocument frame).1 := by
  have hpad := h.padId _ _ h.ensurePad_active.1
  rw [NoteWorkspace.applyLocal, activeDocument]
  show Option.getD (AList.lookup ws.activePad (ws.documents.insert ws.activeDocument.padId _)) _ = _
  rw [hpad, AList.lookup_insert]
  rfl

/-- An edit of the active pad takes effect exactly when there is a next revision. -/
theorem Sound.takesEffect_iff (h : ws.Sound) {type : NoteFrameType} (htype : type = .update ∨ type = .clear)
    (htext : (ws.activeFrame now type text).incomingText = text) :
    ws.TakesEffect text (.ok (ws.applyLocal ws.activeDocument (ws.activeFrame now type text))) ↔
      ws.activeDocument.revision ≠ u64Max := by
  have he : isNoteEdit (ws.activeFrame now type text) = true := by
    rcases htype with rfl | rfl <;> rfl
  have hkey : ws.activeDocument.key < (ws.activeFrame now type text).key ↔
      ws.activeDocument.revision ≠ u64Max := h.key_lt_activeFrame_iff
  rw [← hkey]
  constructor
  · rintro ⟨ws', frame, heq, -, -, hlt, -⟩
    have hframe : ws.activeFrame now type text = frame := congrArg Prod.snd (Except.ok.inj heq)
    exact hframe ▸ hlt
  · intro hlt
    have happlied {d : NoteDocument} (hd : d.key = ws.activeDocument.key) :=
      applyNoteUpdate_of_lt he (hd ▸ hlt)
    refine ⟨(ws.applyLocal ws.activeDocument (ws.activeFrame now type text)).1,
      ws.activeFrame now type text, rfl, rfl, ?_, hlt, fun d hd => ?_⟩
    · rw [h.activeDocument_applyLocal, happlied rfl]
      exact htext
    · rw [happlied hd]
      exact ⟨rfl, htext⟩

/-- **A local edit takes effect unless the active pad is at the greatest revision.** In every
    state that local operations and the peer's frames lead to, a text within the limit becomes
    the active pad's and wins over the document it was made on, and so does a clear, exactly
    when there is a revision after the document's. -/
theorem local_edit_iff {writerId : String} (h : Lts.Reach (step lib) (new writerId) ws) :
    (∀ now text, text.utf8ByteSize ≤ kNoteMaxBytes →
      (ws.TakesEffect text (ws.updateActive now text) ↔ ws.activeDocument.revision ≠ u64Max)) ∧
    ∀ now, ws.TakesEffect "" (ws.clearActive now) ↔ ws.activeDocument.revision ≠ u64Max := by
  have hsound := sound_of_reach h
  constructor
  · intro now text ht
    rw [hsound.updateActive_eq ht]
    exact hsound.takesEffect_iff (.inl rfl) rfl
  · intro now
    rw [hsound.clearActive_eq]
    exact hsound.takesEffect_iff (.inr rfl) rfl

/-- An edit has been made here, the peer's has won over it, and another has been made on that one. -/
theorem local_edit_iff_remote : ∃ ws, Lts.Reach (step Json.compact) (new "w") ws ∧
    ws.activeDocument.revision = 8 ∧ ws.TakesEffect "x" (ws.updateActive 3 "x") := by
  let frame : NoteFrame := { revision := 7, writerId := "v", text := "theirs" }
  obtain ⟨payload, -, -, hdecode⟩ := decodeNoteFrame_encodeNoteFrame (f := frame) Json.compact
    ⟨by decide, by decide, by decide⟩ ⟨by decide, by decide, by decide, by decide⟩
  obtain ⟨ws, hreach, hws⟩ := Lts.Reach.exists_of_run (step Json.compact) (new "w") [.edit 1 (.updateActive "mine")]
    (fun ws => ((ws.applyRemote frame).1.edit 2 (.updateActive "ours")).toOption.any fun (ws', _) =>
      ws'.activeDocument.revision = 8) (by decide)
  obtain ⟨⟨ws', sent⟩, hedit, hrevision⟩ := (Option.any_eq_true ..).mp hws
  have hrevision : ws'.activeDocument.revision = 8 := of_decide_eq_true hrevision
  have hremote : step Json.compact ws (.receive payload) = some (ws.applyRemote frame).1 := by
    simp only [step, hdecode]
    rfl
  have hlocal : step Json.compact (ws.applyRemote frame).1 (.edit 2 (.updateActive "ours")) = some ws' := by
    cases hresult : (ws.applyRemote frame).1.edit 2 (.updateActive "ours") with
    | error e =>
      rw [hresult] at hedit
      cases hedit
    | ok result =>
      rw [hresult] at hedit
      obtain rfl := Option.some.inj hedit
      simp only [step, hresult]
  have hall := (hreach.tail trivial hremote).tail trivial hlocal
  refine ⟨ws', hall, hrevision, ((local_edit_iff hall).1 3 "x" (by decide)).mpr ?_⟩
  rw [hrevision]
  decide

/-- An update of the greatest revision has come in; the next edit is lost. -/
theorem local_edit_lost : ¬ ∀ (lib : Json.Library) (writerId : String) (ws : NoteWorkspace),
    Lts.Reach (step lib) (new writerId) ws → ∀ now text, text.utf8ByteSize ≤ kNoteMaxBytes →
      ws.TakesEffect text (ws.updateActive now text) := by
  intro hall
  let frame : NoteFrame := { revision := u64Max }
  obtain ⟨payload, -, -, hdecode⟩ := decodeNoteFrame_encodeNoteFrame (f := frame) Json.compact
    ⟨by decide, by decide, by decide⟩ ⟨by decide, by decide, by decide, by decide⟩
  have hstep : step Json.compact (new "w") (.receive payload) = some ((new "w").applyRemote frame).1 := by
    simp only [step, hdecode]
    rfl
  have hreach : Lts.Reach (step Json.compact) (new "w") ((new "w").applyRemote frame).1 :=
    .tail .refl trivial hstep
  have htakes := hall Json.compact "w" _ hreach 1 "x" (by decide)
  have hsound := sound_of_reach hreach
  rw [hsound.updateActive_eq (by decide)] at htakes
  exact absurd (by decide) ((hsound.takesEffect_iff (.inl rfl) rfl).mp htakes)

end NoteWorkspace

end Kiko.Note
