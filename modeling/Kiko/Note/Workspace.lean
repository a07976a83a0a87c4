import Kiko.Note.Protocol

/-!
# The pads of one side (`note/note_workspace`)

A workspace holds a document for every pad, the revision of this side's last edit of a pad,
and the greatest revision of it the peer has acknowledged. Every operation runs under the
workspace's lock, so each is one step here.

Pads are named and titled by their number (`PadTitle`), on either side alike; that is why
titles, which are outside the order of edits, agree all the same.
-/

set_option autoImplicit false

namespace Kiko.Note

/-- `default_pad_title`. -/
def defaultPadTitle (padId : String) : String := if padId = "main" then "Note 1" else padId

/-- `pad_before`. -/
def padBefore (a b : NoteDocument) : Bool :=
  if a.padId = "main" then b.padId ≠ "main"
  else if b.padId = "main" then false
  else a.padId < b.padId

abbrev PadMap (α : Type) := AList fun _ : String => α

structure NoteWorkspace where
  documents : PadMap NoteDocument := ∅
  localRevisions : PadMap Nat := ∅
  ackedRevisions : PadMap Nat := ∅
  writerId : String
  activePad : String := "main"
  nextPadNumber : Nat := 2

structure NoteWorkspaceSnapshot where
  activePad : String
  documents : List NoteDocument
  latestLocalRevision : Nat
  lastAckedRevision : Nat
  hasLocalUpdates : Bool
  synced : Bool

/-- What the user may do with the active pad. -/
inductive EditOp
  | updateActive (text : String)
  | clearActive
  | createPad
deriving DecidableEq, Repr

namespace NoteWorkspace

variable (ws : NoteWorkspace)

/-- `ensure_pad_locked`: the document of a pad, new or with the title it is given. -/
def ensurePad (padId : String) (title : String := "") : NoteDocument :=
  let id := normalizedPadId padId
  match ws.documents.lookup id with
  | none => { padId := id, title := if title = "" then defaultPadTitle id else title }
  | some document => if title = "" then document else { document with title := title }

def put (id : String) (document : NoteDocument) : NoteWorkspace :=
  { ws with documents := ws.documents.insert id document }

/-- `NoteWorkspace::NoteWorkspace`. -/
def new (writerId : String) : NoteWorkspace :=
  let ws : NoteWorkspace := { writerId := writerId }
  ws.put "main" (ws.ensurePad "main" "Note 1")

/-- `apply_local_locked`. -/
def applyLocal (document : NoteDocument) (frame : NoteFrame) : NoteWorkspace × NoteFrame :=
  let applied := (applyNoteUpdate document frame).1
  ({ ws.put document.padId applied with
      localRevisions := ws.localRevisions.insert applied.padId frame.revision }, frame)

/-- The revision of the next edit, a `std::uint64_t`. -/
def nextRevision (document : NoteDocument) : Nat := (document.revision + 1) % 2 ^ 64

/-- `update_active`. -/
def updateActive (now : Nat) (text : String) : Except KikoError (NoteWorkspace × NoteFrame) := do
  let document := ws.ensurePad ws.activePad
  let frame ← makeNoteUpdate now document.padId (nextRevision document) text document.title ws.writerId
  return ws.applyLocal document frame

/-- `clear_active`. -/
def clearActive (now : Nat) : Except KikoError (NoteWorkspace × NoteFrame) := do
  let document := ws.ensurePad ws.activePad
  let frame ← makeNoteClear now document.padId (nextRevision document) document.title ws.writerId
  return ws.applyLocal document frame

def padName (number : Nat) : String := "pad-" ++ toString number

/-- The loop of `create_pad`, in so many rounds: the first number whose pad is free. -/
def freshNumber : (rounds number : Nat) → Nat
  | 0, number => number
  | rounds + 1, number =>
    if padName number ∈ ws.documents then freshNumber rounds (number + 1) else number

/-- `create_pad`. -/
def createPad (now : Nat) : Except KikoError (NoteWorkspace × NoteFrame) := do
  let number := ws.freshNumber ws.documents.entries.length ws.nextPadNumber
  let document := ws.ensurePad (padName number) ("Note " ++ toString number)
  let frame ← makeNoteUpdate now document.padId (nextRevision document) document.text document.title
    ws.writerId
  return { ws with nextPadNumber := number + 1, activePad := padName number }.applyLocal document frame

/-- An edit by the user, and the frame it has to be sent in. -/
def edit (now : Nat) : EditOp → Except KikoError (NoteWorkspace × NoteFrame)
  | .updateActive text => ws.updateActive now text
  | .clearActive => ws.clearActive now
  | .createPad => ws.createPad now

/-- `select_pad`. -/
def selectPad (padId : String) : NoteWorkspace × Bool :=
  let id := normalizedPadId padId
  if id ∈ ws.documents then ({ ws with activePad := id }, true) else (ws, false)

/-- `apply_remote`. -/
def applyRemote (frame : NoteFrame) : NoteWorkspace × Bool :=
  if isNoteEdit frame then
    let id := normalizedPadId frame.padId
    let (document, applied) := applyNoteUpdate (ws.ensurePad frame.padId frame.title) frame
    (ws.put id document, applied)
  else (ws, false)

/-- `acknowledge`. -/
def acknowledge (frame : NoteFrame) : NoteWorkspace :=
  if frame.type = .ack then
    let id := normalizedPadId frame.padId
    let revision := (ws.ackedRevisions.lookup id).getD 0
    { ws with ackedRevisions := ws.ackedRevisions.insert id (max revision frame.revision) }
  else ws

/-- `synced_locked`. -/
def syncedLocked : Bool :=
  ws.localRevisions.entries.all fun entry =>
    match ws.ackedRevisions.lookup entry.1 with
    | some acked => entry.2 ≤ acked
    | none => false

/-- `snapshot`. -/
def snapshot : NoteWorkspaceSnapshot :=
  let hasLocalUpdates := !ws.localRevisions.entries.isEmpty
  { activePad := ws.activePad
    documents := (ws.documents.entries.map (·.2)).mergeSort padBefore
    latestLocalRevision := (ws.localRevisions.entries.map (·.2)).foldl max 0
    lastAckedRevision := (ws.ackedRevisions.entries.map (·.2)).foldl max 0
    hasLocalUpdates := hasLocalUpdates
    synced := hasLocalUpdates && ws.syncedLocked }

/-! ## A free number -/

theorem padName_injective : Function.Injective padName := by
  intro m n h
  have hl := congrArg String.toList h
  simp only [padName, String.toList_append, List.append_cancel_left_eq] at hl
  exact Nat.repr_injective (String.toList_inj.mp hl)

theorem mem_of_freshNumber_mem {rounds number : Nat}
    (h : padName (ws.freshNumber rounds number) ∈ ws.documents) :
    ∀ i, number ≤ i → i ≤ number + rounds → padName i ∈ ws.documents := by
  induction rounds generalizing number with
  | zero =>
    intro i h₁ h₂
    obtain rfl : i = number := by omega
    exact h
  | succ rounds ih =>
    intro i h₁ h₂
    rw [freshNumber] at h
    split at h
    case isTrue hmem =>
      rcases h₁.eq_or_lt with rfl | hlt
      · exact hmem
      · exact ih h i hlt (by omega)
    case isFalse hnot => exact absurd h hnot

/-- The loop of `create_pad` ends, with a pad that did not exist: a workspace has fewer pads
    than numbers are tried. -/
theorem freshNumber_free (number : Nat) :
    padName (ws.freshNumber ws.documents.entries.length number) ∉ ws.documents := by
  intro h
  have hall := ws.mem_of_freshNumber_mem h
  have hnodup : ((List.range' number (ws.documents.entries.length + 1)).map padName).Nodup :=
    List.Nodup.map padName_injective List.nodup_range'
  have hsub : (List.range' number (ws.documents.entries.length + 1)).map padName ⊆
      ws.documents.keys := by
    intro name hname
    obtain ⟨i, hi, rfl⟩ := List.mem_map.mp hname
    obtain ⟨h₁, h₂⟩ := List.mem_range'_1.mp hi
    exact hall i h₁ (by omega)
  have hle := (hnodup.subperm hsub).length_le
  simp [AList.keys, List.keys] at hle

/-! ## The key of a pad

A pad that does not exist has the least key, so that creating it is an edit like any other. -/

/-- How far a pad has come; `⊥` where there is no such pad. -/
def padKey (pad : String) : WithBot NoteKey := (ws.documents.lookup pad).map (·.key)

/-- The revision a key stands for, 0 for none. -/
def keyRevision : WithBot NoteKey → Nat
  | none => 0
  | some key => (ofLex key).1

@[simp] theorem keyRevision_bot : keyRevision ⊥ = 0 := rfl

@[simp] theorem keyRevision_frame (f : NoteFrame) : keyRevision (f.key : WithBot NoteKey) = f.revision :=
  rfl

theorem keyRevision_mono : Monotone keyRevision := by
  intro a b hab
  cases a with
  | bot => exact Nat.zero_le _
  | coe a =>
    cases b with
    | bot => exact absurd hab (WithBot.not_coe_le_bot a)
    | coe b =>
      rcases Prod.Lex.le_iff.mp (WithBot.coe_le_coe.mp hab) with h | ⟨h, -⟩
      · exact h.le
      · exact h.le

/-- A pad's id and the title both sides know it by. -/
def PadTitle (pad title : String) : Prop :=
  (pad = "main" ∧ title = "Note 1") ∨
    ∃ n : Nat, pad = padName n ∧ title = "Note " ++ toString n

theorem padName_ne_main (n : Nat) : padName n ≠ "main" := by
  intro h
  have hl := congrArg String.toList h
  simp [padName] at hl

section PadTitle

variable {pad title title' : String}

theorem PadTitle.unique (h : PadTitle pad title) (h' : PadTitle pad title') : title = title' := by
  rcases h with ⟨rfl, rfl⟩ | ⟨n, rfl, rfl⟩
  · rcases h' with ⟨-, rfl⟩ | ⟨n, hn, -⟩
    · rfl
    · exact absurd hn.symm (padName_ne_main n)
  · rcases h' with ⟨hn, -⟩ | ⟨m, hm, rfl⟩
    · exact absurd hn (padName_ne_main n)
    · rw [padName_injective hm]

theorem PadTitle.pad_ne (h : PadTitle pad title) : pad ≠ "" := by
  rcases h with ⟨rfl, rfl⟩ | ⟨n, rfl, rfl⟩
  · decide
  · intro h
    have hl := congrArg String.toList h
    simp [padName] at hl

theorem PadTitle.title_ne (h : PadTitle pad title) : title ≠ "" := by
  rcases h with ⟨rfl, rfl⟩ | ⟨n, rfl, rfl⟩
  · decide
  · intro h
    have hl := congrArg String.toList h
    simp at hl

theorem PadTitle.normalized (h : PadTitle pad title) : normalizedPadId pad = pad := if_neg h.pad_ne

end PadTitle

/-- Every document stands under its own pad with that pad's title, and the active pad is
    one of them. -/
structure Wf : Prop where
  documents : ∀ pad document, ws.documents.lookup pad = some document →
    document.padId = pad ∧ PadTitle pad document.title
  active : ws.activePad ∈ ws.documents

variable {ws} {ws' : NoteWorkspace} {pad title : String} {frame : NoteFrame}

/-! ## What an edit does, whichever side it comes from

One specification for local and remote edits: the document goes to the greater of two keys. -/

theorem empty_le (s : String) : "" ≤ s := by
  rw [← not_lt, String.lt_iff_toList_lt]
  simp

theorem ensurePad_eq {id : String} (h : normalizedPadId pad = id) : ws.ensurePad pad title =
    match (ws.documents.lookup id : Option NoteDocument) with
    | none => { padId := id, title := if title = "" then defaultPadTitle id else title }
    | some document => if title = "" then document else { document with title := title } := by
  subst h
  rfl

/-- What a pad's document is edited from: a pad that is not there yet is edited from the
    least key there is. -/
theorem ensurePad_spec (wf : ws.Wf) (ht : PadTitle pad title) :
    (ws.ensurePad pad title).padId = pad ∧ (ws.ensurePad pad title).title = title ∧
      (ws.ensurePad pad title).revision = keyRevision (ws.padKey pad) ∧
      ∀ f : NoteFrame, max ((ws.ensurePad pad title).key : WithBot NoteKey) f.key =
        max (ws.padKey pad) f.key := by
  simp only [ensurePad_eq ht.normalized, padKey]
  cases hl : ws.documents.lookup pad with
  | none =>
    refine ⟨rfl, by simp [ht.title_ne], rfl, fun f => ?_⟩
    have hleast : (({ padId := pad, title := if title = "" then defaultPadTitle pad else title } :
        NoteDocument).key : WithBot NoteKey) ≤ f.key := by
      refine WithBot.coe_le_coe.mpr (Prod.Lex.toLex_le_toLex.mpr ?_)
      rcases Nat.eq_zero_or_pos f.revision with h | h
      · refine .inr ⟨h.symm, Prod.Lex.toLex_le_toLex.mpr ?_⟩
        rcases (empty_le f.writerId).eq_or_lt with hw | hw
        · refine .inr ⟨hw, Prod.Lex.toLex_le_toLex.mpr ?_⟩
          rcases Nat.eq_zero_or_pos f.timestampMs with ht' | ht'
          · exact .inr ⟨ht'.symm, empty_le _⟩
          · exact .inl ht'
        · exact .inl hw
      · exact .inl h
    rw [max_eq_right hleast]
    exact (max_eq_right bot_le).symm
  | some document =>
    obtain ⟨hp, htitle⟩ := wf.documents pad document hl
    simp only [if_neg ht.title_ne]
    exact ⟨hp, trivial, rfl, fun _ => rfl⟩

/-- The active pad's document already has its title. -/
theorem ensurePad_active (wf : ws.Wf) : ∃ title, PadTitle ws.activePad title ∧
    ws.ensurePad ws.activePad = ws.ensurePad ws.activePad title := by
  obtain ⟨document, hl⟩ := Option.isSome_iff_exists.mp (AList.lookup_isSome.mpr wf.active)
  obtain ⟨-, ht⟩ := wf.documents _ document hl
  refine ⟨document.title, ht, ?_⟩
  simp [ensurePad_eq ht.normalized, hl, ht.title_ne]

/-- The documents after an edit of `frame`: its pad is at the greater of the two keys, and
    no other pad has changed. -/
structure Edited (ws ws' : NoteWorkspace) (frame : NoteFrame) : Prop where
  wf : ws'.Wf
  key : ws'.padKey frame.padId = max (ws.padKey frame.padId) frame.key
  other : ∀ pad, pad ≠ frame.padId → ws'.padKey pad = ws.padKey pad

theorem Edited.key_le (h : Edited ws ws' frame) (pad : String) : ws.padKey pad ≤ ws'.padKey pad := by
  by_cases hp : pad = frame.padId
  · rw [hp, h.key]
    exact le_max_left ..
  · exact (h.other pad hp).ge

theorem Edited.frame_le (h : Edited ws ws' frame) : frame.key ≤ ws'.padKey frame.padId := by
  rw [h.key]
  exact le_max_right ..

/-- The one way a workspace changes its documents, up to what is not a document. -/
theorem edited_of_put (wf : ws.Wf) (he : isNoteEdit frame = true) (hp : frame.padId = pad)
    (ht : frame.title = title) (hpt : PadTitle pad title)
    (hdocs : ws'.documents = ws.documents.insert pad
      (applyNoteUpdate (ws.ensurePad pad title) frame).1)
    (hactive : ws'.activePad = ws.activePad ∨ ws'.activePad = pad) : Edited ws ws' frame := by
  obtain ⟨hpad, htitle, -, hkey⟩ := ensurePad_spec wf hpt
  subst hp ht
  obtain ⟨hid, htl⟩ := applyNoteUpdate_rest (ws.ensurePad frame.padId frame.title) frame
  refine ⟨⟨?_, ?_⟩, ?_, ?_⟩
  · intro p document hl
    rw [hdocs] at hl
    by_cases hp : p = frame.padId
    · subst hp
      rw [AList.lookup_insert] at hl
      obtain rfl := Option.some.inj hl
      constructor
      · rcases hid with h | h
        · rw [h, hpad]
        · rw [h, hpt.normalized]
      · rcases htl with h | ⟨-, h⟩
        · rwa [h, htitle]
        · rwa [h]
    · rw [AList.lookup_insert_ne hp] at hl
      exact wf.documents p document hl
  · rw [hdocs, AList.mem_insert]
    rcases hactive with h | h
    · exact .inr (h ▸ wf.active)
    · exact .inl h
  · rw [padKey, hdocs, AList.lookup_insert, ← hkey, Option.map_some]
    exact congrArg WithBot.some (applyNoteUpdate_key he)
  · intro p hp
    rw [padKey, hdocs, AList.lookup_insert_ne hp]
    rfl

/-- **A remote edit.** -/
theorem applyRemote_edited (wf : ws.Wf) (he : isNoteEdit frame = true)
    (hpt : PadTitle frame.padId frame.title) : Edited ws (ws.applyRemote frame).1 frame := by
  refine edited_of_put wf he rfl rfl hpt ?_ (.inl ?_)
  · simp [applyRemote, he, hpt.normalized, put]
  · simp [applyRemote, he, put]

/-- What a local edit leaves besides its document: the frame that announces it. -/
structure LocallyEdited (ws ws' : NoteWorkspace) (frame : NoteFrame) : Prop extends
    Edited ws ws' frame where
  isEdit : isNoteEdit frame = true
  padTitle : PadTitle frame.padId frame.title
  revision : frame.revision = (keyRevision (ws.padKey frame.padId) + 1) % 2 ^ 64
  local_ : ws'.localRevisions = ws.localRevisions.insert frame.padId frame.revision
  acked : ws'.ackedRevisions = ws.ackedRevisions

theorem applyLocal_edited {base : NoteWorkspace} (wf : ws.Wf) (hpt : PadTitle pad title)
    (he : isNoteEdit frame = true) (hp : frame.padId = pad) (ht : frame.title = title)
    (hr : frame.revision = nextRevision (ws.ensurePad pad title))
    (hbase : base.documents = ws.documents ∧ base.localRevisions = ws.localRevisions ∧
      base.ackedRevisions = ws.ackedRevisions ∧
      (base.activePad = ws.activePad ∨ base.activePad = pad)) :
    LocallyEdited ws (base.applyLocal (ws.ensurePad pad title) frame).1 frame := by
  obtain ⟨hpad, htitle, hrev, -⟩ := ensurePad_spec wf hpt
  obtain ⟨hdocs, hlocal, hacked, hactive⟩ := hbase
  have hedited : Edited ws (base.applyLocal (ws.ensurePad pad title) frame).1 frame :=
    edited_of_put wf he hp ht hpt (by simp [applyLocal, put, hdocs, hpad]) hactive
  subst hp ht
  have hid : (applyNoteUpdate (ws.ensurePad frame.padId frame.title) frame).1.padId = frame.padId := by
    rcases (applyNoteUpdate_rest (ws.ensurePad frame.padId frame.title) frame).1 with h | h
    · rw [h, hpad]
    · rw [h, hpt.normalized]
  exact
    { hedited with
      isEdit := he
      padTitle := hpt
      revision := by rw [hr, nextRevision, hrev]
      local_ := by simp [applyLocal, put, hlocal, hid]
      acked := by simp [applyLocal, put, hacked] }

theorem makeNoteUpdate_ok {now : Nat} {padId text title writerId : String} {revision : Nat}
    (h : makeNoteUpdate now padId revision text title writerId = .ok frame) :
    isNoteEdit frame = true ∧ frame.padId = normalizedPadId padId ∧ frame.title = title ∧
      frame.revision = revision := by
  rw [makeNoteUpdate] at h
  split at h
  · cases h
  · obtain rfl := Except.ok.inj h
    exact ⟨rfl, rfl, rfl, rfl⟩

/-- **A local edit**, by each of its three operations. -/
theorem edit_spec {now : Nat} {op : EditOp} (wf : ws.Wf) (h : ws.edit now op = .ok (ws', frame)) :
    LocallyEdited ws ws' frame := by
  cases op with
  | updateActive text =>
    obtain ⟨title, hpt, hd⟩ := ensurePad_active wf
    obtain ⟨hpad, htitle, -⟩ := ensurePad_spec wf hpt
    simp only [edit, updateActive, bind, Except.bind, pure, Except.pure] at h
    split at h
    · cases h
    next f hf =>
      obtain ⟨he, hp, ht, hr⟩ := makeNoteUpdate_ok hf
      rw [hd] at hp ht hr h
      cases h
      exact applyLocal_edited wf hpt he (by rw [hp, hpad, hpt.normalized]) (by rw [ht, htitle]) hr
        ⟨rfl, rfl, rfl, .inl rfl⟩
  | clearActive =>
    obtain ⟨title, hpt, hd⟩ := ensurePad_active wf
    obtain ⟨hpad, htitle, -⟩ := ensurePad_spec wf hpt
    simp only [edit, clearActive, makeNoteClear, bind, Except.bind, pure, Except.pure] at h
    split at h
    · cases h
    next f hf =>
      split at hf
      · cases hf
      next g hg =>
        obtain ⟨he, hp, ht, hr⟩ := makeNoteUpdate_ok hg
        cases hf
        rw [hd] at hp ht hr h
        cases h
        exact applyLocal_edited wf hpt rfl (by rw [hp, hpad, hpt.normalized]) (by rw [ht, htitle])
          hr ⟨rfl, rfl, rfl, .inl rfl⟩
  | createPad =>
    have hpt (n : Nat) : PadTitle (padName n) ("Note " ++ toString n) := .inr ⟨n, rfl, rfl⟩
    simp only [edit, createPad, bind, Except.bind, pure, Except.pure] at h
    generalize ws.freshNumber ws.documents.entries.length ws.nextPadNumber = n at h
    obtain ⟨hpad, htitle, -⟩ := ensurePad_spec wf (hpt n)
    split at h
    · cases h
    next f hf =>
      obtain ⟨he, hp, ht, hr⟩ := makeNoteUpdate_ok hf
      cases h
      exact applyLocal_edited wf (hpt n) he (by rw [hp, hpad, (hpt n).normalized])
        (by rw [ht, htitle]) hr ⟨rfl, rfl, rfl, .inr rfl⟩

/-! ## What the other operations leave alone -/

theorem selectPad_keeps (wf : ws.Wf) (padId : String) :
    (ws.selectPad padId).1.Wf ∧ (ws.selectPad padId).1.documents = ws.documents ∧
      (ws.selectPad padId).1.localRevisions = ws.localRevisions ∧
      (ws.selectPad padId).1.ackedRevisions = ws.ackedRevisions := by
  unfold selectPad
  simp only
  split
  case isTrue hmem => exact ⟨⟨wf.documents, hmem⟩, rfl, rfl, rfl⟩
  case isFalse => exact ⟨wf, rfl, rfl, rfl⟩

theorem acknowledge_keeps (wf : ws.Wf) (frame : NoteFrame) :
    (ws.acknowledge frame).Wf ∧ (ws.acknowledge frame).documents = ws.documents ∧
      (ws.acknowledge frame).localRevisions = ws.localRevisions := by
  unfold acknowledge
  split
  · exact ⟨⟨wf.documents, wf.active⟩, rfl, rfl⟩
  · exact ⟨wf, rfl, rfl⟩

/-- The greatest revision acknowledged is kept. -/
theorem acknowledge_acked (hack : frame.type = .ack) (h : normalizedPadId frame.padId = pad) :
    (ws.acknowledge frame).ackedRevisions = ws.ackedRevisions.insert pad
      (max ((ws.ackedRevisions.lookup pad : Option Nat).getD 0) frame.revision) := by
  subst h
  rw [acknowledge, if_pos hack]

theorem wf_new (writerId : String) : (new writerId).Wf := by
  constructor
  · intro pad document hl
    by_cases hp : pad = "main"
    · subst hp
      simp only [new, put, AList.lookup_insert, Option.some.injEq] at hl
      subst hl
      exact ⟨rfl, .inl ⟨rfl, rfl⟩⟩
    · rw [new, put, AList.lookup_insert_ne hp] at hl
      cases hl
  · rw [new, put, AList.mem_insert]
    exact .inl rfl

end NoteWorkspace

end Kiko.Note
