import Kiko.Core.Protocol

/-!
# Notes on the wire (`note/note_protocol`)

A note document is replaced by whichever edit comes later in a fixed order: the revision
first, then the writer, the time and the text. `apply_note_update` spells that order out by
hand; `NoteKey` is the same order as a type, and `applyNoteUpdate_key` says the function
takes the greater of the two, whatever the frame.

A title is no part of the order, and a document takes it from any frame that is applied.
-/

set_option autoImplicit false

namespace Kiko.Note

def kNoteMaxBytes : Nat := 1024 * 1024

inductive NoteFrameType
  | hello
  | update
  | clear
  | ack
  | ping
  | bye
deriving DecidableEq, Repr

/-- `kNoteProtocolVersion`. -/
def kNoteProtocolVersion : Nat := 2

structure NoteFrame where
  type : NoteFrameType := .update
  protocolVersion : Nat := kNoteProtocolVersion
  revision : Nat := 0
  timestampMs : Nat := 0
  writerId : String := ""
  padId : String := "main"
  title : String := ""
  text : String := ""
deriving DecidableEq, Repr

structure NoteDocument where
  revision : Nat := 0
  timestampMs : Nat := 0
  writerId : String := ""
  padId : String := "main"
  title : String := ""
  text : String := ""
deriving DecidableEq, Repr

/-- `pad_id.empty() ? "main" : pad_id`. -/
def normalizedPadId (padId : String) : String := if padId = "" then "main" else padId

/-- `make_note_update`, at the time `now`. -/
def makeNoteUpdate (now : Nat) (padId : String) (revision : Nat) (text title writerId : String) :
    Except KikoError NoteFrame :=
  if kNoteMaxBytes < text.utf8ByteSize then .error "note text exceeds 1 MiB limit"
  else .ok
    { type := .update
      revision := revision
      timestampMs := now
      writerId := writerId
      padId := normalizedPadId padId
      title := title
      text := text }

/-- `make_note_clear`. -/
def makeNoteClear (now : Nat) (padId : String) (revision : Nat) (title writerId : String) :
    Except KikoError NoteFrame := do
  let frame ← makeNoteUpdate now padId revision "" title writerId
  return { frame with type := .clear }

/-- `make_note_ack`. -/
def makeNoteAck (now : Nat) (padId : String) (revision : Nat) : NoteFrame :=
  { type := .ack, revision := revision, timestampMs := now, padId := normalizedPadId padId }

/-- `is_note_edit`. -/
def isNoteEdit (frame : NoteFrame) : Bool := frame.type = .update || frame.type = .clear

/-- The text a document has after the frame. -/
def NoteFrame.incomingText (frame : NoteFrame) : String :=
  if frame.type = .clear then "" else frame.text

/-- `apply_note_update`: the document after the frame, and whether it was applied. -/
def applyNoteUpdate (document : NoteDocument) (frame : NoteFrame) : NoteDocument × Bool :=
  if ¬ isNoteEdit frame then (document, false)
  else if frame.revision < document.revision then (document, false)
  else if frame.revision = document.revision ∧
      toLex (frame.writerId, toLex (frame.timestampMs, frame.incomingText)) ≤
        toLex (document.writerId, toLex (document.timestampMs, document.text)) then
    (document, false)
  else
    ({ revision := frame.revision
       timestampMs := frame.timestampMs
       writerId := frame.writerId
       padId := normalizedPadId frame.padId
       title := if frame.title = "" then document.title else frame.title
       text := frame.incomingText }, true)

/-! ## The order of edits

Lexicographic and total, so two sides that have seen the same edits, in whatever order,
hold the same document. The text is last in the order: two edits that differ in nothing
else are decided by it, on both sides alike. -/

/-- What decides between two states of a document. -/
abbrev NoteKey := ℕ ×ₗ String ×ₗ ℕ ×ₗ String

def NoteDocument.key (d : NoteDocument) : NoteKey :=
  toLex (d.revision, toLex (d.writerId, toLex (d.timestampMs, d.text)))

def NoteFrame.key (f : NoteFrame) : NoteKey :=
  toLex (f.revision, toLex (f.writerId, toLex (f.timestampMs, f.incomingText)))

variable {document d : NoteDocument} {frame f : NoteFrame}

theorem NoteFrame.key_le_iff : f.key ≤ d.key ↔ f.revision < d.revision ∨
    (f.revision = d.revision ∧
      toLex (f.writerId, toLex (f.timestampMs, f.incomingText)) ≤
        toLex (d.writerId, toLex (d.timestampMs, d.text))) :=
  Prod.Lex.toLex_le_toLex

/-- A greater revision alone decides. -/
theorem NoteFrame.key_lt_of_revision {g : NoteFrame} (h : f.revision < g.revision) : f.key < g.key :=
  Prod.Lex.toLex_lt_toLex.mpr (.inl h)

theorem NoteFrame.key_le_revision (h : f.key ≤ d.key) : f.revision ≤ d.revision := by
  rcases NoteFrame.key_le_iff.mp h with h | ⟨h, _⟩
  · exact h.le
  · exact h.le

theorem NoteDocument.key_le_revision {d' : NoteDocument} (h : d.key ≤ d'.key) :
    d.revision ≤ d'.revision := by
  rcases Prod.Lex.toLex_le_toLex.mp h with h | ⟨h, _⟩
  · exact h.le
  · exact h.le

/-- Documents of one key differ in pad and title at most. -/
theorem NoteDocument.eq_of_key {d' : NoteDocument} (hk : d.key = d'.key)
    (hp : d.padId = d'.padId) (ht : d.title = d'.title) : d = d' := by
  cases d
  cases d'
  simp only [key, EmbeddingLike.apply_eq_iff_eq, Prod.mk.injEq] at hk hp ht
  obtain ⟨rfl, rfl, rfl, rfl⟩ := hk
  subst hp ht
  rfl

/-- An edit leaves a document at the greater of the two keys. -/
theorem applyNoteUpdate_key (h : isNoteEdit frame = true) :
    (applyNoteUpdate document frame).1.key = max document.key frame.key := by
  by_cases hle : frame.key ≤ document.key
  · rw [max_eq_left hle]
    rcases NoteFrame.key_le_iff.mp hle with hlt | ⟨heq, hrest⟩
    · simp [applyNoteUpdate, h, hlt]
    · simp [applyNoteUpdate, h, heq, hrest]
  · have hnot := mt NoteFrame.key_le_iff.mpr hle
    push Not at hnot
    obtain ⟨hrev, hrest⟩ := hnot
    rw [max_eq_right (not_le.mp hle).le]
    have hnew : applyNoteUpdate document frame =
        ({ revision := frame.revision
           timestampMs := frame.timestampMs
           writerId := frame.writerId
           padId := normalizedPadId frame.padId
           title := if frame.title = "" then document.title else frame.title
           text := frame.incomingText }, true) := by
      rw [applyNoteUpdate, if_neg (by simp [h]), if_neg (not_lt.mpr hrev), if_neg]
      rintro ⟨heq, hle'⟩
      exact absurd hle' (not_le.mpr (hrest heq))
    rw [hnew]
    rfl

/-- Where the pad and the title of an updated document come from. -/
theorem applyNoteUpdate_rest (document : NoteDocument) (frame : NoteFrame) :
    ((applyNoteUpdate document frame).1.padId = document.padId ∨
      (applyNoteUpdate document frame).1.padId = normalizedPadId frame.padId) ∧
    ((applyNoteUpdate document frame).1.title = document.title ∨
      (frame.title ≠ "" ∧ (applyNoteUpdate document frame).1.title = frame.title)) := by
  unfold applyNoteUpdate
  split
  · exact ⟨.inl rfl, .inl rfl⟩
  split
  · exact ⟨.inl rfl, .inl rfl⟩
  split
  · exact ⟨.inl rfl, .inl rfl⟩
  by_cases ht : frame.title = ""
  · exact ⟨.inr rfl, .inl (if_pos ht)⟩
  · exact ⟨.inr rfl, .inr ⟨ht, if_neg ht⟩⟩

end Kiko.Note
