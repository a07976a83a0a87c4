import Kiko.Note.Session

/-!
# What the outbox counts (`note/note_session`)

The queue of frames to be sent is bounded by what its strings have allocated, so here a string
has a buffer: its own of 15 bytes, or one on the heap. `outgoing_bytes_` is kept beside the
queue. A frame is charged before it is moved in; that is what it holds afterwards when it is
appended, but not when it is assigned to a frame already queued: a short string is copied into
the buffer that is there, and a long one that was there stays. `Settled` says that no such
buffer stays, and as long as every replacement is settled the count is the sum
(`outbox_accounts`).

The count is a promise about memory, and memory is where C++ strings differ from their
contents. The capacities are those of one implementation of the standard library, the one the
repository is built with; with another one the bound would be another and the question the
same.
-/

set_option autoImplicit false

namespace Kiko.Note

/-- The buffer inside a string object. -/
def localCapacity : Nat := 15

/-- A `std::string` with its buffer: the capacity of one on the heap, or none. -/
structure StdString where
  text : String := ""
  heap : Option Nat := none
  fits : text.utf8ByteSize ≤ heap.getD localCapacity := by decide
  large : ∀ capacity ∈ heap, localCapacity < capacity := by simp

namespace StdString

def capacity (s : StdString) : Nat := s.heap.getD localCapacity

theorem localCapacity_le (s : StdString) : localCapacity ≤ s.capacity := by
  unfold capacity
  cases h : s.heap with
  | none => exact Nat.le_refl _
  | some c => exact (s.large c h).le

/-- `target = std::move(source)`: a buffer on the heap is handed over, a short string is copied
    into the buffer the target has. -/
def moveAssign (target source : StdString) : StdString :=
  match h : source.heap with
  | some _ => source
  | none =>
    { text := source.text
      heap := target.heap
      fits := by
        have hsource := source.fits
        rw [h] at hsource
        exact hsource.trans target.localCapacity_le
      large := target.large }

/-- No buffer of the target stays that the source does not have. -/
def Settled (target source : StdString) : Prop := source.heap = none → target.heap = none

instance (target source : StdString) : Decidable (Settled target source) :=
  inferInstanceAs (Decidable (_ → _))

theorem capacity_moveAssign {target source : StdString} (h : Settled target source) :
    (moveAssign target source).capacity = source.capacity := by
  unfold moveAssign
  split
  · rfl
  · rename_i hnone
    exact congrArg (Option.getD · localCapacity) ((h hnone).trans hnone.symm)

@[simp] theorem text_moveAssign (target source : StdString) :
    (moveAssign target source).text = source.text := by
  unfold moveAssign
  split <;> rfl

end StdString

/-- A note frame with its strings' buffers. -/
structure StoredFrame where
  type : NoteFrameType := .update
  protocolVersion : Nat := kNoteProtocolVersion
  revision : Nat := 0
  timestampMs : Nat := 0
  writerId : StdString := {}
  padId : StdString := { text := "main" }
  title : StdString := {}
  text : StdString := {}

namespace StoredFrame

/-- The frame, whatever its buffers. -/
def toNoteFrame (f : StoredFrame) : NoteFrame :=
  { type := f.type
    protocolVersion := f.protocolVersion
    revision := f.revision
    timestampMs := f.timestampMs
    writerId := f.writerId.text
    padId := f.padId.text
    title := f.title.text
    text := f.text.text }

/-- `target = std::move(source)`, member by member. -/
def moveAssign (target source : StoredFrame) : StoredFrame :=
  { source with
    writerId := target.writerId.moveAssign source.writerId
    padId := target.padId.moveAssign source.padId
    title := target.title.moveAssign source.title
    text := target.text.moveAssign source.text }

@[simp] theorem toNoteFrame_moveAssign (target source : StoredFrame) :
    (moveAssign target source).toNoteFrame = source.toNoteFrame := by
  simp [toNoteFrame, moveAssign]

/-- Every string of the target is settled. -/
structure Settled (target source : StoredFrame) : Prop where
  writerId : target.writerId.Settled source.writerId
  padId : target.padId.Settled source.padId
  title : target.title.Settled source.title
  text : target.text.Settled source.text

instance (target source : StoredFrame) : Decidable (Settled target source) :=
  decidable_of_iff
    (target.writerId.Settled source.writerId ∧ target.padId.Settled source.padId ∧
      target.title.Settled source.title ∧ target.text.Settled source.text)
    ⟨fun h => ⟨h.1, h.2.1, h.2.2.1, h.2.2.2⟩, fun h => ⟨h.writerId, h.padId, h.title, h.text⟩⟩

end StoredFrame

/-- `sizeof(NoteFrame)`: the type, three numbers and four strings of 32 bytes. -/
def noteFrameSize : Nat := 160

def sizeMax : Nat := 2 ^ 64 - 1

/-- One round of `queued_frame_bytes`, which stays at the greatest number once it is there. -/
def addCapacity (total capacity : Nat) : Nat :=
  if sizeMax - total < capacity then sizeMax else total + capacity

/-- `queued_frame_bytes`. -/
def queuedFrameBytes (f : StoredFrame) : Nat :=
  [f.writerId.capacity, f.padId.capacity, f.title.capacity, f.text.capacity].foldl addCapacity
    noteFrameSize

/-- The queue of a session. -/
structure Outbox where
  outgoing : List StoredFrame := []
  outgoingBytes : Nat := 0
  stopped : Bool := false

namespace Outbox

/-- Does the queued frame give way to the other? -/
def coalesces (queued frame : StoredFrame) : Bool :=
  framesCoalesce queued.toNoteFrame frame.toNoteFrame

/-- The count without a queued frame. -/
def remaining (s : Outbox) (queued : StoredFrame) : Nat :=
  if queuedFrameBytes queued ≤ s.outgoingBytes then s.outgoingBytes - queuedFrameBytes queued else 0

/-- `queue_frame`. -/
def queueFrame (s : Outbox) (frame : StoredFrame) : Outbox × Bool :=
  if s.stopped then (s, false)
  else
    let frameBytes := queuedFrameBytes frame
    let ahead := s.outgoing.takeWhile fun queued => !coalesces queued frame
    match s.outgoing.dropWhile fun queued => !coalesces queued frame with
    | queued :: behind =>
      if frame.revision < queued.revision then (s, true)
      else if kNoteOutboxMaxBytes < frameBytes ∨
          kNoteOutboxMaxBytes - frameBytes < s.remaining queued then
        ({ s with stopped := true }, false)
      else
        ({ s with
            outgoing := ahead ++ queued.moveAssign frame :: behind
            outgoingBytes := s.remaining queued + frameBytes }, true)
    | [] =>
      if kNoteOutboxMaxFrames ≤ s.outgoing.length ∨ kNoteOutboxMaxBytes < frameBytes ∨
          kNoteOutboxMaxBytes - frameBytes < s.outgoingBytes then
        ({ s with stopped := true }, false)
      else
        ({ s with
            outgoing := s.outgoing ++ [frame]
            outgoingBytes := s.outgoingBytes + frameBytes }, true)

/-- The sender takes a frame off the queue (`sender_loop`). -/
def dequeue (s : Outbox) : Option Outbox :=
  match s.stopped, s.outgoing with
  | false, frame :: rest =>
    some { s with outgoing := rest, outgoingBytes := s.remaining frame }
  | _, _ => none

end Outbox

inductive OutboxOp
  | queue (frame : StoredFrame)
  | dequeue

namespace Outbox

def step (s : Outbox) : OutboxOp → Option Outbox
  | .queue frame => some (s.queueFrame frame).1
  | .dequeue => s.dequeue

/-- The queued frame that `frame` takes the place of. -/
def replaced (s : Outbox) (frame : StoredFrame) : Option StoredFrame :=
  if s.stopped then none
  else (s.outgoing.find? fun queued => coalesces queued frame).filter fun queued =>
    queued.revision ≤ frame.revision && queuedFrameBytes frame ≤ kNoteOutboxMaxBytes &&
      s.remaining queued ≤ kNoteOutboxMaxBytes - queuedFrameBytes frame

/-- Where a frame takes the place of another, no buffer on the heap stays under a short string. -/
def SettledStep (s : Outbox) : OutboxOp → Prop
  | .queue frame => ∀ queued ∈ s.replaced frame, queued.Settled frame
  | .dequeue => True

instance (s : Outbox) : (op : OutboxOp) → Decidable (SettledStep s op)
  | .queue frame => inferInstanceAs (Decidable (∀ queued ∈ s.replaced frame, queued.Settled frame))
  | .dequeue => inferInstanceAs (Decidable True)

/-- The bytes of the frames in the queue. -/
def heldBytes (s : Outbox) : Nat := (s.outgoing.map queuedFrameBytes).sum

/-- The count is what the queue holds, and the limits are kept. -/
structure Accounted (s : Outbox) : Prop where
  bytes : s.outgoingBytes = s.heldBytes
  maxBytes : s.heldBytes ≤ kNoteOutboxMaxBytes
  maxFrames : s.outgoing.length ≤ kNoteOutboxMaxFrames

variable {s s' : Outbox} {frame queued : StoredFrame} {op : OutboxOp}

theorem queuedFrameBytes_moveAssign (h : queued.Settled frame) :
    queuedFrameBytes (queued.moveAssign frame) = queuedFrameBytes frame := by
  simp only [queuedFrameBytes, StoredFrame.moveAssign, StdString.capacity_moveAssign h.writerId,
    StdString.capacity_moveAssign h.padId, StdString.capacity_moveAssign h.title,
    StdString.capacity_moveAssign h.text]

/-- `queued_frame_bytes` is the sum, while that is a number of 64 bits. -/
theorem queuedFrameBytes_eq (f : StoredFrame) :
    queuedFrameBytes f = min sizeMax
      (noteFrameSize + f.writerId.capacity + f.padId.capacity + f.title.capacity + f.text.capacity) := by
  have hadd {total capacity : Nat} : addCapacity (min sizeMax total) capacity = min sizeMax (total + capacity) := by
    unfold addCapacity
    split
    · omega
    · omega
  have hstart : noteFrameSize = min sizeMax noteFrameSize := by decide
  simp only [queuedFrameBytes, List.foldl_cons, List.foldl_nil]
  rw [hstart, hadd, hadd, hadd, hadd, ← hstart]

/-- A replacement that leaves a buffer holds more than it was charged. -/
theorem queuedFrameBytes_moveAssign_lt (h : ¬ queued.Settled frame)
    (hframe : queuedFrameBytes frame ≤ kNoteOutboxMaxBytes) :
    queuedFrameBytes frame < queuedFrameBytes (queued.moveAssign frame) := by
  have hle (target source : StdString) : source.capacity ≤ (target.moveAssign source).capacity ∧
      (¬ target.Settled source → source.capacity < (target.moveAssign source).capacity) := by
    unfold StdString.moveAssign
    split
    · rename_i hsome
      refine ⟨Nat.le_refl _, fun hnot => absurd (fun hnone => ?_) hnot⟩
      rw [hsome] at hnone
      cases hnone
    · rename_i hnone
      have hlocal : source.capacity = localCapacity := by
        rw [StdString.capacity, hnone]
        rfl
      rw [hlocal]
      refine ⟨target.localCapacity_le, fun hnot => ?_⟩
      obtain ⟨c, hc⟩ := Option.ne_none_iff_exists'.mp fun hnil => hnot fun _ => hnil
      show localCapacity < target.heap.getD localCapacity
      rw [hc]
      exact target.large c hc
  have hwriter := hle queued.writerId frame.writerId
  have hpad := hle queued.padId frame.padId
  have htitle := hle queued.title frame.title
  have htext := hle queued.text frame.text
  have hmax : kNoteOutboxMaxBytes < sizeMax := by decide
  have hsome : ¬ (queued.writerId.Settled frame.writerId ∧ queued.padId.Settled frame.padId ∧
      queued.title.Settled frame.title ∧ queued.text.Settled frame.text) :=
    fun ⟨h₁, h₂, h₃, h₄⟩ => h ⟨h₁, h₂, h₃, h₄⟩
  rw [queuedFrameBytes_eq] at hframe ⊢
  rw [queuedFrameBytes_eq]
  simp only [StoredFrame.moveAssign]
  by_cases h₁ : queued.writerId.Settled frame.writerId
  · by_cases h₂ : queued.padId.Settled frame.padId
    · by_cases h₃ : queued.title.Settled frame.title
      · have := htext.2 fun h₄ => hsome ⟨h₁, h₂, h₃, h₄⟩
        omega
      · have := htitle.2 h₃
        omega
    · have := hpad.2 h₂
      omega
  · have := hwriter.2 h₁
    omega

theorem find?_of_dropWhile {queued : StoredFrame} {behind : List StoredFrame}
    (h : (s.outgoing.dropWhile fun queued => !coalesces queued frame) = queued :: behind) :
    (s.outgoing.find? fun queued => coalesces queued frame) = some queued := by
  rw [List.find?_eq_head?_dropWhile_not, h]
  rfl

/-- What `queue_frame` can do to the queue: replace, or nothing, stop or append. -/
theorem queueFrame_cases (s : Outbox) (frame : StoredFrame) :
    (∃ ahead queued behind, s.outgoing = ahead ++ queued :: behind ∧ s.replaced frame = some queued ∧
      s.remaining queued + queuedFrameBytes frame ≤ kNoteOutboxMaxBytes ∧
      (s.queueFrame frame).1 =
        { s with
          outgoing := ahead ++ queued.moveAssign frame :: behind
          outgoingBytes := s.remaining queued + queuedFrameBytes frame }) ∨
    (s.replaced frame = none ∧
      ((s.queueFrame frame).1 = s ∨ (s.queueFrame frame).1 = { s with stopped := true } ∨
      (s.outgoing.length < kNoteOutboxMaxFrames ∧
        s.outgoingBytes + queuedFrameBytes frame ≤ kNoteOutboxMaxBytes ∧
        (s.queueFrame frame).1 =
          { s with
            outgoing := s.outgoing ++ [frame]
            outgoingBytes := s.outgoingBytes + queuedFrameBytes frame }))) := by
  unfold queueFrame replaced
  by_cases hstopped : s.stopped = true
  · rw [if_pos hstopped, if_pos hstopped]
    exact .inr ⟨rfl, .inl rfl⟩
  rw [if_neg hstopped, if_neg hstopped]
  dsimp only
  cases hdrop : s.outgoing.dropWhile fun queued => !coalesces queued frame with
  -- no queued frame coalesces with this one: it goes to the end, or there is no room
  | nil =>
    have hnone : (s.outgoing.find? fun queued => coalesces queued frame) = none := by
      rw [List.find?_eq_head?_dropWhile_not, hdrop]
      rfl
    refine .inr ⟨by rw [hnone]; rfl, ?_⟩
    dsimp only
    split
    · exact .inr (.inl rfl)
    · rename_i hfits
      push Not at hfits
      exact .inr (.inr ⟨hfits.1, by omega, rfl⟩)
  -- one does: it is superseded, or stays because it is newer
  | cons queued behind =>
    rw [find?_of_dropWhile hdrop, Option.filter_some]
    dsimp only
    by_cases hrevision : frame.revision < queued.revision
    · rw [if_pos hrevision, if_neg (by simp [hrevision])]
      exact .inr ⟨rfl, .inl rfl⟩
    rw [if_neg hrevision]
    by_cases hfull : kNoteOutboxMaxBytes < queuedFrameBytes frame ∨
        kNoteOutboxMaxBytes - queuedFrameBytes frame < s.remaining queued
    · rw [if_pos hfull]
      refine .inr ⟨if_neg ?_, .inr (.inl rfl)⟩
      simp only [Bool.and_eq_true, decide_eq_true_eq]
      omega
    · rw [if_neg hfull]
      push Not at hfull
      refine .inl ⟨_, queued, behind, ?_, if_pos ?_, by omega, rfl⟩
      · rw [← hdrop, List.takeWhile_append_dropWhile]
      · simp only [Bool.and_eq_true, decide_eq_true_eq]
        exact ⟨⟨not_lt.mp hrevision, hfull.1⟩, hfull.2⟩

/-- A frame that is counted can be taken off the count. -/
theorem remaining_eq {rest : Nat} (h : s.outgoingBytes = queuedFrameBytes queued + rest) :
    s.remaining queued = rest := by
  rw [remaining, h, if_pos (Nat.le_add_right _ _), Nat.add_sub_cancel_left]

/-- A frame keeps the account exactly when no buffer stays. -/
theorem Accounted.queueFrame_iff (h : s.Accounted) :
    (s.queueFrame frame).1.Accounted ↔ s.SettledStep (.queue frame) := by
  have hbytes := h.bytes
  have hmax := h.maxBytes
  have hframes := h.maxFrames
  obtain ⟨ahead, queued, behind, hqueue, hreplaced, hfits, heq⟩ | ⟨hnone, hrest⟩ := s.queueFrame_cases frame
  · have hremaining : s.remaining queued = ((ahead ++ behind).map queuedFrameBytes).sum := by
      refine remaining_eq ?_
      rw [hbytes, heldBytes, hqueue]
      simp only [List.map_append, List.map_cons, List.sum_append, List.sum_cons]
      omega
    -- what the queue holds is what it held, with one frame exchanged
    have hheld : heldBytes (s.queueFrame frame).1 =
        s.remaining queued + queuedFrameBytes (queued.moveAssign frame) := by
      rw [heq, heldBytes, hremaining]
      simp only [List.map_append, List.map_cons, List.sum_append, List.sum_cons]
      omega
    have hcount : (s.queueFrame frame).1.outgoingBytes = s.remaining queued + queuedFrameBytes frame := by
      rw [heq]
    have hstep : s.SettledStep (.queue frame) ↔ queued.Settled frame := by
      simp [SettledStep, hreplaced]
    rw [hstep]
    constructor
    · -- what is not settled is held and was not charged
      intro hafter
      by_contra hnot
      have hlt := queuedFrameBytes_moveAssign_lt hnot (by omega)
      have := hafter.bytes
      omega
    · intro hsettled
      have hsame := queuedFrameBytes_moveAssign hsettled
      refine ⟨?_, ?_, ?_⟩
      · rw [hheld, hsame, hcount]
      · rw [hheld, hsame]
        exact hfits
      · rw [heq]
        rw [hqueue] at hframes
        simpa using hframes
  · have hstep : s.SettledStep (.queue frame) := by simp [SettledStep, hnone]
    refine ⟨fun _ => hstep, fun _ => ?_⟩
    obtain heq | heq | ⟨hroom, hfits, heq⟩ := hrest
    · rwa [heq]
    · rw [heq]
      exact ⟨hbytes, hmax, hframes⟩
    · have hheld : heldBytes (s.queueFrame frame).1 = s.outgoingBytes + queuedFrameBytes frame := by
        rw [heq, heldBytes, hbytes, heldBytes]
        simp
      refine ⟨?_, ?_, ?_⟩
      · rw [hheld, heq]
      · rw [hheld]
        exact hfits
      · rw [heq, List.length_append]
        exact hroom

theorem Accounted.dequeue (h : s.Accounted) (hs : s.dequeue = some s') : s'.Accounted := by
  have hbytes := h.bytes
  have hmax := h.maxBytes
  have hframes := h.maxFrames
  unfold Outbox.dequeue at hs
  split at hs
  swap
  · cases hs
  rename_i frame rest _ hqueue
  obtain rfl := Option.some.inj hs
  have hsum : s.heldBytes = queuedFrameBytes frame + (rest.map queuedFrameBytes).sum := by
    rw [heldBytes, hqueue, List.map_cons, List.sum_cons]
  refine ⟨remaining_eq (hbytes.trans hsum), ?_, ?_⟩
  · show (rest.map queuedFrameBytes).sum ≤ _
    omega
  · rw [hqueue, List.length_cons] at hframes
    exact Nat.le_of_succ_le hframes

/-- **The outbox counts what it holds.** In every run in which no replacement leaves a buffer on
    the heap under a short string, the count is the sum over the frames in the queue, and neither
    it nor their number exceeds its limit. -/
theorem outbox_accounts (h : Lts.ReachUnder step SettledStep {} s) :
    s.outgoingBytes = (s.outgoing.map queuedFrameBytes).sum ∧
      (s.outgoing.map queuedFrameBytes).sum ≤ kNoteOutboxMaxBytes ∧
      s.outgoing.length ≤ kNoteOutboxMaxFrames := by
  have haccounted : s.Accounted := by
    refine h.invariant ⟨rfl, Nat.zero_le _, Nat.zero_le _⟩ ?_
    intro s s' op hi hg hs
    cases op with
    | queue frame => exact Option.some.inj hs ▸ hi.queueFrame_iff.mpr hg
    | dequeue => exact hi.dequeue hs
  exact ⟨haccounted.bytes, haccounted.maxBytes, haccounted.maxFrames⟩

/-- An edit of sixteen bytes, on the heap. -/
def longEdit : StoredFrame :=
  { revision := 1, text := { text := "sixteen bytes ..", heap := some 30, fits := by decide, large := by decide } }

/-- The pad is cleared. -/
def clearEdit : StoredFrame := { type := .clear, revision := 2 }

theorem outbox_accounts_long : ∃ s : Outbox, s.outgoing.length = 1 ∧
    s.outgoingBytes = (s.outgoing.map queuedFrameBytes).sum := by
  obtain ⟨s, hs, hlength⟩ := Lts.ReachUnder.exists_of_run step SettledStep {}
    [.queue clearEdit, .queue longEdit, .dequeue, .queue { longEdit with revision := 3 }]
    (fun s => s.outgoing.length = 1) (by decide +kernel) (by decide +kernel)
  exact ⟨s, of_decide_eq_true hlength, (outbox_accounts hs).1⟩

/-- A clear takes the place of an edit, and the edit's buffer stays: it is held, and not counted. -/
theorem replacement_uncounted : ¬ ∀ s : Outbox, Lts.Reach step {} s →
    s.outgoingBytes = (s.outgoing.map queuedFrameBytes).sum := by
  intro h
  obtain ⟨s, hs, hsum⟩ := Lts.Reach.exists_of_run step {} [.queue longEdit, .queue clearEdit]
    (fun s => s.outgoingBytes ≠ (s.outgoing.map queuedFrameBytes).sum) (by decide +kernel)
  exact of_decide_eq_true hsum (h s hs)

end Outbox

end Kiko.Note
