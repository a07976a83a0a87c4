import Kiko.Transfer.MuxSend

/-!
# Receiving one payload over many channels (`transfer/mux_receive_session`)

`MuxReceiveSession::receive` runs one reader per channel. A reader takes a frame off its
channel, checks and unpacks it, writes the chunk into the partial file and records the
range it wrote under the file lock, and then adds it to the count; `ChunkEnd` ends it.
Any error ends the reader that meets it and fails the session.

The chunks are written in whatever order the readers come, so what the partial file holds
is known through the record of written ranges: `RecvInv` says that the record covers the
chunks written and no more, and that on what it covers the file already is the target.

The file lock of the code makes two things one step: the write at the chunk's offset and
the record of the range. Counting comes after it, outside of the lock, which is why a
chunk that is written and not yet counted is a place of its own (`wrote`), and why
`counted` has to name what is still uncounted. Nothing is assumed about the order in
which the readers come, nor that a chunk comes only once; the record of ranges absorbs
both.
-/

set_option autoImplicit false

namespace Kiko.Transfer

/-- `record_written_range_locked`, with the growth of the prefix it returns. -/
def recordWrittenRange (ranges : Pieces.Ranges Nat) (offset size : Nat) :
    Pieces.Ranges Nat × Nat :=
  let ranges' := if size = 0 then ranges else ranges.add offset (offset + size)
  (ranges', ranges'.front - ranges.front)

theorem covered_recordWrittenRange (ranges : Pieces.Ranges Nat) (offset size : Nat) :
    (recordWrittenRange ranges offset size).1.covered =
      ranges.covered ∪ Set.Ico offset (offset + size) := by
  by_cases hsize : size = 0
  · simp [recordWrittenRange, hsize]
  · simp [recordWrittenRange, hsize, Pieces.Ranges.covered_add]

/-! ## Ranges in any order

The record by itself, over any calls. Positions are compared as sets of natural numbers:
the ranges of the code are half open, so `Set.Ico` and unions of it say exactly what is
covered. The sum of what the calls return is then a statement about the growth of one
number. -/

/-- The calls of one session, one after the other: the record they leave, and what each of them
    has returned. Ranges are given by offset and size; a file has at most `u64Max` bytes, so no
    end wraps. -/
def recordWrittenRanges (resumeOffset : Nat) (written : List (Nat × Nat)) :
    Pieces.Ranges Nat × List Nat :=
  written.foldl
    (fun acc range =>
      let recorded := recordWrittenRange acc.1 range.1 range.2
      (recorded.1, acc.2 ++ [recorded.2]))
    (.upTo resumeOffset, [])

/-- The positions of some ranges. -/
def rangePoints (written : List (Nat × Nat)) : Set Nat :=
  {x | ∃ range ∈ written, range.1 ≤ x ∧ x < range.1 + range.2}

theorem rangePoints_concat (written : List (Nat × Nat)) (range : Nat × Nat) :
    rangePoints (written ++ [range]) = rangePoints written ∪ Set.Ico range.1 (range.1 + range.2) := by
  ext x
  simp [rangePoints, or_and_right, exists_or]

theorem recordWrittenRanges_concat (resumeOffset : Nat) (written : List (Nat × Nat))
    (range : Nat × Nat) :
    recordWrittenRanges resumeOffset (written ++ [range]) =
      ((recordWrittenRange (recordWrittenRanges resumeOffset written).1 range.1 range.2).1,
        (recordWrittenRanges resumeOffset written).2 ++
          [(recordWrittenRange (recordWrittenRanges resumeOffset written).1 range.1 range.2).2]) := by
  simp [recordWrittenRanges]

/-- What a session has recorded is what there was at its start, and the ranges. -/
theorem covered_recordWrittenRanges (resumeOffset : Nat) (written : List (Nat × Nat)) :
    (recordWrittenRanges resumeOffset written).1.covered =
      Set.Iio resumeOffset ∪ rangePoints written := by
  induction written using List.reverseRecOn with
  | nil => simp [recordWrittenRanges, rangePoints]
  | append_singleton written range ih =>
    rw [recordWrittenRanges_concat, covered_recordWrittenRange, ih, rangePoints_concat, Set.union_assoc]

/-- What the calls have returned is how far the front has come. -/
theorem sum_recordWrittenRanges (resumeOffset : Nat) (written : List (Nat × Nat)) :
    (recordWrittenRanges resumeOffset written).1.front =
      resumeOffset + (recordWrittenRanges resumeOffset written).2.sum := by
  induction written using List.reverseRecOn with
  | nil => rfl
  | append_singleton written range ih =>
    have hle : (recordWrittenRanges resumeOffset written).1.front ≤
        (recordWrittenRange (recordWrittenRanges resumeOffset written).1 range.1 range.2).1.front := by
      apply Pieces.Ranges.front_le_of_covered
      rw [covered_recordWrittenRange]
      exact Set.subset_union_left
    rw [recordWrittenRanges_concat, List.sum_append, List.sum_singleton]
    simp only [recordWrittenRange] at hle ⊢
    omega

/-- **Written ranges are accounted for.** After any calls, in any order and with any overlap, the
    front is the largest position up to which everything from the resume offset on is written,
    the returned growths add up to the way it has come, and what is kept beyond it starts
    strictly beyond it. -/
theorem written_ranges_accounted (resumeOffset : Nat) (written : List (Nat × Nat)) :
    IsGreatest {p | resumeOffset ≤ p ∧ Set.Ico resumeOffset p ⊆ rangePoints written}
        (recordWrittenRanges resumeOffset written).1.front ∧
      (recordWrittenRanges resumeOffset written).2.sum =
        (recordWrittenRanges resumeOffset written).1.front - resumeOffset ∧
      ∀ range ∈ (recordWrittenRanges resumeOffset written).1.pending,
        (recordWrittenRanges resumeOffset written).1.front < range.1 := by
  have hsum := sum_recordWrittenRanges resumeOffset written
  refine ⟨?_, by omega, (recordWrittenRanges resumeOffset written).1.ahead⟩
  exact Pieces.Ranges.isGreatest_front (covered_recordWrittenRanges resumeOffset written) (by omega)

example : (recordWrittenRanges 2 [(6, 2), (2, 1), (3, 4)]).1.front = 8 := by decide

/-! ## A payload

The checks of the code in its order, each with its own error. A packed chunk passes all
of them (`unpackChunk_packChunk`), which is what an honest sender needs; what a dishonest
one can do is bounded in `Kiko.Transfer.DeclaredSize`. -/

/-- What a `MuxReceiveSession` is told about its payload. -/
structure PayloadParams where
  relative : String
  declaredSize : Nat
  resumeOffset : Nat
  useZstd : Bool
deriving DecidableEq, Repr

/-- The receiver's view of a payload. -/
def Job.params (job : Job) : PayloadParams :=
  { relative := job.relative
    declaredSize := job.content.length
    resumeOffset := job.offset
    useZstd := job.useZstd }

section Unpacking

variable (codec : BlockCodec) (params : PayloadParams)

/-- What a reader makes of a data payload, checks in order. -/
def unpackChunk (payload : Bytes) : Except KikoError Chunk :=
  if payload.length < 12 then .error "short data frame"
  else
    let offset := readU64 payload
    let rawLen := readU32 (payload.drop 8)
    if kMuxChunk < rawLen then .error ("mux data chunk too large for " ++ params.relative)
    else if offset < params.resumeOffset then
      .error ("mux data before resume offset for " ++ params.relative)
    else do
      ensureDeclaredSpace offset params.declaredSize rawLen params.relative
      let body := payload.drop 12
      let plain ← if params.useZstd then codec.decompress body rawLen
        else if body.length ≠ rawLen then .error "uncompressed chunk size mismatch"
        else .ok body
      if plain.length ≠ rawLen then .error "mux decoded chunk size mismatch"
      else
        ensureDeclaredSpace offset params.declaredSize plain.length params.relative
        .ok { offset := offset, bytes := plain }

/-- What a reader makes of a frame: a chunk, the end of the file, or an error. -/
def readFrame (frame : Frame) : Except KikoError (Option Chunk) :=
  match frame with
  | .chunkEnd => .ok none
  | .data payload => (unpackChunk codec params payload).map some
  | _ => .error "unexpected frame on data channel"

/-- **A packed chunk is unpacked.** -/
theorem unpackChunk_packChunk {job : Job} {c : Chunk} (h : c ∈ job.chunks) :
    unpackChunk codec job.params (packChunk codec job.useZstd c) = .ok c := by
  obtain ⟨-, hoff, hstop, hlen⟩ := Job.chunk_bounds h
  have hfits := job.fits
  unfold Pieces.Piece.stop at hstop
  have hraw : c.bytes.length < 2 ^ 32 := by unfold kMuxChunk at hlen; omega
  have hl64 : (putU64 c.offset).length = 8 := length_putBytes 8 _
  have hl32 : (putU32 c.bytes.length).length = 4 := length_putBytes 4 _
  -- the three parts of a frame: offset, length, body
  have hoffset : readU64 (packChunk codec job.useZstd c) = c.offset := by
    rw [packChunk, List.append_assoc]
    exact readU64_putU64 (by omega) _
  have hrawLen : readU32 ((packChunk codec job.useZstd c).drop 8) = c.bytes.length := by
    rw [packChunk, List.append_assoc, List.drop_left' hl64]
    exact readU32_putU32 hraw _
  have hbody : (packChunk codec job.useZstd c).drop 12 =
      if job.useZstd then codec.compress c.bytes else c.bytes := by
    rw [packChunk, List.drop_left' (by simp [hl64, hl32])]
  have hshort : ¬ (packChunk codec job.useZstd c).length < 12 := by
    simp only [packChunk, List.length_append, hl64, hl32]
    omega
  -- the checks pass for a chunk of the job
  have hspace : ensureDeclaredSpace c.offset job.params.declaredSize c.bytes.length
      job.params.relative = .ok () := ensureDeclaredSpace_ok hstop
  have hlarge : ¬ kMuxChunk < c.bytes.length := Nat.not_lt.mpr hlen
  have hbefore : ¬ c.offset < job.params.resumeOffset := Nat.not_lt.mpr hoff
  have hzstd : job.params.useZstd = job.useZstd := rfl
  simp only [unpackChunk, if_neg hshort, hoffset, hrawLen, hbody, if_neg hlarge,
    if_neg hbefore, hspace, hzstd]
  by_cases hz : job.useZstd = true
  · simp [hz, codec.lossless, hspace, bind, Except.bind]
  · simp [hz, hspace, bind, Except.bind]

/-- What a worker sends, a reader takes. -/
theorem readFrame_data {job : Job} {c : Chunk} (h : c ∈ job.chunks) :
    readFrame codec job.params (.data (packChunk codec job.useZstd c)) = .ok (some c) := by
  simp [readFrame, unpackChunk_packChunk codec h, Except.map]

end Unpacking

/-- Where a reader stands. -/
inductive ReaderPc
  | reading
  /-- a chunk is unpacked, the file lock is next -/
  | decoded (chunk : Chunk)
  /-- a chunk of this size is written, the prefix grew by `delta`; the count is next -/
  | wrote (size delta : Nat)
  | done
  | failed
deriving DecidableEq, Repr

namespace ReaderPc

/-- The chunk unpacked and not yet written. -/
def unwritten : ReaderPc → List Chunk
  | .decoded chunk => [chunk]
  | _ => []

/-- The bytes written and not yet counted. -/
def uncounted : ReaderPc → Nat
  | .wrote size _ => size
  | _ => 0

/-- The thread is over. -/
def stopped : ReaderPc → Bool
  | .done | .failed => true
  | _ => false

end ReaderPc

/-- One reader. -/
structure Tap where
  pc : ReaderPc := .reading
  /-- history: the chunks received here -/
  received : List Chunk := []
  /-- history: the frames taken here -/
  got : List Frame := []
deriving DecidableEq, Repr

/-- `MuxReceiveSession`; `part` is the partial file it writes, `advanced` the progress it
    has reported. -/
structure MuxRecv (n : Nat) where
  part : Bytes
  written : Nat
  ranges : Pieces.Ranges Nat
  advanced : Nat := 0
  taps : Fin n → Tap := fun _ => {}
  error : Option KikoError := none
  /-- history: the chunks written, in order -/
  log : List Chunk := []

namespace MuxRecv

variable {n : Nat} (codec : BlockCodec) (params : PayloadParams)

/-! ## The operations

As on the sending side: partial functions, one for each stretch of the code between two
locks, with the histories `got` and `received` and the log of what was written for the
invariant. -/

/-- The session at its start, over the partial file as it stands. -/
def start (n : Nat) (part : Bytes) (resumeOffset : Nat) : MuxRecv n :=
  { part := part, written := resumeOffset, ranges := .upTo resumeOffset }

def setTap (r : MuxRecv n) (k : Fin n) (tap : Tap) : MuxRecv n :=
  { r with taps := Function.update r.taps k tap }

@[simp] theorem setTap_taps_self (r : MuxRecv n) (k : Fin n) (tap : Tap) :
    (r.setTap k tap).taps k = tap := Function.update_self ..

@[simp] theorem setTap_taps_of_ne (r : MuxRecv n) {k j : Fin n} (tap : Tap) (h : j ≠ k) :
    (r.setTap k tap).taps j = r.taps j := Function.update_of_ne h ..

/-- `record_failure`, in the reader of channel `k`. -/
def recordFailure (r : MuxRecv n) (k : Fin n) (error : KikoError) : MuxRecv n :=
  { r with error := some (r.error.getD error) }.setTap k { r.taps k with pc := .failed }

/-- A reader takes the frame at the front of its channel. -/
def accept (k : Fin n) (frame : Frame) (r : MuxRecv n) : Option (MuxRecv n) :=
  if (r.taps k).pc = .reading then
    let tap : Tap := { r.taps k with got := (r.taps k).got ++ [frame] }
    match readFrame codec params frame with
    | .ok none => some (r.setTap k { tap with pc := .done })
    | .ok (some chunk) =>
      some (r.setTap k { tap with pc := .decoded chunk, received := tap.received ++ [chunk] })
    | .error error => some ((r.setTap k tap).recordFailure k error)
  else none

/-- A reader finds its channel closed, or its receive throws. -/
def fail (k : Fin n) (error : KikoError) (r : MuxRecv n) : Option (MuxRecv n) :=
  if (r.taps k).pc = .reading then some (r.recordFailure k error) else none

/-- A reader, under the file lock, writes its chunk and records the range. -/
def write (k : Fin n) (r : MuxRecv n) : Option (MuxRecv n) :=
  match (r.taps k).pc with
  | .decoded chunk =>
    let recorded := recordWrittenRange r.ranges chunk.offset chunk.bytes.length
    some ({ r with
      part := Pieces.overwrite 0 r.part chunk.offset chunk.bytes
      ranges := recorded.1
      log := r.log ++ [chunk] }.setTap k
        { r.taps k with pc := .wrote chunk.bytes.length recorded.2 })
  | _ => none

/-- A reader adds its chunk to the count and reports the growth of the prefix. -/
def count (k : Fin n) (r : MuxRecv n) : Option (MuxRecv n) :=
  match (r.taps k).pc with
  | .wrote size delta =>
    some ({ r with written := r.written + size, advanced := r.advanced + delta }.setTap k
      { r.taps k with pc := .reading })
  | _ => none

/-- Every reader is joined. -/
def joined (r : MuxRecv n) : Prop := ∀ k, (r.taps k).pc.stopped = true

instance (r : MuxRecv n) : Decidable r.joined := inferInstanceAs (Decidable (∀ _, _))

/-- `truncate_partial_to_contiguous_prefix`, on a file that can be cut. -/
def truncated (r : MuxRecv n) : Bytes := r.part.take r.ranges.front

/-- The end of `receive`: what it answers, and the partial file it leaves. -/
def result (r : MuxRecv n) : Except KikoError Nat × Bytes :=
  match r.error with
  | some error => (.error ("mux receive failed: " ++ error), r.truncated)
  | none => (.ok r.written, r.part)

/-! ## The invariant

`covered` says that the record is what was there at the start and the chunks of the log.
`agrees` says that on what is covered the file is the target. The two together are what
makes the front mean something: everything below it is right, in whatever order it came. -/

variable {codec} {params} {job : Job} {r r' : MuxRecv n} {k : Fin n}

/-- The chunks received so far, over all channels. -/
def receivedChunks (r : MuxRecv n) : Multiset Chunk := ∑ k, ((r.taps k).received : Multiset Chunk)

/-- The chunks unpacked and not yet written. -/
def unwritten (r : MuxRecv n) : Multiset Chunk := ∑ k, ((r.taps k).pc.unwritten : Multiset Chunk)

/-- The bytes written and not yet counted. -/
def uncounted (r : MuxRecv n) : Nat := ∑ k, (r.taps k).pc.uncounted

/-- The positions the chunks in `log` stand at. -/
def writtenTo (log : List Chunk) : Set Nat := {x | ∃ c ∈ log, c.offset ≤ x ∧ x < c.stop}

/-- What every operation of the session keeps, as long as what it takes are chunks of the
    file. -/
structure Inv (job : Job) (r : MuxRecv n) : Prop where
  /-- every chunk received is written or about to be -/
  account : r.receivedChunks = (r.log : Multiset Chunk) + r.unwritten
  genuine : ∀ k, ∀ c ∈ (r.taps k).received, c ∈ job.chunks
  counted : r.written + r.uncounted = job.offset + (r.log.map (·.bytes.length)).sum
  /-- the record covers what was there and what was written, and nothing else -/
  covered : r.ranges.covered = Set.Iio job.offset ∪ writtenTo r.log
  agrees : Pieces.AgreesOn r.ranges.covered r.part job.target
  length : r.part.length ≤ job.content.length
  failed : ∀ k, (r.taps k).pc = .failed → r.error ≠ none

theorem start_inv (n : Nat) (job : Job) : (start n job.prior job.offset).Inv job where
  account := by simp [receivedChunks, unwritten, start, ReaderPc.unwritten]
  genuine _ c hc := by simp [start] at hc
  counted := by simp [start, uncounted, ReaderPc.uncounted]
  covered := by simp [start, writtenTo]
  agrees x hx := by
    simp only [start, Pieces.Ranges.covered_upTo, Set.mem_Iio] at hx
    unfold Job.target
    exact (List.getElem?_append_left hx).symm
  length := job.resumes
  failed _ h := by cases h

theorem Inv.mem_log (h : r.Inv job) {c : Chunk} (hc : c ∈ r.log) : c ∈ job.chunks := by
  have hmem : c ∈ r.receivedChunks := by
    rw [h.account]
    exact Multiset.mem_add.mpr (.inl (Multiset.mem_coe.mpr hc))
  obtain ⟨k, -, hk⟩ := Multiset.mem_sum.mp hmem
  exact h.genuine k c (Multiset.mem_coe.mp hk)

theorem Inv.mem_unwritten (h : r.Inv job) {c : Chunk} (hc : (r.taps k).pc = .decoded c) :
    c ∈ job.chunks := by
  have hmem : c ∈ r.receivedChunks := by
    rw [h.account]
    refine Multiset.mem_add.mpr (.inr (Multiset.mem_sum.mpr ⟨k, Finset.mem_univ k, ?_⟩))
    simp [hc, ReaderPc.unwritten]
  obtain ⟨j, -, hj⟩ := Multiset.mem_sum.mp hmem
  exact h.genuine j c (Multiset.mem_coe.mp hj)

theorem receivedChunks_setTap (r : MuxRecv n) (k : Fin n) (tap : Tap) :
    (r.setTap k tap).receivedChunks + ((r.taps k).received : Multiset Chunk) =
      r.receivedChunks + (tap.received : Multiset Chunk) :=
  Pieces.sum_update r.taps k tap fun t => (t.received : Multiset Chunk)

theorem unwritten_setTap (r : MuxRecv n) (k : Fin n) {tap : Tap} {old new : List Chunk}
    (hold : (r.taps k).pc.unwritten = old) (hnew : tap.pc.unwritten = new) :
    (r.setTap k tap).unwritten + (old : Multiset Chunk) =
      r.unwritten + (new : Multiset Chunk) := by
  rw [← hold, ← hnew]
  exact Pieces.sum_update r.taps k tap fun t => (t.pc.unwritten : Multiset Chunk)

theorem uncounted_setTap (r : MuxRecv n) (k : Fin n) {tap : Tap} {old new : Nat}
    (hold : (r.taps k).pc.uncounted = old) (hnew : tap.pc.uncounted = new) :
    (r.setTap k tap).uncounted + old = r.uncounted + new := by
  rw [← hold, ← hnew]
  exact Pieces.sum_update r.taps k tap fun t => t.pc.uncounted

/-- A step of one reader that neither receives nor writes nor counts. -/
theorem Inv.setTap (h : r.Inv job) {tap : Tap} (hrec : tap.received = (r.taps k).received)
    (hunw : tap.pc.unwritten = (r.taps k).pc.unwritten)
    (hunc : tap.pc.uncounted = (r.taps k).pc.uncounted)
    (hfail : tap.pc = .failed → r.error ≠ none) : (r.setTap k tap).Inv job where
  account := by
    have hr := receivedChunks_setTap r k tap
    have hu := unwritten_setTap r k rfl hunw
    rw [hrec] at hr
    rw [add_right_cancel hr, add_right_cancel hu]
    exact h.account
  genuine j c hc := by
    by_cases hj : j = k
    · subst hj
      rw [setTap_taps_self, hrec] at hc
      exact h.genuine j c hc
    · rw [setTap_taps_of_ne _ _ hj] at hc
      exact h.genuine j c hc
  counted := by
    rw [Nat.add_right_cancel (uncounted_setTap r k rfl hunc)]
    exact h.counted
  covered := h.covered
  agrees := h.agrees
  length := h.length
  failed j hj := by
    by_cases hjk : j = k
    · subst hjk
      rw [setTap_taps_self] at hj
      exact hfail hj
    · rw [setTap_taps_of_ne _ _ hjk] at hj
      exact h.failed j hj

theorem Inv.setError (h : r.Inv job) (error : KikoError) :
    ({ r with error := some error } : MuxRecv n).Inv job :=
  { h with failed := fun _ _ => by simp }

/-- A reader that has nothing in hand can fail. -/
theorem Inv.recordFailure (h : r.Inv job) (hpc : (r.taps k).pc = .reading) (error : KikoError) :
    (r.recordFailure k error).Inv job :=
  (h.setError _).setTap rfl (by simp [hpc, ReaderPc.unwritten])
    (by simp [hpc, ReaderPc.uncounted]) fun _ => by simp

theorem Inv.fail (h : r.Inv job) {error : KikoError} (hs : r.fail k error = some r') :
    r'.Inv job := by
  unfold MuxRecv.fail at hs
  split_ifs at hs with hpc
  obtain rfl := Option.some.inj hs
  exact h.recordFailure hpc error

/-- The end mark ends the reader. -/
theorem accept_chunkEnd (hpc : (r.taps k).pc = .reading) :
    r.accept codec params k .chunkEnd = some (r.setTap k
      { r.taps k with pc := .done, got := (r.taps k).got ++ [.chunkEnd] }) := by
  simp [accept, hpc, readFrame]

/-- A chunk of the file is unpacked. -/
theorem accept_data (hpc : (r.taps k).pc = .reading) {c : Chunk} (hc : c ∈ job.chunks) :
    r.accept codec job.params k (.data (packChunk codec job.useZstd c)) = some (r.setTap k
      { pc := .decoded c
        received := (r.taps k).received ++ [c]
        got := (r.taps k).got ++ [.data (packChunk codec job.useZstd c)] }) := by
  simp [accept, hpc, readFrame_data codec hc]

theorem Inv.accept_chunkEnd (h : r.Inv job) (hpc : (r.taps k).pc = .reading) :
    (r.setTap k { r.taps k with pc := .done, got := (r.taps k).got ++ [.chunkEnd] }).Inv job :=
  h.setTap rfl (by simp [hpc, ReaderPc.unwritten]) (by simp [hpc, ReaderPc.uncounted])
    fun hf => by cases hf

theorem Inv.accept_data (h : r.Inv job) (hpc : (r.taps k).pc = .reading) {c : Chunk}
    (hc : c ∈ job.chunks) {got : List Frame} :
    (r.setTap k
      { pc := .decoded c, received := (r.taps k).received ++ [c], got := got }).Inv job where
  account := by
    have hr := receivedChunks_setTap r k
      { pc := .decoded c, received := (r.taps k).received ++ [c], got := got }
    have hu : (r.setTap k
        { pc := .decoded c, received := (r.taps k).received ++ [c], got := got }).unwritten +
          (([] : List Chunk) : Multiset Chunk) = r.unwritten + ([c] : List Chunk) :=
      unwritten_setTap _ _ (by rw [hpc]; rfl) rfl
    have hlog : (r.setTap k
        { pc := .decoded c, received := (r.taps k).received ++ [c], got := got }).log = r.log := rfl
    rw [Multiset.coe_nil, add_zero] at hu
    -- The chunk is received now and not yet written: both sides of the account grow by
    -- it.
    apply add_right_cancel (b := ((r.taps k).received : Multiset Chunk))
    rw [hr, hu, hlog, h.account, ← Multiset.coe_add]
    abel
  genuine j c' hc' := by
    by_cases hj : j = k
    · subst hj
      rw [setTap_taps_self] at hc'
      rcases List.mem_append.mp hc' with hc' | hc'
      · exact h.genuine j c' hc'
      · exact List.mem_singleton.mp hc' ▸ hc
    · rw [setTap_taps_of_ne _ _ hj] at hc'
      exact h.genuine j c' hc'
  counted := by
    have hu : (r.setTap k
        { pc := .decoded c, received := (r.taps k).received ++ [c], got := got }).uncounted + 0 =
          r.uncounted + 0 := uncounted_setTap _ _ (by rw [hpc]; rfl) rfl
    rw [Nat.add_right_cancel hu]
    exact h.counted
  covered := h.covered
  agrees := h.agrees
  length := h.length
  failed j hj := by
    by_cases hjk : j = k
    · subst hjk
      rw [setTap_taps_self] at hj
      cases hj
    · rw [setTap_taps_of_ne _ _ hjk] at hj
      exact h.failed j hj

theorem write_cases (hs : r.write k = some r') :
    ∃ chunk, (r.taps k).pc = .decoded chunk ∧
      r' = { r with
        part := Pieces.overwrite 0 r.part chunk.offset chunk.bytes
        ranges := (recordWrittenRange r.ranges chunk.offset chunk.bytes.length).1
        log := r.log ++ [chunk] }.setTap k { r.taps k with
          pc := .wrote chunk.bytes.length
            (recordWrittenRange r.ranges chunk.offset chunk.bytes.length).2 } := by
  unfold write at hs
  split at hs
  next chunk hpc => exact ⟨chunk, hpc, (Option.some.inj hs).symm⟩
  next => cases hs

/-- **Writing a chunk**: the file agrees with its target on one more range. -/
theorem Inv.write (h : r.Inv job) (hs : r.write k = some r') : r'.Inv job := by
  obtain ⟨chunk, hpc, rfl⟩ := write_cases hs
  obtain ⟨hslice, hoff, hstop, -⟩ := Job.chunk_bounds (h.mem_unwritten hpc)
  set r₁ : MuxRecv n := { r with
    part := Pieces.overwrite 0 r.part chunk.offset chunk.bytes
    ranges := (recordWrittenRange r.ranges chunk.offset chunk.bytes.length).1
    log := r.log ++ [chunk] } with hr₁
  set tap : Tap := { r.taps k with
    pc := .wrote chunk.bytes.length
      (recordWrittenRange r.ranges chunk.offset chunk.bytes.length).2 } with htap
  -- What the record covers grows by exactly the range of the chunk.
  have hcov : r₁.ranges.covered = r.ranges.covered ∪ Set.Ico chunk.offset chunk.stop :=
    covered_recordWrittenRange _ _ _
  refine {
    account := ?_
    genuine := fun j c hc => h.genuine j c ?_
    counted := ?_
    covered := ?_
    agrees := ?_
    length := ?_
    failed := fun j hj => h.failed j ?_ }
  · -- the chunk goes from the hand to the log
    have hr := receivedChunks_setTap r₁ k tap
    have hrec : (r₁.taps k).received = tap.received := rfl
    rw [hrec] at hr
    have hold : (r₁.taps k).pc.unwritten = [chunk] := by
      change (r.taps k).pc.unwritten = [chunk]
      rw [hpc]
      rfl
    have hu : (r₁.setTap k tap).unwritten + (([chunk] : List Chunk) : Multiset Chunk) =
        r₁.unwritten + (([] : List Chunk) : Multiset Chunk) := unwritten_setTap _ _ hold rfl
    rw [Multiset.coe_nil, add_zero] at hu
    have hacc : r₁.receivedChunks = (r.log : Multiset Chunk) + r₁.unwritten := h.account
    have hlog : ((r₁.setTap k tap).log : Multiset Chunk) = (r.log : Multiset Chunk) + [chunk] :=
      (Multiset.coe_add r.log [chunk]).symm
    rw [add_right_cancel hr, hacc, ← hu, hlog, add_assoc]
    congr 1
    exact add_comm _ _
  · by_cases hj : j = k
    · subst hj
      rwa [setTap_taps_self] at hc
    · rwa [setTap_taps_of_ne _ _ hj] at hc
  · have hold : (r₁.taps k).pc.uncounted = 0 := by
      change (r.taps k).pc.uncounted = 0
      rw [hpc]
      rfl
    have hu : (r₁.setTap k tap).uncounted + 0 = r₁.uncounted + chunk.bytes.length :=
      uncounted_setTap _ _ hold rfl
    have hsum : r₁.uncounted = r.uncounted := rfl
    have hlog : ((r₁.setTap k tap).log.map (·.bytes.length)).sum =
        (r.log.map (·.bytes.length)).sum + chunk.bytes.length := by
      change ((r.log ++ [chunk]).map (·.bytes.length)).sum = _
      simp
    have hw : (r₁.setTap k tap).written = r.written := rfl
    have := h.counted
    omega
  -- the new chunk joins the log, and its range what is covered
  · change r₁.ranges.covered = Set.Iio job.offset ∪ writtenTo (r.log ++ [chunk])
    rw [hcov, h.covered, Set.union_assoc]
    congr 1
    ext x
    simp [writtenTo, or_and_right, exists_or]
  · change Pieces.AgreesOn r₁.ranges.covered r₁.part job.target
    rw [hcov]
    refine h.agrees.overwrite 0 ?_ hslice
    rw [h.covered, Job.length_target]
    rintro x (hx | ⟨c, hc, hx⟩)
    · exact lt_of_lt_of_le hx job.resumes
    · exact lt_of_lt_of_le hx.2 (Job.chunk_bounds (h.mem_log hc)).2.2.1
  · exact (Pieces.length_overwrite_le _ _ _ _).trans (max_le h.length hstop)
  · by_cases hjk : j = k
    · subst hjk
      rw [setTap_taps_self] at hj
      cases hj
    · rwa [setTap_taps_of_ne _ _ hjk] at hj

theorem count_cases (hs : r.count k = some r') :
    ∃ size delta, (r.taps k).pc = .wrote size delta ∧
      r' = { r with written := r.written + size, advanced := r.advanced + delta }.setTap k
        { r.taps k with pc := .reading } := by
  unfold count at hs
  split at hs
  next size delta hpc => exact ⟨size, delta, hpc, (Option.some.inj hs).symm⟩
  next => cases hs

theorem Inv.count (h : r.Inv job) (hs : r.count k = some r') : r'.Inv job := by
  obtain ⟨size, delta, hpc, rfl⟩ := count_cases hs
  set r₁ : MuxRecv n := { r with written := r.written + size, advanced := r.advanced + delta }
  have hsame : r₁.taps = r.taps := rfl
  refine {
    account := ?_
    genuine := fun j c hc => h.genuine j c ?_
    counted := ?_
    covered := h.covered
    agrees := h.agrees
    length := h.length
    failed := fun j hj => h.failed j ?_ }
  · have hr := receivedChunks_setTap r₁ k { r.taps k with pc := .reading }
    have hu : (r₁.setTap k { r.taps k with pc := .reading }).unwritten +
        (([] : List Chunk) : Multiset Chunk) = r₁.unwritten + (([] : List Chunk) : Multiset Chunk) :=
      unwritten_setTap _ _ (by rw [hsame, hpc]; rfl) rfl
    rw [hsame] at hr
    rw [add_right_cancel hr, add_right_cancel hu]
    exact h.account
  · by_cases hj : j = k
    · subst hj
      rwa [setTap_taps_self] at hc
    · rwa [setTap_taps_of_ne _ _ hj] at hc
  -- the chunk was counted as written before, and what is uncounted gets less by its size
  · have hu : (r₁.setTap k { r.taps k with pc := .reading }).uncounted + size =
        r₁.uncounted + 0 := uncounted_setTap _ _ (by rw [hsame, hpc]; rfl) rfl
    have hsum : r₁.uncounted = r.uncounted := rfl
    have := h.counted
    have hw : (r₁.setTap k { r.taps k with pc := .reading }).written = r.written + size := rfl
    have hlog : (r₁.setTap k { r.taps k with pc := .reading }).log = r.log := rfl
    rw [hw, hlog]
    omega
  · by_cases hjk : j = k
    · subst hjk
      rw [setTap_taps_self] at hj
      cases hj
    · rwa [setTap_taps_of_ne _ _ hjk] at hj

/-! ## What it says -/

/-- **A failed session leaves a resumable file**: cut back to the front, the partial file
    holds the beginning of the target. -/
theorem Inv.truncated_eq (h : r.Inv job) : r.truncated = job.target.take r.ranges.front := by
  refine List.ext_getElem? fun x => ?_
  rw [truncated, List.getElem?_take, List.getElem?_take]
  split_ifs with hx
  · exact h.agrees x (r.ranges.Iio_front_subset hx)
  · rfl

/-- **Once every chunk of the file is written, the file is there**: the partial file is the
    target, and both counts are its size. -/
theorem Inv.complete (h : r.Inv job) (hlog : (r.log : Multiset Chunk) = job.chunks) :
    r.part = job.target ∧ r.ranges.front = job.content.length ∧
      r.written + r.uncounted = job.content.length := by
  have hres : job.offset ≤ job.content.length := job.resumes
  have hperm : r.log.Perm job.chunks := Multiset.coe_eq_coe.mp hlog
  have hcov : r.ranges.covered = Set.Iio job.content.length := by
    rw [h.covered]
    ext x
    have hmem : x ∈ writtenTo r.log ↔ job.offset ≤ x ∧ x < job.content.length := by
      have hcut := Pieces.mem_cut_iff kMuxChunk_pos job.offset (job.content.drop job.offset) x
      rw [List.length_drop, Nat.add_sub_cancel' hres] at hcut
      rw [← hcut]
      exact exists_congr fun c => and_congr_left fun _ => hperm.mem_iff
    simp only [Set.mem_union, hmem, Set.mem_Iio]
    omega
  refine ⟨?_, Pieces.Ranges.front_eq_of_covered hcov, ?_⟩
  · refine Pieces.AgreesOn.eq ?_ (by rw [Job.length_target]; exact h.length)
    rw [Job.length_target, ← hcov]
    exact h.agrees
  · rw [h.counted, (hperm.map _).sum_eq, Job.chunks, Pieces.sum_length_cut kMuxChunk_pos,
      List.length_drop, Nat.add_sub_cancel' hres]

end MuxRecv
end Kiko.Transfer
