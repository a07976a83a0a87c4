import Kiko.Transfer.ProgressStream

/-!
# What is shown of `receive_files_mux`

Over many channels the readers report how far the file is written without a gap: a reader finds
the growth of the front under the file lock and reports it when it has let go. What is shown of the
open file is its resume offset and what was reported; with what the readers have found and not
reported yet it is the front itself, so it stays within the partial file and within the
declared size, whatever the peer puts into its chunks.

The front is known under the lock and reported outside of it, so two readers may report in the
other order than they found. The sum of reported and unreported growth is what the invariant is
about (`Front`); each reader takes part in it with what it holds, and joining the readers leaves
nothing unreported.
-/

set_option autoImplicit false

namespace Kiko.Transfer

open Lexical FileTree Effect

/-! ## The readers

Only a write moves the front, and only the reader that has moved it has something to report. -/

/-- The growth of the front that was found and not reported. -/
def ReaderPc.unreported : ReaderPc → Nat
  | .wrote _ delta => delta
  | _ => 0

def MuxRecv.unreported {n : Nat} (recv : MuxRecv n) : Nat := ∑ k, (recv.taps k).pc.unreported

/-- What the readers have written lies in the file, and in what was declared of it. -/
structure Front {n : Nat} (s : PayloadSession) (recv : MuxRecv n) : Prop where
  decoded : ∀ k chunk, (recv.taps k).pc = .decoded chunk →
    chunk.offset + chunk.bytes.length ≤ s.setup.declaredSize
  declared : recv.ranges.covered ⊆ Set.Iio s.setup.declaredSize
  stored : recv.ranges.covered ⊆ Set.Iio recv.part.length
  reported : s.resumeOffset + recv.advanced + recv.unreported = recv.ranges.front

section Readers

variable {n : Nat} {codec : BlockCodec} {s : PayloadSession} {recv recv' : MuxRecv n} {k : Fin n}
  {tap : Tap}

theorem front_le {r : Pieces.Ranges Nat} {bound : Nat} (h : r.covered ⊆ Set.Iio bound) :
    r.front ≤ bound := by
  by_contra hlt
  have hmem : bound ∈ Set.Iio bound := h (r.Iio_front_subset (not_le.mp hlt))
  exact lt_irrefl bound hmem

theorem Front.shown_le (hf : Front s recv) :
    s.resumeOffset + recv.advanced ≤ s.setup.declaredSize ∧
      s.resumeOffset + recv.advanced ≤ recv.part.length := by
  have hreported := hf.reported
  have hdeclared := front_le hf.declared
  have hstored := front_le hf.stored
  omega

theorem unreported_setTap (recv : MuxRecv n) (k : Fin n) (tap : Tap) :
    (recv.setTap k tap).unreported + (recv.taps k).pc.unreported =
      recv.unreported + tap.pc.unreported :=
  Pieces.sum_update recv.taps k tap fun t => t.pc.unreported

theorem front_start (hoffset : s.resumeOffset = s.hashed.length)
    (hfits : s.resumeOffset ≤ s.setup.declaredSize) :
    Front s (MuxRecv.start n s.hashed s.resumeOffset) where
  decoded k chunk hk := by cases hk
  declared := by
    show (Pieces.Ranges.upTo s.resumeOffset).covered ⊆ _
    rw [Pieces.Ranges.covered_upTo]
    exact Set.Iio_subset_Iio hfits
  stored := by
    show (Pieces.Ranges.upTo s.resumeOffset).covered ⊆ _
    rw [Pieces.Ranges.covered_upTo]
    exact Set.Iio_subset_Iio hoffset.le
  reported := by
    have hnone : (MuxRecv.start n s.hashed s.resumeOffset).unreported = 0 :=
      Finset.sum_eq_zero fun _ _ => rfl
    rw [hnone]
    rfl

/-- Where one reader is elsewhere, the chunks in the readers' hands still fit. -/
theorem Front.decoded_setTap (hf : Front s recv)
    (htap : ∀ chunk, tap.pc = .decoded chunk →
      chunk.offset + chunk.bytes.length ≤ s.setup.declaredSize) (j : Fin n) (chunk : Chunk)
    (hj : ((recv.setTap k tap).taps j).pc = .decoded chunk) :
    chunk.offset + chunk.bytes.length ≤ s.setup.declaredSize := by
  by_cases hjk : j = k
  · subst hjk
    rw [MuxRecv.setTap_taps_self] at hj
    exact htap chunk hj
  · rw [MuxRecv.setTap_taps_of_ne _ _ hjk] at hj
    exact hf.decoded j chunk hj

/-- A reader goes on with nothing new to report. -/
theorem Front.setTap (hf : Front s recv) (hquiet : tap.pc.unreported = (recv.taps k).pc.unreported)
    (htap : ∀ chunk, tap.pc = .decoded chunk →
      chunk.offset + chunk.bytes.length ≤ s.setup.declaredSize) :
    Front s (recv.setTap k tap) where
  decoded := hf.decoded_setTap htap
  declared := hf.declared
  stored := hf.stored
  reported := by
    have hsum := unreported_setTap recv k tap
    rw [hquiet] at hsum
    rw [Nat.add_right_cancel hsum]
    exact hf.reported

theorem Front.recordFailure (hf : Front s recv) (hpc : (recv.taps k).pc = .reading) (e : KikoError) :
    Front s (recv.recordFailure k e) := by
  have hsame : Front s { recv with error := some (recv.error.getD e) } :=
    ⟨hf.decoded, hf.declared, hf.stored, hf.reported⟩
  apply hsame.setTap
  · show 0 = (recv.taps k).pc.unreported
    rw [hpc]
    rfl
  · intro chunk hchunk
    cases hchunk

/-- A chunk that is unpacked lies where the session may write. -/
theorem unpackChunk_stop {params : PayloadParams} {payload : Bytes} {chunk : Chunk}
    (h : unpackChunk codec params payload = .ok chunk) :
    chunk.offset + chunk.bytes.length ≤ params.declaredSize := by
  unfold unpackChunk at h
  dsimp only at h
  split_ifs at h with hshort hlarge hbefore <;>
  · obtain ⟨_, -, h⟩ := exists_of_bind_ok h
    obtain ⟨plain, -, h⟩ := exists_of_bind_ok h
    split_ifs at h
    obtain ⟨_, hspace, h⟩ := exists_of_bind_ok h
    obtain rfl := Except.ok.inj h
    unfold ensureDeclaredSpace at hspace
    split_ifs at hspace with hover
    show readU64 payload + plain.length ≤ params.declaredSize
    omega

theorem readFrame_stop {params : PayloadParams} {frame : Frame} {chunk : Chunk}
    (h : readFrame codec params frame = .ok (some chunk)) :
    chunk.offset + chunk.bytes.length ≤ params.declaredSize := by
  cases frame with
  | data payload =>
    simp only [readFrame] at h
    cases hunpack : unpackChunk codec params payload with
    | error e =>
      rw [hunpack] at h
      cases h
    | ok c =>
      rw [hunpack] at h
      obtain rfl := Option.some.inj (Except.ok.inj h)
      exact unpackChunk_stop hunpack
  | _ => cases h

/-- A frame is taken off a channel: nothing is written, nothing is reported. -/
theorem Front.accept (hf : Front s recv) {frame : Frame}
    (h : recv.accept codec s.params k frame = some recv') :
    Front s recv' ∧ recv'.part = recv.part ∧ recv'.advanced = recv.advanced := by
  unfold MuxRecv.accept at h
  split_ifs at h with hpc
  have hnone : (recv.taps k).pc.unreported = 0 := by
    rw [hpc]
    rfl
  dsimp only at h
  split at h
  next =>
    obtain rfl := Option.some.inj h
    refine ⟨hf.setTap hnone.symm ?_, rfl, rfl⟩
    intro chunk hchunk
    cases hchunk
  next chunk hread =>
    obtain rfl := Option.some.inj h
    refine ⟨hf.setTap hnone.symm ?_, rfl, rfl⟩
    intro _ hchunk
    obtain rfl := ReaderPc.decoded.inj hchunk
    exact readFrame_stop hread
  next e _ =>
    obtain rfl := Option.some.inj h
    have htap : Front s (recv.setTap k { recv.taps k with got := (recv.taps k).got ++ [frame] }) :=
      hf.setTap rfl fun chunk hchunk => hf.decoded k chunk hchunk
    refine ⟨htap.recordFailure ?_ e, rfl, rfl⟩
    rw [MuxRecv.setTap_taps_self]
    exact hpc

theorem Front.fail (hf : Front s recv) {e : KikoError} (h : recv.fail k e = some recv') :
    Front s recv' ∧ recv'.part = recv.part ∧ recv'.advanced = recv.advanced := by
  unfold MuxRecv.fail at h
  split_ifs at h with hpc
  obtain rfl := Option.some.inj h
  exact ⟨hf.recordFailure hpc e, rfl, rfl⟩

/-- **A chunk is written**: what becomes contiguous with it is found, and not reported yet. -/
theorem Front.write (hf : Front s recv) (h : recv.write k = some recv') :
    Front s recv' ∧ recv.part.length ≤ recv'.part.length ∧ recv'.advanced = recv.advanced := by
  obtain ⟨chunk, hpc, rfl⟩ := MuxRecv.write_cases h
  have hlonger := Pieces.length_le_overwrite 0 recv.part chunk.offset chunk.bytes
  have hcovered := covered_recordWrittenRange recv.ranges chunk.offset chunk.bytes.length
  have hgrows : recv.ranges.front ≤
      (recordWrittenRange recv.ranges chunk.offset chunk.bytes.length).1.front := by
    apply Pieces.Ranges.front_le_of_covered
    rw [hcovered]
    exact Set.subset_union_left
  refine ⟨⟨hf.decoded_setTap ?_, ?_, ?_, ?_⟩, hlonger, rfl⟩
  · intro _ hwrote
    cases hwrote
  · show (recordWrittenRange recv.ranges chunk.offset chunk.bytes.length).1.covered ⊆ _
    rw [hcovered]
    apply Set.union_subset hf.declared
    intro x hx
    exact hx.2.trans_le (hf.decoded k chunk hpc)
  · show (recordWrittenRange recv.ranges chunk.offset chunk.bytes.length).1.covered ⊆ _
    rw [hcovered]
    apply Set.union_subset
    · intro x hx
      exact lt_of_lt_of_le (hf.stored hx) hlonger
    · intro x hx
      exact Pieces.lt_length_overwrite hx.1 hx.2
  · -- the reader takes the growth in hand, and it had none before
    have hsum := unreported_setTap { recv with
        part := Pieces.overwrite 0 recv.part chunk.offset chunk.bytes
        ranges := (recordWrittenRange recv.ranges chunk.offset chunk.bytes.length).1
        log := recv.log ++ [chunk] } k { recv.taps k with
          pc := .wrote chunk.bytes.length
            (recordWrittenRange recv.ranges chunk.offset chunk.bytes.length).2 }
    have hnone : (recv.taps k).pc.unreported = 0 := by
      rw [hpc]
      rfl
    have hreported := hf.reported
    simp only [hnone, Nat.add_zero] at hsum
    rw [hsum]
    show s.resumeOffset + recv.advanced + (recv.unreported +
      ((recordWrittenRange recv.ranges chunk.offset chunk.bytes.length).1.front - recv.ranges.front)) =
        (recordWrittenRange recv.ranges chunk.offset chunk.bytes.length).1.front
    omega

/-- **A growth is reported**. -/
theorem Front.count (hf : Front s recv) (h : recv.count k = some recv') :
    Front s recv' ∧ recv'.part = recv.part ∧ recv.advanced ≤ recv'.advanced := by
  obtain ⟨size, delta, hpc, rfl⟩ := MuxRecv.count_cases h
  refine ⟨⟨hf.decoded_setTap ?_, hf.declared, hf.stored, ?_⟩, rfl, Nat.le_add_right _ _⟩
  · intro _ hreading
    cases hreading
  · -- what the reader had in hand goes to what is reported
    have hsum := unreported_setTap { recv with
        written := recv.written + size
        advanced := recv.advanced + delta } k { recv.taps k with pc := .reading }
    have hdelta : (recv.taps k).pc.unreported = delta := by
      rw [hpc]
      rfl
    have hreported := hf.reported
    simp only [hdelta] at hsum
    have hnew : (({ recv with
        written := recv.written + size
        advanced := recv.advanced + delta } : MuxRecv n).setTap k
          { recv.taps k with pc := .reading }).unreported + delta = recv.unreported := hsum
    show s.resumeOffset + (recv.advanced + delta) + _ = recv.ranges.front
    omega

/-- A reader's move. -/
theorem Front.run (hf : Front s recv) {move : RecvMove n} (h : move.run recv = some recv') :
    Front s recv' ∧ recv.part.length ≤ recv'.part.length ∧ recv.advanced ≤ recv'.advanced := by
  cases move with
  | fail k e =>
    obtain ⟨hfront, hpart, hadvanced⟩ := hf.fail h
    exact ⟨hfront, by rw [hpart], hadvanced.ge⟩
  | write k =>
    obtain ⟨hfront, hpart, hadvanced⟩ := hf.write h
    exact ⟨hfront, hpart, hadvanced.ge⟩
  | count k =>
    obtain ⟨hfront, hpart, hadvanced⟩ := hf.count h
    exact ⟨hfront, by rw [hpart], hadvanced⟩

end Readers

/-! ## The loop

A frame that the loop itself reads can open a payload, end it, or belong to none. Between opening
and end the figures follow the readers, and at all other times they follow the loop. -/

section Mux

variable {env : ReceiveEnv} {n : Nat} {l l' : Loop} {h : History} {ended : List Ended}
  {entry : Option OpenEntry} {f : Figures} {pc : MuxPc n}

/-- What is shown of `receive_files_mux`: of an open payload, what the readers have reported. -/
inductive MuxLoop.Follows (env : ReceiveEnv) {n : Nat} : MuxLoop n → History → Figures → Prop
  | going {r : MuxLoop n} {h : History} {f : Figures} {ended : List Ended} {entry : Option OpenEntry}
      (ht : Told env False r.loop r.pc.phase h ended entry f) (hgoing : r.pc.phase ≠ .finished)
      (hreaders : ∀ s out recv, r.pc = .receiving s out recv →
        Front s recv ∧ doneOf entry = s.resumeOffset + recv.advanced) :
      MuxLoop.Follows env r h f
  | returned {r : MuxLoop n} {h : History} {f : Figures} (hpc : r.pc.phase = .finished)
      (hc : Complete env r.loop h f) : MuxLoop.Follows env r h f

theorem MuxPc.phase_ne_thrown (hlive : pc.over = false) (e : KikoError) : pc.phase ≠ .thrown e := by
  intro he
  cases pc with
  | thrown e' => cases hlive
  | _ => cases he

theorem MuxLoop.Follows.resting {r : MuxLoop n}
    (ht : Told env False r.loop r.pc.phase h ended entry f) (hrest : r.pc.phase.resting = true) :
    MuxLoop.Follows env r h f := by
  refine .going ht ?_ ?_
  · intro hpc
    rw [hpc] at hrest
    cases hrest
  · intro s out recv hpc
    rw [hpc] at hrest
    cases hrest

/-- What a frame that the loop reads makes of what is shown. -/
def ControlFollows (env : ReceiveEnv) {n : Nat} (l : Loop) (pc : MuxPc n) (h : History)
    (f : Figures) (frame : Frame)
    (result : EStateM.Result KikoError Loop (MuxPc n × List Frame)) : Prop :=
  match result with
  | .ok (pc', _) l' =>
    Facts env (l'.intake pc'.phase)
        (h.observe env (l.intake pc.phase) (some frame) (l'.intake pc'.phase)) →
      MuxLoop.Follows env { loop := l', pc := pc' }
        (h.observe env (l.intake pc.phase) (some frame) (l'.intake pc'.phase))
        (f.onAll (env.frameReports l pc.phase frame l' pc'.phase))
  | .error e l' =>
    MuxLoop.Follows env { loop := l', pc := (.thrown e : MuxPc n) }
      (h.observe env (l.intake pc.phase) (some frame) (l'.intake (.thrown e)))
      (f.onAll (env.frameReports l pc.phase frame l' (.thrown e)))

/-- A frame at which the loop throws, but for an answer. -/
theorem control_thrown (pc : MuxPc n) {frame : Frame} {e : KikoError}
    (ht : Told env False l pc.phase h ended entry f) (hf : Facts env (l.intake pc.phase) h)
    (hlive : pc.over = false) (hphase : ∀ p, pc.phase ≠ .await p) (htells : Tells l.disk l'.disk) :
    ControlFollows env l pc h f frame (.error e l') :=
  .resting (ht.frame_thrown hf (MuxPc.phase_ne_thrown hlive) hphase htells e) rfl

/-- A frame after which no payload is open. -/
theorem control_ok {frame : Frame} {pc' : MuxPc n} {reply : List Frame}
    (hrest : pc'.phase.resting = true)
    (ht : Told env False l' pc'.phase
      (h.observe env (l.intake pc.phase) (some frame) (l'.intake pc'.phase)) ended entry
      (f.onAll (env.frameReports l pc.phase frame l' pc'.phase))) :
    ControlFollows env l pc h f frame (.ok (pc', reply) l') := fun _ => .resting ht hrest

/-- The answer to a question. -/
theorem onControl_await_follows {p : Pending} (ht : Told env False l (.await p) h ended entry f)
    (hf : Facts env (l.intake (.await p)) h) (frame : Frame) :
    ControlFollows env l (.await p : MuxPc n) h f frame
      (onControl env frame (.await p : MuxPc n) l) := by
  simp only [onControl, bind, EStateM.bind, LoopM.onDisk]
  cases hack : env.onAck p frame l.disk with
  | error e d => exact .resting (ht.refused hf hack) rfl
  | ok result d =>
    cases result with
    | inr p' => exact control_ok rfl (ht.askAgain hf hack)
    | inl session =>
      cases session with
      | marker setup marker => exact control_ok rfl (ht.answered hf hack (refl_of Tells d) rfl)
      | skipPayload setup => exact control_ok rfl (ht.answered hf hack (refl_of Tells d) rfl)
      | receivePayload session =>
        have hready := (onAck_ready hf.sound.disk).1 session hack
        have hfits := (onAck_entry hf.sound.disk hf.measured hack).1
        simp only [openMuxSession, bind, EStateM.bind, LoopM.onDisk]
        cases hopen : env.openMux session d with
        | error e d' =>
          exact .resting (ht.answered hf hack (tells_openMux.error hopen) trivial) rfl
        | ok opened d' =>
          obtain ⟨out, content⟩ := opened
          -- what is opened is what was hashed
          have hsession : openMuxSession env n (.receivePayload session) d =
              .ok (.receiving session out (MuxRecv.start n content session.resumeOffset)) d' :=
            bind_of_ok hopen
          have hcontent := MuxOver.openMuxSession_receiving (by rintro _ ⟨⟩; exact hready) hsession
          intro _
          have htold : Told env False { l with disk := d' } (.payload session out content) _ ended
              (some (Session.receivePayload session).entry) _ :=
            ht.answered hf hack (tells_openMux.ok hopen)
              ⟨session.resumeOffset, (MuxRecv.mk.inj hcontent).1 ▸ hready.offset.le, rfl⟩
          refine .going htold Phase.noConfusion ?_
          intro s out' recv hpc
          obtain ⟨rfl, rfl, rfl⟩ := MuxPc.receiving.inj hpc
          rw [hcontent]
          exact ⟨front_start hready.offset hfits, rfl⟩

/-- **Whatever frame the loop reads, what is shown follows.** -/
theorem onControl_follows {pc : MuxPc n} (ht : Told env False l pc.phase h ended entry f)
    (hf : Facts env (l.intake pc.phase) h) (hlive : pc.over = false)
    (hreads : ∀ s out recv, pc ≠ .receiving s out recv) (frame : Frame) :
    ControlFollows env l pc h f frame (onControl env frame pc l) := by
  have hrefl := refl_of Tells l.disk
  cases pc with
  | finished => cases hlive
  | thrown e => cases hlive
  -- while the readers are at work the loop reads no frame
  | receiving s out recv => exact absurd rfl (hreads s out recv)
  | await p => exact onControl_await_follows ht hf frame
  -- no entry is open, so a header opens one and the end closes the account
  | idle =>
    have hphase : ∀ p, Phase.idle ≠ .await p := fun _ => Phase.noConfusion
    cases frame with
    | manifest text =>
      simp only [onControl, bind, EStateM.bind]
      cases htake : env.takeManifest text l with
      | ok _ l' => exact control_ok rfl (ht.manifest hf rfl htake)
      | error e l' =>
        exact control_thrown .idle ht hf hlive hphase (takeManifest_error htake ▸ hrefl)
    | fileHeader header =>
      simp only [onControl, bind, EStateM.bind]
      cases htake : env.takeFileHeader header l with
      | ok p l' => exact control_ok rfl (ht.header hf htake)
      | error e l' =>
        exact control_thrown .idle ht hf hlive hphase ((tells_takeFileHeader header).error htake)
    | done =>
      simp only [onControl, bind, EStateM.bind]
      cases htake : takeDone l with
      | ok _ l' => exact fun hf' => .returned rfl (ht.done hf' htake)
      | error e l' => exact control_thrown .idle ht hf hlive hphase (takeDone_error htake ▸ hrefl)
    | _ => exact control_thrown .idle ht hf hlive hphase hrefl
  | marker setup marker =>
    have hphase : ∀ p, Phase.marker setup marker ≠ .await p := fun _ => Phase.noConfusion
    cases frame with
    | fileEnd trailer =>
      simp only [onControl, bind, EStateM.bind]
      cases hend : env.endMarker setup marker l with
      | ok _ l' =>
        obtain ⟨ended', htold⟩ := ht.endMarker hf hend
        exact control_ok rfl htold
      | error e l' =>
        exact control_thrown (.marker setup marker) ht hf hlive hphase
          ((tells_endMarker marker).error hend)
    | _ => exact control_thrown (.marker setup marker) ht hf hlive hphase hrefl
  | skipping setup k =>
    have hphase : ∀ p, Phase.skipping setup ≠ .await p := fun _ => Phase.noConfusion
    by_cases hk : k < n
    · cases frame with
      | chunkEnd =>
        simp only [onControl, if_pos hk]
        refine control_ok rfl (?_ : Told env False l (.skipping setup) _ ended entry _)
        rw [onAll_frameReports hrefl]
        exact ht
      | _ =>
        simp only [onControl, if_pos hk]
        exact control_thrown (.skipping setup k) ht hf hlive hphase hrefl
    · cases frame with
      | fileEnd trailer =>
        simp only [onControl, if_neg hk]
        obtain ⟨ended', htold⟩ := ht.endSkipped trailer rfl
        exact control_ok rfl htold
      | _ =>
        simp only [onControl, if_neg hk]
        exact control_thrown (.skipping setup k) ht hf hlive hphase hrefl
  | payloadEnd s written =>
    have hphase : ∀ p, Phase.received s ≠ .await p := fun _ => Phase.noConfusion
    cases frame with
    | fileEnd trailer =>
      simp only [onControl, bind, EStateM.bind]
      cases hend : takePayloadEnd env s written trailer l with
      | ok _ l' =>
        obtain ⟨done, rfl⟩ := ht.opens
        have hle := (ht.drawn.fits _ rfl).1
        exact control_ok rfl (ht.closed ⟨_, _, _, rfl⟩ rfl (.inl rfl) ⟨hle, False.elim⟩
          (takePayloadEnd_counts hend) (tells_takePayloadEnd.ok hend))
      | error e l' =>
        exact control_thrown (.payloadEnd s written) ht hf hlive hphase
          (tells_takePayloadEnd.error hend)
    | _ => exact control_thrown (.payloadEnd s written) ht hf hlive hphase hrefl

/-- The readers go on: what they report is shown. -/
theorem Told.wrote {s : PayloadSession} {out : Place} {recv recv' : MuxRecv n}
    (ht : Told env False l (.payload s out recv.part) h ended entry f)
    (hf : Facts env (l.intake (.payload s out recv.part)) h)
    (hdone : doneOf entry = s.resumeOffset + recv.advanced)
    (hfront : Front s recv' ∧ recv.part.length ≤ recv'.part.length ∧
      recv.advanced ≤ recv'.advanced) :
    MuxLoop.Follows env ((MuxLoop.mk l (.receiving s out recv)).wrote s out recv') h
      (f.onAll (advance (recv'.advanced - recv.advanced))) := by
  obtain ⟨hfront, -, hmore⟩ := hfront
  have hgo : ∀ e, Phase.payload s out recv.part ≠ .thrown e := fun _ => Phase.noConfusion
  obtain ⟨done, -, rfl⟩ := ht.opens
  obtain rfl : done = s.resumeOffset + recv.advanced := hdone
  obtain ⟨hdeclared, hstored⟩ := hfront.shown_le
  have hsum : s.resumeOffset + recv.advanced + (recv'.advanced - recv.advanced) =
      s.resumeOffset + recv'.advanced := by
    omega
  have hdrawn := ht.drawn.advanced (n := recv'.advanced - recv.advanced) (hsum.trans_le hdeclared)
  have hopens : (Phase.payload s out recv'.part).Opens (some {
      relative := s.setup.relative
      size := s.setup.declaredSize
      done := s.resumeOffset + recv'.advanced }) :=
    ⟨_, hstored, rfl⟩
  rw [← hsum] at hopens
  have htold : Told env False (l.put out recv'.part) (.payload s out recv'.part) h ended _ _ :=
    ht.move hf hgo hdrawn (overallTotal_advance f _) rfl rfl hopens (fun _ => ⟨rfl, rfl⟩)
      (hsum.trans_le hdeclared)
  refine .going htold Phase.noConfusion ?_
  intro s' out' recv'' hpc
  obtain ⟨rfl, rfl, rfl⟩ := MuxPc.receiving.inj hpc
  exact ⟨hfront, hsum⟩

/-- The readers are joined: what was shown of the file stays. -/
theorem Told.rejoined {s : PayloadSession} {out : Place} {recv : MuxRecv n}
    (ht : Told env False l (.payload s out recv.part) h ended entry f)
    (hf : Facts env (l.intake (.payload s out recv.part)) h) :
    MuxLoop.Follows env ((MuxLoop.mk l (.receiving s out recv)).returned s out recv.result) h f := by
  have hgo : ∀ e, Phase.payload s out recv.part ≠ .thrown e := fun _ => Phase.noConfusion
  unfold MuxLoop.returned
  cases recv.result.1 with
  | error e => exact .resting (ht.thrown hf hgo _ e) rfl
  | ok written =>
    have hroom := ht.done_le hgo
    obtain ⟨done, -, hentry⟩ := ht.opens
    have htold : Told env False (l.put out recv.result.2) (.received s) h ended entry f :=
      ht.move hf hgo ht.drawn rfl rfl rfl ⟨done, hentry⟩ (fun _ => ⟨rfl, rfl⟩) hroom
    exact .resting htold rfl

end Mux

section MuxSteps

variable {env : ReceiveEnv} {m : Nat} {codec : BlockCodec} {h : History} {f : Figures}
  {r r' : MuxLoop (m + 1)}

/-- Of a loop that does not receive, a frame's reports are all there are. -/
theorem muxReports_take {k : Fin (m + 1)} {frame : Frame}
    (hreads : ∀ s out recv, r.pc ≠ .receiving s out recv) :
    r.reports env (.take k frame) r' = env.frameReports r.loop r.pc.phase frame r'.loop r'.pc.phase := by
  obtain ⟨l, pc⟩ := r
  cases pc with
  | receiving s out recv => exact absurd rfl (hreads s out recv)
  | _ => rfl

theorem seen_take {k : Fin (m + 1)} {frame : Frame}
    (hreads : ∀ s out recv, r.pc ≠ .receiving s out recv) :
    (MuxInput.take k frame).seen r = some frame := by
  obtain ⟨l, pc⟩ := r
  cases pc with
  | receiving s out recv => exact absurd rfl (hreads s out recv)
  | _ => rfl

/-- A loop whose readers are not at work takes a frame it reads itself, or is given up. -/
theorem next_control {input : MuxInput (m + 1)}
    (hreads : ∀ s out recv, r.pc ≠ .receiving s out recv)
    (hr : r.next env codec input = some r') :
    (∃ k frame, input = .take k frame ∧ (r.control env frame).1 = r') ∨
      (∃ e, r' = { loop := r.loop, pc := .thrown e }) ∧ input.seen r = none ∧
        r.reports env input r' = [] := by
  obtain ⟨l, pc⟩ := r
  cases input with
  | take k frame =>
    refine .inl ⟨k, frame, rfl, ?_⟩
    obtain ⟨⟨r₁, reply⟩, htake, rfl⟩ := Option.map_eq_some_iff.mp hr
    cases pc with
    | receiving s out recv => exact absurd rfl (hreads s out recv)
    | finished => simp [MuxLoop.take, MuxPc.reads] at htake
    | thrown e => simp [MuxLoop.take, MuxPc.reads] at htake
    | _ =>
      simp only [MuxLoop.take] at htake
      split_ifs at htake
      exact congrArg Prod.fst (Option.some.inj htake)
  | work move =>
    cases pc with
    | receiving s out recv => exact absurd rfl (hreads s out recv)
    | _ => cases hr
  | ret =>
    cases pc with
    | receiving s out recv => exact absurd rfl (hreads s out recv)
    | _ => cases hr
  | closed =>
    cases pc with
    | receiving s out recv => cases hr
    | finished => cases hr
    | thrown e => cases hr
    | _ =>
      obtain rfl := Option.some.inj hr
      exact .inr ⟨⟨_, rfl⟩, rfl, rfl⟩
  | broken e =>
    cases pc with
    | receiving s out recv => cases hr
    | finished => cases hr
    | thrown e => cases hr
    | _ =>
      obtain rfl := Option.some.inj hr
      exact .inr ⟨⟨_, rfl⟩, rfl, rfl⟩

/-- A step in which the loop itself is at work. -/
theorem control_follows_next {input : MuxInput (m + 1)} {ended : List Ended} {entry : Option OpenEntry}
    (ht : Told env False r.loop r.pc.phase h ended entry f) (hf : Facts env r.intake h)
    (hlive : r.pc.over = false) (hreads : ∀ s out recv, r.pc ≠ .receiving s out recv)
    (hf' : Facts env r'.intake (h.observe env r.intake (input.seen r) r'.intake))
    (hr : r.next env codec input = some r') :
    MuxLoop.Follows env r' (h.observe env r.intake (input.seen r) r'.intake)
      (f.onAll (r.reports env input r')) := by
  rcases next_control hreads hr with ⟨k, frame, rfl, rfl⟩ | ⟨⟨e, rfl⟩, hseen, hreports⟩
  · have hframe := onControl_follows ht hf hlive hreads frame
    rw [seen_take hreads] at hf' ⊢
    rw [muxReports_take hreads]
    unfold MuxLoop.control at hf' ⊢
    cases hcontrol : onControl env frame r.pc r.loop with
    | ok result l' =>
      rw [hcontrol] at hframe
      simp only [hcontrol] at hf' ⊢
      exact hframe hf'
    | error e l' =>
      rw [hcontrol] at hframe
      exact hframe
  · rw [hseen, hreports]
    exact .resting (ht.thrown hf (MuxPc.phase_ne_thrown hlive) r.loop e) rfl

/-- **A step of `receive_files_mux`.** -/
theorem MuxLoop.follows_next {input : MuxInput (m + 1)} (hk : MuxLoop.Follows env r h f)
    (hf : Facts env r.intake h)
    (hf' : Facts env r'.intake (h.observe env r.intake (input.seen r) r'.intake))
    (hr : r.next env codec input = some r') :
    MuxLoop.Follows env r' (h.observe env r.intake (input.seen r) r'.intake)
      (f.onAll (r.reports env input r')) := by
  have hlive := MuxLoop.next_live hr
  cases hk with
  | returned hpc hc =>
    have hpc : r.intake.phase = .finished := hpc
    rw [hpc] at hlive
    cases hlive
  | @going ended entry ht hgoing hreaders =>
    obtain ⟨l, pc⟩ := r
    have hover : pc.over = false := by
      cases pc <;> first | rfl | exact hlive
    cases pc with
    | receiving s out recv =>
      obtain ⟨hfront, hdone⟩ := hreaders s out recv rfl
      cases input with
      | take k frame =>
        obtain ⟨⟨r₁, reply⟩, htake, rfl⟩ := Option.map_eq_some_iff.mp hr
        obtain ⟨recv', haccept, heq⟩ := Option.map_eq_some_iff.mp htake
        obtain ⟨rfl, -⟩ := Prod.mk.inj heq
        obtain ⟨hfront', hpart, hsame⟩ := hfront.accept haccept
        exact ht.wrote hf hdone ⟨hfront', hpart ▸ le_rfl, hsame.ge⟩
      -- what a reader reports is what it has found of the front
      | work move =>
        obtain ⟨recv', hmove, rfl⟩ := Option.map_eq_some_iff.mp hr
        exact ht.wrote hf hdone (hfront.run hmove)
      -- the readers have reported everything when they are joined
      | ret =>
        simp only [MuxLoop.next, MuxLoop.ret] at hr
        split_ifs at hr
        obtain rfl := Option.some.inj hr
        have hreports : (MuxLoop.mk l (.receiving s out recv)).reports env .ret
            ((MuxLoop.mk l (.receiving s out recv)).returned s out recv.result) = [] := by
          unfold MuxLoop.returned
          cases recv.result.1 with
          | ok written => rfl
          | error e => rfl
        rw [hreports]
        exact ht.rejoined hf
      | closed => cases hr
      | broken e => cases hr
    | _ =>
      refine control_follows_next ht hf hover ?_ hf' hr
      intro s out recv hpc
      cases hpc

end MuxSteps

end Kiko.Transfer
