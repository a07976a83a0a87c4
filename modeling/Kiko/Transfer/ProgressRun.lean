import Kiko.Transfer.ProgressMux

/-!
# What a front end shows is true (`core/progress_state`)

Whatever the peer sends, over a stream or over many channels, and however often the call fails and is
tried again, the figures that are drawn are those of the attempt that is going on: no byte is shown
that has not come, an open file never has more than it was declared to have, and a transfer that is
shown as complete has been acknowledged.

The peer is not trusted, since a peer that could make a receiver show a complete transfer could make
its user believe one. What is shown is compared with what has happened on this side alone: frames
taken, bytes in the file, entries closed, the acknowledgement sent.
-/

set_option autoImplicit false

namespace Kiko.Transfer

open Lexical FileTree Effect

/-- The entry that is open once its session stands. -/
def Phase.entered : Phase → Option EntrySetup
  | .marker setup _ | .skipping setup => some setup
  | .payload s _ _ | .received s => some s.setup
  | _ => none

/-- **What is drawn of a receive call**, at any time. -/
structure Truthful (env : ReceiveEnv) {codec : StreamCodec} (call : ReceiveCall codec) (h : History)
    (s : TransferProgressState) : Prop where
  /-- it is drawn as complete when its loop has returned, and not before -/
  finished : (s.finished = true ↔ call.phase = .finished) ∧ s.failed = false ∧ s.canceled = false
  files : s.filesDone = h.completed.length ∧ (call.phase = .finished → s.filesTotal = s.filesDone)
  /-- the entry that is open, by its path, with no more than was declared of it -/
  entry : ∀ setup, call.phase.entered = some setup →
    s.currentFile = setup.header.get "path" ∧ s.currentDone ≤ s.currentSize ∧ s.currentSize ≤ setup.declaredSize
  /-- of a file no more is drawn than its partial file holds; over a stream, all of it -/
  stored : ∀ session out content, call.phase = .payload session out content →
    s.currentDone ≤ content.length ∧ ∀ r, call = .stream r → s.currentDone = content.length
  /-- over a stream the total is what has ended and what has come of the open entry -/
  total : ∀ r, call = .stream r → (∀ e, r.pc.phase ≠ .thrown e) →
    s.overallDone = (r.loop.grandTotal + if r.pc.phase.entered.isSome then s.currentDone else 0) % 2 ^ 64
  /-- it stays within what the manifest has promised, and comes to all of it -/
  promised : ∀ text, h.manifest = some text → ∃ manifest, decodeTransferManifest env.prims text = .ok manifest ∧
    s.overallTotal = manifest.totalSize ∧ s.overallDone ≤ manifest.totalSize ∧
    (call.phase = .finished → s.overallDone = manifest.totalSize ∧ s.filesDone = manifest.entries.length)

section Told

variable {env : ReceiveEnv} {exact : Prop} {l : Loop} {phase : Phase} {h : History} {ended : List Ended}
  {entry : Option OpenEntry} {f : Figures}

/-- An entry that is entered is open. -/
theorem Phase.Opens.entered {setup : EntrySetup} (hopens : phase.Opens entry)
    (hentered : phase.entered = some setup) :
    phase.setup? = some setup ∧
      ∃ e, entry = some e ∧ e.relative = setup.relative ∧ e.size ≤ setup.declaredSize := by
  cases phase with
  | marker setup' marker =>
    obtain rfl := Option.some.inj hentered
    exact ⟨rfl, _, hopens, rfl, Nat.zero_le _⟩
  | skipping setup' =>
    obtain rfl := Option.some.inj hentered
    exact ⟨rfl, _, hopens, rfl, le_rfl⟩
  | payload s out content =>
    obtain rfl := Option.some.inj hentered
    obtain ⟨done, -, hentry⟩ := hopens
    exact ⟨rfl, _, hentry, rfl, le_rfl⟩
  | received s =>
    obtain rfl := Option.some.inj hentered
    obtain ⟨done, hentry⟩ := hopens
    exact ⟨rfl, _, hentry, rfl, le_rfl⟩
  | _ => cases hentered

/-- Where no entry is entered, none is open, as long as the loop goes on. -/
theorem Told.outside (ht : Told env exact l phase h ended entry f) (hgo : ∀ e, phase ≠ .thrown e)
    (hentered : phase.entered = none) : entry = none := by
  have hopens := ht.opens
  cases phase with
  | marker setup marker => cases hentered
  | skipping setup => cases hentered
  | payload s out content => cases hentered
  | received s => cases hentered
  | thrown e => exact absurd rfl (hgo e)
  | _ => exact hopens

theorem Told.drawn_entry {setup : EntrySetup} (ht : Told env exact l phase h ended entry f)
    (hf : Facts env (l.intake phase) h) (hentered : phase.entered = some setup) :
    f.currentFile = setup.header.get "path" ∧ f.currentDone ≤ f.currentSize ∧
      f.currentSize ≤ setup.declaredSize := by
  obtain ⟨hsetup, e, hentry, hpath, hsize⟩ := ht.opens.entered hentered
  have hread := (hf.setup setup hsetup).path
  obtain ⟨hfile, hcurrent, hdone⟩ := ht.drawn.current e hentry
  have hfits := (ht.drawn.fits e hentry).1
  rw [hfile, hcurrent, hdone]
  exact ⟨hpath.trans hread, hfits, hsize⟩

theorem Told.drawn_done {e : OpenEntry} (ht : Told env exact l phase h ended entry f)
    (hentry : entry = some e) :
    f.currentDone = doneOf entry := by
  rw [(ht.drawn.current e hentry).2.2, hentry]
  rfl

/-- Of a file no more is drawn than there is. -/
theorem Told.drawn_stored {s : PayloadSession} {out : Place} {content : Bytes}
    (ht : Told env exact l (.payload s out content) h ended entry f) : f.currentDone ≤ content.length := by
  obtain ⟨done, hle, rfl⟩ := ht.opens
  rw [ht.drawn_done rfl]
  exact hle

theorem Told.drawn_promised {text : ManifestText} (ht : Told env exact l phase h ended entry f)
    (hm : h.manifest = some text) : ∃ manifest, decodeTransferManifest env.prims text = .ok manifest ∧
      f.overallTotal = manifest.totalSize ∧ f.overallDone ≤ manifest.totalSize := by
  obtain ⟨manifest, hdecode, htotal, hle⟩ := ht.total text hm
  refine ⟨manifest, hdecode, htotal, ?_⟩
  rw [ht.drawn.overall]
  exact (Nat.mod_le _ _).trans hle

/-- Where all of an entry was drawn when it ended, the total is what has ended and what is open. -/
theorem Told.drawn_total (ht : Told env True l phase h ended entry f) (hgo : ∀ e, phase ≠ .thrown e) :
    f.overallDone = (l.grandTotal + if phase.entered.isSome then f.currentDone else 0) % 2 ^ 64 := by
  have hshown : (ended.map (·.shown)).sum = bytesOf ended := by
    rw [bytesOf, List.map_congr_left fun e he => (ht.below e he).2 trivial]
  have hopen : doneOf entry = if phase.entered.isSome then f.currentDone else 0 := by
    cases hentered : phase.entered with
    | none =>
      rw [ht.outside hgo hentered]
      rfl
    | some setup =>
      obtain ⟨-, e, hentry, -⟩ := ht.opens.entered hentered
      exact (ht.drawn_done hentry).symm
  rw [ht.drawn.overall, shownOf, hshown, (ht.counts hgo).2, Nat.mod_add_mod]
  exact congrArg (fun n => (bytesOf ended + n) % 2 ^ 64) hopen

end Told

/-! ## Every attempt

By induction on what is shown: a report that comes before a loop, a step of a loop, an attempt that
is given up, and the next one, which starts from figures that were reset. -/

/-- What is drawn of a call follows what goes on. -/
inductive ReceiveCall.Follows (env : ReceiveEnv) {codec : StreamCodec} :
    ReceiveCall codec → History → Figures → Prop
  | connecting {f : Figures} (hd : Drawn [] none f) : ReceiveCall.Follows env .connecting {} f
  | stream {r : StreamRecv codec} {h : History} {f : Figures} (hk : StreamRecv.Follows env r h f)
      (hf : Facts env r.intake h) : ReceiveCall.Follows env (.stream r) h f
  | mux {m : Nat} {r : MuxLoop (m + 1)} {h : History} {f : Figures} (hk : MuxLoop.Follows env r h f)
      (hf : Facts env r.intake h) : ReceiveCall.Follows env (.mux r) h f

section Calls

variable {env : ReceiveEnv} {codec : StreamCodec} {zstd : Zstd} {block : BlockCodec} {maxLogLines : Nat}
  {call : ReceiveCall codec} {h : History} {s : TransferProgressState} {f : Figures}

theorem Drawn.early {e : ProgressEvent} (hd : Drawn [] none f) (he : e.early = true) :
    Drawn [] none (f.on e) := by
  cases e with
  | transferOverview fileCount totalBytes => exact drawn_start _ hd.going hd.files hd.overall
  | _ => first | exact hd | cases he

theorem told_start (hd : Drawn [] none f) (exact : Prop) (d : Disk) :
    Told env exact { disk := d } .idle {} [] none f where
  drawn := hd
  below e he := by cases he
  weighs := .nil
  opens := rfl
  counts _ := ⟨rfl, rfl⟩
  total text hm := by cases hm

/-- What is drawn follows the call through all its attempts. -/
theorem Shown.follows (hcodec : codec.Decodes zstd) (hs : Shown env codec block maxLogLines call h s) :
    call.Follows env h s.figures := by
  induction hs with
  | start => exact .connecting (drawn_start _ ⟨rfl, rfl, rfl⟩ rfl rfl)
  | early hs he ih =>
    cases ih with
    | connecting hd =>
      rw [TransferProgressState.figures_on]
      exact .connecting (hd.early he)
  | overStream hs d ih =>
    cases ih with
    | connecting hd => exact .stream (.resting (told_start hd True d) rfl) (facts_start env d)
  | overMux hs m d ih =>
    cases ih with
    | connecting hd => exact .mux (.resting (told_start hd False d) rfl) (facts_start env d)
  | stream hs hr ih =>
    cases ih with
    | stream hk hf =>
      have hf' := hf.step (StreamRecv.next_live hr) (StreamRecv.next_step hf.sound hr)
      rw [TransferProgressState.figures_onAll]
      exact .stream (StreamRecv.follows_next hcodec hk hf hf' hr) hf'
  | mux hs hr ih =>
    cases ih with
    | mux hk hf =>
      have hf' := hf.step (MuxLoop.next_live hr) (MuxLoop.next_step hf.sound hr)
      rw [TransferProgressState.figures_onAll]
      exact .mux (MuxLoop.follows_next hk hf hf' hr) hf'
  | retry hs hbroken nextAttempt maxAttempts delayMs reason ih =>
    rw [TransferProgressState.figures_onAll]
    exact .connecting (drawn_start _ ⟨rfl, rfl, rfl⟩ rfl rfl)

theorem StreamPc.exists_of_phase {pc : StreamPc codec} {session : PayloadSession} {out : Place}
    {content : Bytes}
    (hopen : pc.phase = .payload session out content) :
    ∃ q, pc = .payload q ∧ q.session = session ∧ q.out = out ∧ q.hashed = content := by
  cases pc with
  | payload q =>
    obtain ⟨rfl, rfl, rfl⟩ := Phase.payload.inj hopen
    exact ⟨q, rfl, rfl, rfl, rfl⟩
  | _ => cases hopen

/-- What is drawn of an attempt that goes on, or was given up. -/
theorem Told.truthful {l : Loop} {phase : Phase} {exact : Prop} {ended : List Ended}
    {entry : Option OpenEntry}
    (hphase : call.phase = phase) (ht : Told env exact l phase h ended entry s.figures)
    (hf : Facts env (l.intake phase) h) (hgoing : phase ≠ .finished)
    (hstored : ∀ session out content, phase = .payload session out content → ∀ r, call = .stream r →
      s.currentDone = content.length)
    (htotal : ∀ r, call = .stream r → r.loop = l ∧ r.pc.phase = phase ∧ exact) :
    Truthful env call h s := by
  have hfinished : s.finished = false := ht.drawn.going.1
  have hnot : call.phase ≠ .finished := hphase ▸ hgoing
  refine ⟨⟨?_, ht.drawn.going.2⟩, ⟨?_, fun hend => absurd hend hnot⟩, ?_, ?_, ?_, ?_⟩
  · rw [hfinished]
    exact ⟨fun h => absurd h Bool.false_ne_true, fun hend => absurd hend hnot⟩
  · exact ht.drawn.files.trans ht.weighs.length_eq
  · intro setup hentered
    rw [hphase] at hentered
    exact ht.drawn_entry hf hentered
  · intro session out content hopen
    rw [hphase] at hopen
    subst hopen
    exact ⟨ht.drawn_stored, fun r hr => hstored session out content rfl r hr⟩
  · intro r hr hgo
    obtain ⟨rfl, rfl, hexact⟩ := htotal r hr
    have hall : Told env True r.loop r.pc.phase h ended entry s.figures :=
      ⟨ht.drawn, fun e he => ⟨(ht.below e he).1, fun _ => (ht.below e he).2 hexact⟩, ht.weighs,
        ht.opens, ht.counts, ht.total⟩
    exact hall.drawn_total hgo
  · intro text hm
    obtain ⟨manifest, hdecode, htotal, hle⟩ := ht.drawn_promised hm
    exact ⟨manifest, hdecode, htotal, hle, fun hend => absurd hend hnot⟩

/-- What is drawn of a call that has returned. -/
theorem Complete.truthful {l : Loop} (hphase : call.phase = .finished) (hc : Complete env l h s.figures)
    (hl : ∀ r, call = .stream r → r.loop = l) : Truthful env call h s := by
  refine ⟨⟨?_, hc.finished.2⟩, ⟨hc.files.1, fun _ => hc.files.2⟩, ?_, ?_, ?_, ?_⟩
  · have hfinished : s.finished = true := hc.finished.1
    exact ⟨fun _ => hphase, fun _ => hfinished⟩
  · intro setup hentered
    rw [hphase] at hentered
    cases hentered
  · intro session out content hopen
    rw [hphase] at hopen
    cases hopen
  · intro r hr _
    obtain rfl := hl r hr
    have hnone : r.pc.phase.entered = none := by
      have hend : r.pc.phase = .finished := by
        rw [hr] at hphase
        exact hphase
      rw [hend]
      rfl
    rw [hnone]
    exact hc.overall.1.trans (Nat.mod_eq_of_lt hc.overall.2).symm
  · intro text hm
    obtain ⟨manifest, hdecode, htotal, hall, hcount⟩ := hc.total text hm
    exact ⟨manifest, hdecode, htotal, hall.le, fun _ => ⟨hall, hcount⟩⟩

/-- **What a front end shows of a receive call is true**, at any time, in any attempt, over a stream or
    over many channels, whatever the peer sends. -/
theorem receive_progress (hcodec : codec.Decodes zstd) (hs : Shown env codec block maxLogLines call h s) :
    Truthful env call h s := by
  have hfollows := hs.follows hcodec
  cases hfollows with
  | connecting hd =>
    refine (told_start hd False { tree := fun _ => none }).truthful rfl (facts_start env _)
      Phase.noConfusion ?_ ?_
    · intro session out content hopen
      cases hopen
    · intro r hr
      cases hr
  | @stream r _ _ hk hf =>
    cases hk with
    | returned hpc hc =>
      refine hc.truthful hpc ?_
      rintro _ ⟨⟩
      rfl
    | going ht hgoing hpayload =>
      refine ht.truthful rfl hf hgoing ?_ ?_
      · rintro session out content hopen _ ⟨⟩
        obtain ⟨q, hpc, rfl, rfl, rfl⟩ := StreamPc.exists_of_phase hopen
        obtain ⟨hlength, hdone⟩ := hpayload q hpc
        have hphase : r.pc.phase = .payload q.session q.out q.hashed := hopen
        have hopens := ht.opens
        rw [hphase] at hopens
        obtain ⟨done, -, hentry⟩ := hopens
        exact (ht.drawn_done hentry).trans (hdone.trans hlength)
      · rintro _ ⟨⟩
        exact ⟨rfl, rfl, trivial⟩
  | mux hk hf =>
    cases hk with
    | returned hpc hc =>
      refine hc.truthful hpc ?_
      intro r hr
      cases hr
    | going ht hgoing hreaders =>
      refine ht.truthful rfl hf hgoing ?_ ?_
      · intro session out content _ r hr
        cases hr
      · intro r hr
        cases hr

/-- `receive_files` as it is drawn. -/
def StreamRecv.draw (env : ReceiveEnv) {codec : StreamCodec} (x : StreamRecv codec × History × TransferProgressState)
    (input : StreamInput) : Option (StreamRecv codec × History × TransferProgressState) :=
  (x.1.next env input).map fun r' =>
    (r', x.2.1.observe env x.1.intake input.seen r'.intake, x.2.2.onAll (x.1.reports env input r'))

theorem shown_draw {x x' : StreamRecv codec × History × TransferProgressState}
    (hs : Shown env codec block maxLogLines (.stream x.1) x.2.1 x.2.2)
    (hr : Lts.Reach (StreamRecv.draw env) x x') :
    Shown env codec block maxLogLines (.stream x'.1) x'.2.1 x'.2.2 := by
  refine hr.invariant (I := fun x => Shown env codec block maxLogLines (.stream x.1) x.2.1 x.2.2) hs ?_
  intro x x' input hs _ hdraw
  obtain ⟨r', hnext, rfl⟩ := Option.map_eq_some_iff.mp hdraw
  exact .stream hs hnext

end Calls

/-! ## An attempt that fails, and another -/

/-- A library that stores. -/
def storedZstd : Zstd where
  DStream := Unit
  createDStream := .ok ()
  decompressStream _ input pos := .ok ((), input.length, input.drop pos)
  decompress input _ := .ok (input.length, input)

theorem capped_lossless (chunks : List Bytes) (room : Nat) (hroom : chunks.flatten.length ≤ room) :
    decompressAll (fun _ payload room =>
        if room < payload.length then .error "zstd decompressed data exceeds declared size" else .ok ((), payload))
      () room (compressAll (fun _ chunk _ => ((), chunk)) () chunks) = .ok chunks.flatten := by
  induction chunks generalizing room with
  | nil => rfl
  | cons chunk chunks ih =>
    rw [List.flatten_cons, List.length_append] at hroom
    by_cases hchunk : chunk = []
    · have hrest := ih room (by omega)
      simpa [compressAll, nonempty, hchunk] using hrest
    · have hrest := ih (room - chunk.length) (by omega)
      have hfits : ¬ room < chunk.length := by omega
      simp [compressAll, nonempty, hchunk, decompressAll, hfits, hrest, bind, Except.bind]

/-- A compressor that stores, and looks at the room there is. -/
def cappedStream : StreamCodec where
  Enc := Unit
  Dec := Unit
  encoder := ()
  decoder := ()
  compress _ chunk _ := ((), chunk)
  decompress _ payload room :=
    if room < payload.length then .error "zstd decompressed data exceeds declared size" else .ok ((), payload)
  lossless := capped_lossless

theorem cappedStream_decodes : cappedStream.Decodes storedZstd := by
  intro dec payload room dec' out hroom hdec
  have hfits : ¬ room < payload.length ∧ payload = out := by
    simp only [cappedStream] at hdec
    split_ifs at hdec with hlarge
    exact ⟨hlarge, (Prod.mk.inj (Except.ok.inj hdec)).2⟩
  obtain ⟨hfits, rfl⟩ := hfits
  by_cases hnil : payload = []
  · subst hnil
    exact ⟨0, (), { stream := () }, rfl, rfl⟩
  · have hpos : 0 < payload.length := List.length_pos_iff.mpr hnil
    refine ⟨1, (), { stream := (), pos := payload.length, out := payload }, ?_, rfl⟩
    have hturn : ZstdStreamDecompressor.turn payload room
        ({ stream := () } : ZstdStreamDecompressor storedZstd) =
        .ok { stream := (), pos := payload.length, out := payload } := by
      have hroom' : ¬ subU64 room 0 < payload.length := by
        rw [subU64_eq (Nat.zero_le _) hroom]
        exact hfits
      exact if_neg hroom'
    unfold ZstdStreamDecompressor.decompress
    rw [ZstdStreamDecompressor.loop, if_pos hpos, hturn]
    dsimp only
    rw [ZstdStreamDecompressor.loop, if_neg (lt_irrefl _)]

/-- What an attempt is sent that loses its connection behind the header. -/
def lostInputs : List StreamInput :=
  [.frame (.manifest hiManifest), .frame (hiHeader "hi.txt"), .broken "connection closed"]

/-- What is drawn when the attempt is lost, and tried again. -/
def shownAgain : TransferProgressState :=
  let x₀ : StreamRecv cappedStream × History × TransferProgressState :=
    ({ loop := { disk := hiDisk } }, {}, { maxLogLines := 8 })
  (((Lts.run (StreamRecv.draw sampleEnv) x₀ lostInputs).getD x₀).2.2).onAll
    [.transferRetry 2 5 "connection closed", .transferRetryDelay 2 5 1000]

theorem shown_again :
    Shown sampleEnv cappedStream MuxDelivery.storedCodec 8 .connecting {} shownAgain := by
  obtain ⟨x, hrun, hlost⟩ := Lts.exists_run_eq (StreamRecv.draw sampleEnv)
    (({ loop := { disk := hiDisk } } : StreamRecv cappedStream), {}, { maxLogLines := 8 }) lostInputs
    (fun x => (ReceiveCall.stream x.1).broken) (by decide +kernel)
  have hstart : Shown sampleEnv cappedStream MuxDelivery.storedCodec 8 .connecting {}
      { maxLogLines := 8 } := .start
  have hdrawn := shown_draw (hstart.overStream hiDisk)
    (Lts.ReachUnder.of_run lostInputs hrun Lts.meets_true)
  have hretry := Shown.retry hdrawn hlost 2 5 1000 "connection closed"
  have hsame : shownAgain = x.2.2.onAll
      [.transferRetry 2 5 "connection closed", .transferRetryDelay 2 5 1000] := by
    rw [shownAgain, hrun]
    rfl
  rw [hsame]
  exact hretry

/-- A connection that is lost behind the header, and a call that is acknowledged. -/
theorem receive_progress_sample : ∃ (call : ReceiveCall cappedStream) (h : History) (s : TransferProgressState),
    Shown sampleEnv cappedStream MuxDelivery.storedCodec 8 call h s ∧ call.phase = .finished ∧ s.filesDone = 1 ∧
      s.overallDone = 3 ∧ Truthful sampleEnv call h s := by
  obtain ⟨x, hreach, hlast⟩ := Lts.Reach.exists_of_run (StreamRecv.draw sampleEnv)
    (({ loop := { disk := hiDisk } } : StreamRecv cappedStream), {}, shownAgain)
    (([Frame.manifest hiManifest] ++ hiWhole "hi.txt" ++ [Frame.done]).map .frame)
    (fun x => x.1.pc.phase = .finished ∧ x.2.2.filesDone = 1 ∧ x.2.2.overallDone = 3) (by decide +kernel)
  simp only [decide_eq_true_eq] at hlast
  obtain ⟨hfinished, hone, hthree⟩ := hlast
  have hshown := shown_draw (shown_again.overStream hiDisk) hreach
  exact ⟨.stream x.1, x.2.1, x.2.2, hshown, hfinished, hone, hthree, receive_progress cappedStream_decodes hshown⟩

end Kiko.Transfer
