import Kiko.Transfer.Progress

/-!
# What is shown, frame by frame

What the two receive loops have in common: a header, an answer, a manifest, the end of an entry and the
end of the transfer, and what each makes of the account.

The two loops answer the same frames with the same operations, and differ in who writes the payload.
The lemmas here are about an operation and its reports, whatever loop has called it, and each of them
is used once for `receive_files` and once for `receive_files_mux`.
-/

set_option autoImplicit false

namespace Kiko.Transfer

open Lexical FileTree Effect

/-! ### The operations of the loops -/

/-- Nothing but status lines has been reported, on the way of a loop. -/
def Loop.Tells (l l' : Loop) : Prop := Kiko.Transfer.Tells l.disk l'.disk

instance : Std.Refl Loop.Tells := ⟨fun l => refl_of Kiko.Transfer.Tells l.disk⟩

instance : IsTrans Loop Loop.Tells where
  trans _ _ _ h h' := trans_of Kiko.Transfer.Tells h h'

section Operations

variable {env : ReceiveEnv} {setup : EntrySetup} {l l' : Loop}

theorem tells_onDisk {α : Type} {m : ReceiveM α} (h : Along Tells m) :
    Along Loop.Tells (LoopM.onDisk m) := by
  intro l
  unfold Ensures LoopM.onDisk
  cases hm : m l.disk with
  | ok a d => exact ⟨h.ok hm, trivial⟩
  | error e d => exact h.error hm

theorem tells_modify {g : Loop → Loop} (hg : ∀ l, (g l).disk = l.disk) :
    Along Loop.Tells (modify g : LoopM Unit) :=
  along_modify fun l =>
    (congrArg (Kiko.Transfer.Tells l.disk) (hg l)).mpr (refl_of Kiko.Transfer.Tells l.disk)

theorem tells_takeFileHeader (header : Message) : Along Loop.Tells (env.takeFileHeader header) := by
  unfold ReceiveEnv.takeFileHeader
  apply Along.bind
  · exact tells_modify fun _ => rfl
  intro _
  dsimp only
  split_ifs
  · exact along_throw
  · apply along_get.bind
    intro l
    apply (tells_onDisk (tells_check _)).bind
    intro plan
    apply Along.bind
    · exact tells_modify fun _ => rfl
    intro _
    exact tells_onDisk (tells_prepare plan header)

theorem tells_endMarker (marker : Marker) : Along Loop.Tells (env.endMarker setup marker) := by
  apply (tells_onDisk (tells_completeMarker marker)).bind
  intro _
  exact tells_modify fun _ => rfl

theorem tells_takePayloadEnd {session : PayloadSession} {written : Nat} {trailer : Message} :
    Along Loop.Tells (takePayloadEnd env session written trailer) := by
  unfold takePayloadEnd
  split_ifs
  · exact along_throw
  · apply Along.bind
    · exact tells_modify fun _ => rfl
    intro _
    apply (tells_onDisk tells_completeReceived).bind
    intro size
    exact tells_modify fun _ => rfl

theorem takeFileHeader_counts {header : Message} {p : Pending}
    (h : env.takeFileHeader header l = .ok p l') :
    l'.fileCount = l.fileCount ∧ l'.grandTotal = l.grandTotal := by
  rcases takeFileHeader_result env header l with ⟨plan, -, -, hresult⟩ | ⟨e, hresult⟩
  · rw [hresult] at h
    cases hprep : env.prepare plan header l.disk with
    | ok p d =>
      rw [hprep] at h
      cases h
      exact ⟨rfl, rfl⟩
    | error e d =>
      rw [hprep] at h
      cases h
  · rw [hresult] at h
    cases h

theorem endMarker_counts {marker : Marker} (h : env.endMarker setup marker l = .ok () l') :
    l'.fileCount = l.fileCount + 1 ∧ l'.grandTotal = l.grandTotal := by
  simp only [ReceiveEnv.endMarker, bind, EStateM.bind, LoopM.onDisk] at h
  cases hm : env.completeMarker setup marker l.disk with
  | ok _ d =>
    rw [hm] at h
    cases h
    exact ⟨rfl, rfl⟩
  | error e d =>
    rw [hm] at h
    cases h

/-- `complete_received` answers the declared size. -/
theorem completeReceived_size {session : PayloadSession} {expected actual : String}
    {received size : Nat} {d d' : Disk}
    (h : env.completeReceived session expected received actual d = .ok size d') :
    size = session.setup.declaredSize := by
  simp only [ReceiveEnv.completeReceived, bind_tree, bind_check_ok] at h
  obtain ⟨_, -, _, -, h⟩ := h
  -- whichever digest was checked, the function ends the same way
  have hend {d₁ : Disk} (h : (env.finalizePartFile session.partPath session.setup.currentPath >>= fun _ =>
      env.applyFileMetadata session.setup.currentPath session.setup.header >>= fun _ =>
        pure session.setup.declaredSize) d₁ = .ok size d') : size = session.setup.declaredSize := by
    obtain ⟨_, d₂, -, h⟩ := bind_ok.mp h
    obtain ⟨_, d₃, -, h⟩ := bind_ok.mp h
    exact (pure_ok.mp h).1
  split_ifs at h
  · obtain ⟨_, d₁, -, h⟩ := bind_ok.mp h
    exact hend h
  · obtain ⟨_, d₁, -, h⟩ := bind_ok.mp h
    exact hend h

/-- A payload that is committed with a digest taken on the way has come whole. -/
theorem completeReceived_received {session : PayloadSession} {expected actual : String}
    {received size : Nat} {d d' : Disk}
    (h : env.completeReceived session expected received actual d = .ok size d')
    (hactual : actual ≠ "") : received = session.setup.declaredSize := by
  simp only [ReceiveEnv.completeReceived, bind_tree, bind_check_ok] at h
  obtain ⟨_, -, _, -, h⟩ := h
  rw [if_neg hactual] at h
  obtain ⟨_, d₁, hverify, -⟩ := bind_ok.mp h
  simp only [ReceiveEnv.verifyReceivedDigest, bind_tree] at hverify
  cases hcheck : env.receivedError d.tree session.partPath session.setup.relative received
      session.setup.declaredSize expected actual with
  | none =>
    unfold ReceiveEnv.receivedError at hcheck
    by_contra hne
    rw [if_pos hne] at hcheck
    cases hcheck
  | some e =>
    simp only [hcheck] at hverify
    obtain ⟨_, _, -, hverify⟩ := bind_ok.mp hverify
    exact absurd hverify throw_ne_ok

theorem takePayloadEnd_counts {session : PayloadSession} {written : Nat} {trailer : Message}
    (h : takePayloadEnd env session written trailer l = .ok () l') :
    l'.fileCount = l.fileCount + 1 ∧
      l'.grandTotal = (l.grandTotal + session.setup.declaredSize) % 2 ^ 64 := by
  unfold takePayloadEnd at h
  by_cases hmore : session.setup.declaredSize < written
  · rw [if_pos hmore] at h
    cases h
  rw [if_neg hmore] at h
  simp only [LoopM.countFile, bind, EStateM.bind, modify, modifyGet, MonadStateOf.modifyGet,
    EStateM.modifyGet, LoopM.onDisk] at h
  cases hc : env.completeReceived session (trailer.get "sha256") written "" l.disk with
  | ok size d =>
    have hsize := completeReceived_size hc
    simp only [hc] at h
    cases h
    rw [hsize]
    exact ⟨rfl, rfl⟩
  | error e d =>
    simp only [hc] at h
    cases h

/-- An answer that is taken is one. -/
theorem onAck_frame {p : Pending} {frame : Frame} {result : Session ⊕ Pending} {d d' : Disk}
    (h : env.onAck p frame d = .ok result d') : ∃ message, frame = .resumeAck message := by
  -- every question begins with `recv_resume_ack`
  cases p with
  | _ =>
    simp only [ReceiveEnv.onAck, bind_check_ok] at h
    obtain ⟨_, hframe, -⟩ := h
    exact recvResumeAck_frame hframe

/-- The entry of a session fits in what its header has declared. -/
theorem onAck_entry {p : Pending} {frame : Frame} {session : Session} {d d' : Disk}
    (hp : (Phase.await p).Sound env d.tree) (hm : (Phase.await p).Measured)
    (h : env.onAck p frame d = .ok (.inl session) d') :
    session.entry.done ≤ session.entry.size ∧ session.entry.size ≤ u64Max ∧
      session.entry.size ≤ p.setup.declaredSize := by
  cases p with
  | marker setup marker =>
    simp only [ReceiveEnv.onAck, bind_check_ok] at h
    obtain ⟨_, -, h⟩ := h
    obtain rfl := Sum.inl.inj (pure_ok.mp h).1
    exact ⟨le_rfl, Nat.zero_le _, Nat.zero_le _⟩
  | conflictSkip setup =>
    simp only [ReceiveEnv.onAck, bind_check_ok] at h
    obtain ⟨_, -, h⟩ := h
    split_ifs at h
    · exact absurd h throw_ne_ok
    · obtain rfl := Sum.inl.inj (pure_ok.mp h).1
      exact ⟨le_rfl, hm, le_rfl⟩
  | duplicate setup =>
    simp only [ReceiveEnv.onAck, bind_check_ok] at h
    obtain ⟨_, -, h⟩ := h
    split_ifs at h
    · obtain ⟨_, _, -, h⟩ := bind_ok.mp h
      cases (pure_ok.mp h).1
    · obtain ⟨_, _, -, h⟩ := bind_ok.mp h
      rw [bind_status] at h
      obtain rfl := Sum.inl.inj (pure_ok.mp h).1
      exact ⟨le_rfl, hm, le_rfl⟩
  | payload setup part hashed prefixSha256 =>
    have hack := h
    simp only [ReceiveEnv.onAck, bind_check_ok] at h
    obtain ⟨accepted, hframe, h⟩ := h
    obtain ⟨s, d₂, hacc, h⟩ := bind_ok.mp h
    obtain ⟨heq, rfl⟩ := pure_ok.mp h
    obtain rfl := Sum.inl.inj heq
    have hsession := (onAck_measured hp hm).1 s hack
    have hsame : s.setup = setup := (acceptOffset_offered hp (recvResumeAck_le hframe) hacc).1
    exact ⟨hsession.resume, hsession.declared, by rw [← hsame]; exact le_rfl⟩

end Operations

section Totals

variable (f : Figures)

theorem overallTotal_fileAdvance (n : Nat) :
    (f.on (.fileAdvance n)).overallTotal = f.overallTotal := by
  show (if f.over then f else _).overallTotal = _
  split_ifs
  · rfl
  · rfl

theorem overallTotal_advance (n : Nat) : (f.onAll (advance n)).overallTotal = f.overallTotal := by
  unfold advance
  split_ifs
  · rfl
  · exact overallTotal_fileAdvance f n

theorem overallTotal_reports (session : Session) :
    (f.onAll session.reports).overallTotal = f.overallTotal := by
  cases session with
  | marker setup marker => rfl
  | skipPayload setup => exact overallTotal_fileAdvance _ _
  | receivePayload s =>
    unfold Session.reports
    dsimp only
    split_ifs
    · exact overallTotal_fileAdvance _ _
    · rfl

end Totals

section Frames

variable {env : ReceiveEnv} {exact : Prop} {l l' : Loop} {phase : Phase} {h : History}
  {ended : List Ended} {entry : Option OpenEntry} {f : Figures} {p p' : Pending} {frame : Frame}
  {session : Session} {d d' : Disk}

/-- A header is taken: a question is asked, and nothing is open yet. -/
theorem Told.header {header : Message} (ht : Told env exact l .idle h ended entry f)
    (hf : Facts env (l.intake .idle) h) (htake : env.takeFileHeader header l = .ok p l') :
    Told env exact l' (.await p)
      (h.observe env (l.intake .idle) (some (.fileHeader header)) (l'.intake (.await p))) ended none
      (f.onAll (env.frameReports l .idle (.fileHeader header) l' (.await p))) := by
  obtain rfl := ht.opens
  have htells : Tells l.disk l'.disk := (tells_takeFileHeader header).ok htake
  have hcounts := takeFileHeader_counts htake
  rw [onAll_frameReports htells]
  exact ht.move hf nofun ht.drawn rfl rfl rfl rfl (fun _ => hcounts) (Nat.zero_le _)

/-- An answer that is a question again. -/
theorem Told.askAgain (ht : Told env exact l (.await p) h ended entry f)
    (hf : Facts env (l.intake (.await p)) h) (hack : env.onAck p frame l.disk = .ok (.inr p') d) :
    Told env exact { l with disk := d } (.await p')
      (h.observe env (l.intake (.await p)) (some frame)
        (({ l with disk := d } : Loop).intake (.await p'))) ended none
      (f.onAll (env.frameReports l (.await p) frame { l with disk := d } (.await p'))) := by
  obtain rfl := ht.opens
  obtain ⟨message, rfl⟩ := onAck_frame hack
  have htells : Tells l.disk d := (tells_onAck p _).ok hack
  have hevents : env.frameEvents l (.await p) (.resumeAck message) { l with disk := d }
      (.await p') = [] := by
    simp only [ReceiveEnv.frameEvents, hack]
  rw [onAll_frameReports htells, hevents]
  exact ht.move hf nofun ht.drawn rfl rfl rfl rfl (fun _ => ⟨rfl, rfl⟩) (Nat.zero_le _)

/-- A question that is refused, or answered wrongly. -/
theorem Told.refused {e : KikoError} (ht : Told env exact l (.await p) h ended entry f)
    (hf : Facts env (l.intake (.await p)) h) (hack : env.onAck p frame l.disk = .error e d) :
    Told env exact { l with disk := d } (.thrown e)
      (h.observe env (l.intake (.await p)) (some frame)
        (({ l with disk := d } : Loop).intake (.thrown e))) ended entry
      (f.onAll (env.frameReports l (.await p) frame { l with disk := d } (.thrown e))) := by
  have htells : Tells l.disk d := (tells_onAck p frame).error hack
  have hevents : env.frameEvents l (.await p) frame { l with disk := d } (.thrown e) = [] := by
    simp only [ReceiveEnv.frameEvents, hack]
  rw [observe_thrown rfl, onAll_frameReports htells, hevents]
  exact ht.thrown hf nofun _ e

/-- **A session stands**: its entry is shown, with what there was of it already, also where its
    file cannot be opened. -/
theorem Told.answered {phase' : Phase} (ht : Told env exact l (.await p) h ended entry f)
    (hf : Facts env (l.intake (.await p)) h) (hack : env.onAck p frame l.disk = .ok (.inl session) d)
    (htells : Tells d d') (hopens : phase'.Opens (some session.entry)) :
    Told env exact { l with disk := d' } phase'
      (h.observe env (l.intake (.await p)) (some frame)
        (({ l with disk := d' } : Loop).intake phase')) ended
      (some session.entry)
      (f.onAll (env.frameReports l (.await p) frame { l with disk := d' } phase')) := by
  obtain rfl := ht.opens
  obtain ⟨message, rfl⟩ := onAck_frame hack
  obtain ⟨hdone, hmax, hdeclared⟩ := onAck_entry hf.sound.disk hf.measured hack
  have htold : Tells l.disk d' := trans_of Tells ((tells_onAck p _).ok hack) htells
  have hevents : env.frameEvents l (.await p) (.resumeAck message) { l with disk := d' } phase' =
      session.reports := by
    simp only [ReceiveEnv.frameEvents, hack]
  rw [onAll_frameReports htold, hevents]
  exact ht.move hf nofun (ht.drawn.opened ⟨hdone, hmax⟩) (overallTotal_reports f session) rfl rfl
    hopens (fun _ => ⟨rfl, rfl⟩) (hdone.trans hdeclared)

/-- A manifest that is refused changes nothing. -/
theorem takeManifest_error {text : ManifestText} {e : KikoError}
    (htake : env.takeManifest text l = .error e l') : l' = l := by
  rcases takeManifest_result env text l with ⟨_, _, _, _, _, _, _, hresult⟩ | ⟨e', hresult⟩
  · rw [hresult] at htake
    cases htake
  · rw [hresult] at htake
    cases htake
    rfl

theorem takeDone_result (l : Loop) : takeDone l = .ok () l ∨ ∃ e, takeDone l = .error e l := by
  simp only [takeDone, bind_get]
  cases validateReceivePlanComplete l.plan with
  | ok _ => exact .inl rfl
  | error e => exact .inr ⟨e, rfl⟩

theorem takeDone_same (htake : takeDone l = .ok () l') : l' = l := by
  rcases takeDone_result l with hresult | ⟨e, hresult⟩
  · rw [hresult] at htake
    cases htake
    rfl
  · rw [hresult] at htake
    cases htake

theorem takeDone_error {e : KikoError} (htake : takeDone l = .error e l') : l' = l := by
  rcases takeDone_result l with hresult | ⟨e, hresult⟩
  · rw [hresult] at htake
    cases htake
  · rw [hresult] at htake
    cases htake
    rfl

/-- A manifest is taken only where no header has come. -/
theorem takeManifest_idle {text : ManifestText} (hf : Facts env (l.intake phase) h)
    (hlive : phase.over = false) (htake : env.takeManifest text l = .ok () l') : phase = .idle := by
  rcases takeManifest_result env text l with ⟨_, _, _, hlate, _, _, _, _⟩ | ⟨e, hresult⟩
  · rcases hf.sound.early hlate with hidle | hover
    · exact hidle
    · have hover : phase.over = true := hover
      rw [hlive] at hover
      cases hover
  · rw [hresult] at htake
    cases htake

/-- **A manifest is taken**, before anything else: its total is what there is to come. -/
theorem Told.manifest {text : ManifestText} (ht : Told env exact l phase h ended entry f)
    (hf : Facts env (l.intake phase) h) (hlive : phase.over = false)
    (htake : env.takeManifest text l = .ok () l') :
    Told env exact l' phase
      (h.observe env (l.intake phase) (some (.manifest text)) (l'.intake phase)) ended entry
      (f.onAll (env.frameReports l phase (.manifest text) l' phase)) := by
  -- no header has come, so nothing has ended and nothing is open
  obtain rfl := takeManifest_idle hf hlive htake
  rcases takeManifest_result env text l with
    ⟨manifest, plan, d, hlate, -, hdecode, hplan, hresult⟩ | ⟨e, hresult⟩
  swap
  · rw [hresult] at htake
    cases htake
  rw [hresult] at htake
  cases htake
  obtain rfl := ht.opens
  obtain ⟨-, hnone⟩ := (hf.accounted nofun).early hlate
  have hweighs := ht.weighs
  rw [hnone] at hweighs
  cases hweighs
  obtain ⟨status, summary, htold, hbytes⟩ := preflightTransferManifest_told hplan
  have hreports : f.onAll (env.frameReports l .idle (.manifest text)
      { l with disk := d, plan := some plan, sawManifest := true } .idle) =
        { f with overallTotal := manifest.totalSize } := by
    show f.onAll (l.disk.told d ++ []) = _
    rw [htold, ← hbytes]
    rfl
  rw [hreports]
  refine ⟨⟨ht.drawn.going, ht.drawn.files, ht.drawn.overall, nofun, nofun⟩, ht.below, ?_, rfl,
    ht.counts, ?_⟩
  · show List.Forall₂ Weighs [] h.completed
    rw [hnone]
    exact .nil
  · intro text' htext
    obtain rfl : text = text' := Option.some.inj htext
    exact ⟨manifest, hdecode, rfl, Nat.zero_le _⟩

/-- **An entry ends**, and what was shown of it stays. -/
theorem Told.closed {e : OpenEntry} {trailer : Message} {c : Completion} {bytes : Nat}
    (ht : Told env exact l phase h ended (some e) f)
    (hcompletion : ∃ path size verified, phase.completion = [.fileComplete path size verified])
    (hending : (l.intake phase).ending env trailer (l'.intake .idle) = some c)
    (hweighs : Weighs { bytes := bytes, shown := e.done } c)
    (hbelow : e.done ≤ bytes ∧ (exact → e.done = bytes))
    (hcounts : l'.fileCount = l.fileCount + 1 ∧ l'.grandTotal = (l.grandTotal + bytes) % 2 ^ 64)
    (htells : Tells l.disk l'.disk) :
    Told env exact l' .idle (h.observe env (l.intake phase) (some (.fileEnd trailer)) (l'.intake .idle))
      (ended ++ [{ bytes := bytes, shown := e.done }]) none
      (f.onAll (env.frameReports l phase (.fileEnd trailer) l' .idle)) := by
  obtain ⟨path, size, verified, hcompletion⟩ := hcompletion
  have hgo : ∀ e, phase ≠ .thrown e := by
    intro e he
    rw [he] at hcompletion
    cases hcompletion
  have hevents : env.frameEvents l phase (.fileEnd trailer) l' .idle =
      [.fileComplete path size verified] := by
    rw [← hcompletion]
    cases phase with
    | await p => cases hcompletion
    | _ => rfl
  -- the history has the same entry as ended
  have hobserve : h.observe env (l.intake phase) (some (.fileEnd trailer)) (l'.intake .idle) =
      { h with completed := h.completed ++ [c] } := by
    show ({ h with completed := h.completed ++
      ((l.intake phase).ending env trailer (l'.intake .idle)).toList } : History) = _
    rw [hending]
    rfl
  obtain ⟨hcount, hgrand⟩ := ht.counts hgo
  rw [onAll_frameReports htells, hevents, hobserve]
  refine ⟨ht.drawn.closed bytes path size verified, ?_, ?_, rfl, fun _ => ⟨?_, ?_⟩, ?_⟩
  · intro e' he'
    rcases List.mem_append.mp he' with he' | he'
    · exact ht.below e' he'
    · obtain rfl := List.mem_singleton.mp he'
      exact hbelow
  · exact List.rel_append ht.weighs (.cons hweighs .nil)
  · rw [hcounts.1, hcount, List.length_append, List.length_singleton]
  · rw [hcounts.2, hgrand, Nat.mod_add_mod]
    simp [bytesOf]
  · -- what the open entry had shown is what the ended one has
    intro text hm
    obtain ⟨manifest, hdecode, hpromised, hle⟩ := ht.total text hm
    refine ⟨manifest, hdecode, hpromised, ?_⟩
    have hsame : shownOf (ended ++ [{ bytes := bytes, shown := e.done }]) none =
        shownOf ended (some e) := by
      simp [shownOf]
    rw [hsame]
    exact hle

/-- **The loop returns**: all of what was promised has come. -/
theorem Told.done (ht : Told env exact l .idle h ended entry f)
    (hf' : Facts env (l'.intake .finished)
      (h.observe env (l.intake .idle) (some .done) (l'.intake .finished)))
    (htake : takeDone l = .ok () l') :
    Complete env l' (h.observe env (l.intake .idle) (some .done) (l'.intake .finished))
      (f.onAll (env.frameReports l .idle .done l' .finished)) := by
  obtain rfl := takeDone_same htake
  obtain ⟨hcount, hgrand⟩ := ht.counts nofun
  have hreports : f.onAll (env.frameReports l' .idle .done l' .finished) =
      f.on (.transferComplete l'.fileCount l'.grandTotal) := onAll_frameReports (refl_of Tells l'.disk) f
  rw [hreports]
  have hlt : l'.grandTotal < 2 ^ 64 := by
    rw [hgrand]
    exact Nat.mod_lt _ (by decide)
  refine ⟨⟨rfl, rfl, rfl⟩, ⟨?_, rfl⟩, ⟨rfl, hlt⟩, ?_⟩
  · show l'.fileCount = h.completed.length
    rw [hcount, ht.weighs.length_eq]
  · -- the plan was found complete, so the entries that ended are all there are
    intro text hm
    obtain ⟨manifest, hdecode, hpromised, -⟩ := ht.total text hm
    obtain ⟨manifest', hdecode', -, hend⟩ := hf'.room nofun hm ht.weighs
    obtain rfl : manifest = manifest' := Except.ok.inj (hdecode.symm.trans hdecode')
    obtain ⟨hbytes, hlength⟩ := hend rfl
    have hmax := (decodeTransferManifest_total hdecode).2
    have hall : l'.grandTotal = manifest.totalSize := by
      rw [hgrand, hbytes]
      apply Nat.mod_eq_of_lt
      unfold u64Max at hmax
      omega
    refine ⟨manifest, hdecode, ?_, hall, ?_⟩
    · show (if f.overallTotal = 0 then l'.grandTotal else f.overallTotal) = _
      rw [hall, hpromised]
      split_ifs
      · rfl
      · rfl
    · show l'.fileCount = _
      rw [hcount, hlength]

end Frames

end Kiko.Transfer
