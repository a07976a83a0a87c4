import Kiko.Transfer.ProgressFrames

/-!
# What is shown of `receive_files`

Over one stream a payload is shown as it comes: the bytes shown of an open entry are the bytes its
partial file holds.

The decompressor stands between what has come and what is written. What is reported is what is
written, so a codec is asked here to run the decompressor of the library (`StreamCodec.Decodes`),
whose bound on the output is what keeps the bytes within the declared size.
-/

set_option autoImplicit false

namespace Kiko.Transfer

open Lexical FileTree Effect

/-! ## One stream -/

/-- What a codec decodes, `ZstdStreamDecompressor` has decoded, over a library, with a limit that is a
    64-bit word. -/
def StreamCodec.Decodes (codec : StreamCodec) (zstd : Zstd) : Prop :=
  ∀ dec payload room dec' out, room ≤ u64Max → codec.decompress dec payload room = .ok (dec', out) →
    ∃ (turns : Nat) (stream : zstd.DStream) (z : ZstdStreamDecompressor zstd),
      ZstdStreamDecompressor.decompress payload room turns stream = some (.ok z) ∧ z.out = out

theorem StreamCodec.Decodes.length_le {codec : StreamCodec} {zstd : Zstd} {dec dec' : codec.Dec}
    {payload out : Bytes} {room : Nat} (hcodec : codec.Decodes zstd) (hroom : room ≤ u64Max)
    (hdec : codec.decompress dec payload room = .ok (dec', out)) : out.length ≤ room := by
  obtain ⟨turns, stream, z, hz, rfl⟩ := hcodec dec payload room dec' out hroom hdec
  exact ZstdStreamDecompressor.decompress_length hroom hz

section Stream

variable {env : ReceiveEnv} {codec : StreamCodec} {zstd : Zstd} {l l' : Loop} {h : History}
  {ended : List Ended} {entry : Option OpenEntry} {f : Figures} {d d' : Disk}
  {s s' : StreamPayload codec} {pc : StreamPc codec}

/-- No payload is open, and the loop has not returned. -/
def Phase.resting : Phase → Bool
  | .payload _ _ _ | .finished => false
  | _ => true

/-- What is shown of `receive_files`: of an open payload, all that has come. -/
inductive StreamRecv.Follows (env : ReceiveEnv) {codec : StreamCodec} :
    StreamRecv codec → History → Figures → Prop
  | going {r : StreamRecv codec} {h : History} {f : Figures} {ended : List Ended}
      {entry : Option OpenEntry} (ht : Told env True r.loop r.pc.phase h ended entry f)
      (hgoing : r.pc.phase ≠ .finished)
      (hpayload : ∀ s, r.pc = .payload s →
        s.currentTotal = s.hashed.length ∧ doneOf entry = s.currentTotal) :
      StreamRecv.Follows env r h f
  | returned {r : StreamRecv codec} {h : History} {f : Figures} (hpc : r.pc.phase = .finished)
      (hc : Complete env r.loop h f) : StreamRecv.Follows env r h f

theorem StreamPc.phase_ne_thrown (hlive : pc.over = false) (e : KikoError) :
    pc.phase ≠ .thrown e := by
  intro he
  cases pc with
  | thrown e' => cases hlive
  | _ => cases he

theorem StreamPc.resting_payload (hrest : pc.phase.resting = true) : pc ≠ .payload s := by
  intro hpc
  rw [hpc] at hrest
  cases hrest

theorem StreamRecv.Follows.resting {r : StreamRecv codec}
    (ht : Told env True r.loop r.pc.phase h ended entry f) (hrest : r.pc.phase.resting = true) :
    StreamRecv.Follows env r h f := by
  refine .going ht ?_ fun s hs => absurd hs (StreamPc.resting_payload hrest)
  intro hpc
  rw [hpc] at hrest
  cases hrest

theorem commitReceivedPayload_carries {bytes : Bytes}
    (h : commitReceivedPayload s bytes d = .ok s' d') :
    s'.session = s.session ∧ s'.out = s.out ∧ s'.hashed = s.hashed ++ bytes ∧
      s'.currentTotal = s.currentTotal + bytes.length := by
  unfold commitReceivedPayload at h
  by_cases hnil : bytes = []
  · rw [if_pos hnil] at h
    obtain ⟨rfl, -⟩ := pure_ok.mp h
    rw [hnil]
    exact ⟨rfl, rfl, (List.append_nil _).symm, rfl⟩
  · rw [if_neg hnil] at h
    obtain ⟨_, d₁, -, h⟩ := bind_ok.mp h
    obtain ⟨rfl, -⟩ := pure_ok.mp h
    exact ⟨rfl, rfl, rfl, rfl⟩

/-- A data frame that is taken adds its bytes, and they fit. -/
theorem takeData_carries (hcodec : codec.Decodes zstd) {payload : Bytes}
    (h : takeData s payload d = .ok s' d')
    (hle : s.currentTotal ≤ s.session.setup.declaredSize)
    (hmax : s.session.setup.declaredSize ≤ u64Max) :
    s'.session = s.session ∧ s'.out = s.out ∧ ∃ bytes, s'.hashed = s.hashed ++ bytes ∧
      s'.currentTotal = s.currentTotal + bytes.length ∧ s'.currentTotal ≤ s.session.setup.declaredSize := by
  unfold takeData at h
  dsimp only at h
  by_cases hzstd : s.session.setup.useZstd = true
  · rw [if_pos hzstd, bind_check_ok] at h
    obtain ⟨_, -, h⟩ := h
    rw [bind_check_ok] at h
    obtain ⟨⟨dec, bytes⟩, hdec, h⟩ := h
    -- the room of the decompressor is what is left of the declared size
    obtain ⟨hsession, hout, hhashed, htotal⟩ := commitReceivedPayload_carries h
    have hfits := hcodec.length_le ((Nat.sub_le _ _).trans hmax) hdec
    refine ⟨hsession, hout, bytes, hhashed, htotal, ?_⟩
    rw [htotal]
    show s.currentTotal + bytes.length ≤ _
    omega
  · rw [if_neg hzstd, bind_check_ok] at h
    obtain ⟨_, hspace, h⟩ := h
    obtain ⟨hsession, hout, hhashed, htotal⟩ := commitReceivedPayload_carries h
    refine ⟨hsession, hout, payload, hhashed, htotal, ?_⟩
    rw [htotal]
    by_cases hnil : payload = []
    · rw [hnil]
      exact hle
    · rw [if_neg hnil] at hspace
      unfold ensureDeclaredSpace at hspace
      split_ifs at hspace with hover
      omega

/-- What a frame makes of what is shown. -/
def FrameFollows (env : ReceiveEnv) {codec : StreamCodec} (l : Loop) (pc : StreamPc codec)
    (h : History) (f : Figures) (frame : Frame)
    (result : EStateM.Result KikoError Loop (StreamPc codec × List Frame)) : Prop :=
  match result with
  | .ok (pc', _) l' =>
    Facts env (l'.intake pc'.phase)
        (h.observe env (l.intake pc.phase) (some frame) (l'.intake pc'.phase)) →
      StreamRecv.Follows env { loop := l', pc := pc' }
        (h.observe env (l.intake pc.phase) (some frame) (l'.intake pc'.phase))
        (f.onAll (({ loop := l, pc := pc } : StreamRecv codec).reports env (.frame frame)
          { loop := l', pc := pc' }))
  | .error e l' =>
    StreamRecv.Follows env { loop := l', pc := (.thrown e : StreamPc codec) }
      (h.observe env (l.intake pc.phase) (some frame) (l'.intake (.thrown e)))
      (f.onAll (({ loop := l, pc := pc } : StreamRecv codec).reports env (.frame frame)
        { loop := l', pc := .thrown e }))

/-- Only from payload to payload there is something to add to what a frame reports. -/
theorem reports_frame {frame : Frame} {pc' : StreamPc codec}
    (hrest : pc.phase.resting = true ∨ pc'.phase.resting = true) :
    ({ loop := l, pc := pc } : StreamRecv codec).reports env (.frame frame) { loop := l', pc := pc' } =
      env.frameReports l pc.phase frame l' pc'.phase := by
  cases pc with
  | payload s =>
    cases pc' with
    | payload s' =>
      rcases hrest with hrest | hrest
      · cases hrest
      · cases hrest
    | _ => exact List.append_nil _
  | _ => exact List.append_nil _

theorem reports_thrown {frame : Frame} {e : KikoError} :
    ({ loop := l, pc := pc } : StreamRecv codec).reports env (.frame frame)
        { loop := l', pc := .thrown e } =
      env.frameReports l pc.phase frame l' (.thrown e) := reports_frame (.inr rfl)

/-- A frame at which the loop throws. -/
theorem follows_error {frame : Frame} {e : KikoError}
    (ht : Told env True l' (.thrown e)
      (h.observe env (l.intake pc.phase) (some frame) (l'.intake (.thrown e))) ended entry
      (f.onAll (env.frameReports l pc.phase frame l' (.thrown e)))) :
    FrameFollows env l pc h f frame (.error e l') := by
  unfold FrameFollows
  dsimp only
  rw [reports_thrown]
  exact .resting ht rfl

/-- A frame at which the loop throws, but for an answer. -/
theorem follows_thrown (pc : StreamPc codec) {frame : Frame} {e : KikoError}
    (ht : Told env True l pc.phase h ended entry f) (hf : Facts env (l.intake pc.phase) h)
    (hlive : pc.over = false) (hphase : ∀ p, pc.phase ≠ .await p) (htells : Tells l.disk l'.disk) :
    FrameFollows env l pc h f frame (.error e l') :=
  follows_error (ht.frame_thrown hf (StreamPc.phase_ne_thrown hlive) hphase htells e)

/-- A frame after which no payload is open. -/
theorem follows_ok {frame : Frame} {pc' : StreamPc codec} {reply : List Frame}
    (hrest : pc'.phase.resting = true)
    (ht : Told env True l' pc'.phase
      (h.observe env (l.intake pc.phase) (some frame) (l'.intake pc'.phase)) ended entry
      (f.onAll (env.frameReports l pc.phase frame l' pc'.phase))) :
    FrameFollows env l pc h f frame (.ok (pc', reply) l') := by
  intro _
  rw [reports_frame (.inr hrest)]
  exact .resting ht hrest

/-- A manifest, where one may come. -/
theorem onFrame_manifest_follows (pc : StreamPc codec) {text : ManifestText}
    (ht : Told env True l pc.phase h ended entry f) (hf : Facts env (l.intake pc.phase) h)
    (hlive : pc.over = false) (hphase : ∀ p, pc.phase ≠ .await p)
    (hframe : onFrame env (.manifest text) pc = (do env.takeManifest text; return (pc, []))) :
    FrameFollows env l pc h f (.manifest text) (onFrame env (.manifest text) pc l) := by
  rw [hframe]
  simp only [bind, EStateM.bind]
  cases htake : env.takeManifest text l with
  | ok _ l' =>
    have hidle : pc = .idle := by
      have hphase' := takeManifest_idle hf (by cases pc <;> first | rfl | exact hlive) htake
      cases pc with
      | idle => rfl
      | _ => cases hphase'
    subst hidle
    exact follows_ok rfl (ht.manifest hf rfl htake)
  | error e l' =>
    obtain rfl := takeManifest_error htake
    exact follows_thrown pc ht hf hlive hphase (refl_of Tells l'.disk)

end Stream

section StreamFrames

variable {env : ReceiveEnv} {codec : StreamCodec} {zstd : Zstd} {l l' : Loop} {h : History}
  {ended : List Ended} {entry : Option OpenEntry} {f : Figures} {s : StreamPayload codec}

/-- The answer to a question. -/
theorem onFrame_await_follows {p : Pending} (ht : Told env True l (.await p) h ended entry f)
    (hf : Facts env (l.intake (.await p)) h) (frame : Frame) :
    FrameFollows env l (.await p : StreamPc codec) h f frame
      (onFrame env frame (.await p : StreamPc codec) l) := by
  simp only [onFrame, bind, EStateM.bind, LoopM.onDisk]
  cases hack : env.onAck p frame l.disk with
  | error e d => exact follows_error (ht.refused hf hack)
  | ok result d =>
    cases result with
    | inr p' => exact follows_ok rfl (ht.askAgain hf hack)
    | inl session =>
      cases session with
      | marker setup marker => exact follows_ok rfl (ht.answered hf hack (refl_of Tells d) rfl)
      | skipPayload setup => exact follows_ok rfl (ht.answered hf hack (refl_of Tells d) rfl)
      | receivePayload session =>
        have hready := (onAck_ready hf.sound.disk).1 session hack
        simp only [openSession, bind, EStateM.bind, LoopM.onDisk]
        cases hopen : env.openStream session d with
        | ok out d' =>
          intro _
          rw [reports_frame (.inl rfl)]
          have htold : Told env True { l with disk := d' } (.payload session out session.hashed) _
              ended (some (Session.receivePayload session).entry) _ :=
            ht.answered hf hack (tells_openStream.ok hopen)
              ⟨session.resumeOffset, hready.offset.le, rfl⟩
          refine .going htold Phase.noConfusion ?_
          rintro _ ⟨⟩
          exact ⟨hready.offset, rfl⟩
        | error e d' =>
          -- the file could not be opened, and its entry is shown all the same
          exact follows_error (ht.answered hf hack (tells_openStream.error hopen) trivial)

/-- **A data frame**: what has come is shown. -/
theorem onFrame_data_follows (hcodec : codec.Decodes zstd) {payload : Bytes}
    (ht : Told env True l (.payload s.session s.out s.hashed) h ended entry f)
    (hs : s.currentTotal = s.hashed.length ∧ doneOf entry = s.currentTotal)
    (hf : Facts env (l.intake (.payload s.session s.out s.hashed)) h) :
    FrameFollows env l (.payload s) h f (.data payload) (onFrame env (.data payload) (.payload s) l) := by
  simp only [onFrame, bind, EStateM.bind, LoopM.onDisk]
  obtain ⟨done, -, rfl⟩ := ht.opens
  obtain ⟨hlength, hdone⟩ := hs
  obtain rfl : done = s.currentTotal := hdone
  obtain ⟨hle, hmax⟩ := ht.drawn.fits _ rfl
  have hphase : ∀ p, Phase.payload s.session s.out s.hashed ≠ .await p := fun _ => Phase.noConfusion
  have hgo : ∀ e, Phase.payload s.session s.out s.hashed ≠ .thrown e := fun _ => Phase.noConfusion
  cases htake : takeData s payload l.disk with
  | error e d =>
    exact follows_thrown (.payload s) ht hf rfl hphase ((tells_takeData payload).error htake)
  | ok s' d =>
    obtain ⟨hsession, hout, bytes, hhashed, htotal, hfits⟩ := takeData_carries hcodec htake hle hmax
    intro _
    have hreports : f.onAll (({ loop := l, pc := .payload s } : StreamRecv codec).reports env
        (.frame (.data payload)) { loop := { l with disk := d }, pc := .payload s' }) =
          f.onAll (advance bytes.length) := by
      have hadded : s'.currentTotal - s.currentTotal = bytes.length := by
        rw [htotal, Nat.add_sub_cancel_left]
      show f.onAll (env.frameReports l (.payload s.session s.out s.hashed) (.data payload)
        { l with disk := d } (StreamPc.phase (.payload s')) ++
          advance (s'.currentTotal - s.currentTotal)) = _
      rw [onAll_append, onAll_frameReports ((tells_takeData payload).ok htake), hadded]
      rfl
    have hdrawn := ht.drawn.advanced (n := bytes.length) (htotal ▸ hfits)
    rw [hreports]
    refine @StreamRecv.Follows.going env codec _ _ _ ended (some {
      relative := s.session.setup.relative
      size := s.session.setup.declaredSize
      done := s'.currentTotal }) ?_ Phase.noConfusion ?_
    · refine ht.move hf hgo ?_ (overallTotal_advance f _) rfl rfl ?_ (fun _ => ⟨rfl, rfl⟩) hfits
      · rw [htotal]
        exact hdrawn
      · refine ⟨s'.currentTotal, ?_, by rw [hsession]⟩
        rw [htotal, hhashed, List.length_append, hlength]
    · rintro _ ⟨⟩
      refine ⟨?_, rfl⟩
      rw [htotal, hhashed, List.length_append, hlength]

/-- The end of a marker entry. -/
theorem Told.endMarker {exact : Prop} {setup : EntrySetup} {marker : Marker} {trailer : Message}
    (ht : Told env exact l (.marker setup marker) h ended entry f)
    (hf : Facts env (l.intake (.marker setup marker)) h)
    (hend : env.endMarker setup marker l = .ok () l') :
    ∃ ended', Told env exact l' .idle
      (h.observe env (l.intake (.marker setup marker)) (some (.fileEnd trailer)) (l'.intake .idle))
      ended' none
      (f.onAll (env.frameReports l (.marker setup marker) (.fileEnd trailer) l' .idle)) := by
  obtain rfl := ht.opens
  obtain ⟨hcount, hgrand⟩ := endMarker_counts hend
  have hending : ∃ how, (l.intake (.marker setup marker)).ending env trailer (l'.intake .idle) =
      some { setup := setup, how := how } := by
    cases marker with
    | directory => exact ⟨_, rfl⟩
    | symlink target skip =>
      cases skip with
      | true => exact ⟨_, rfl⟩
      | false => exact ⟨_, rfl⟩
  obtain ⟨how, hending⟩ := hending
  -- a marker declares no bytes, so nothing is added to the total
  have hwhole : l.grandTotal = (l.grandTotal + 0) % 2 ^ 64 := by
    rw [(ht.counts nofun).2, Nat.add_zero, Nat.mod_mod]
  refine ⟨_, ht.closed ⟨_, _, _, rfl⟩ hending (.inr ⟨rfl, ?_⟩) ⟨le_rfl, fun _ => rfl⟩
    ⟨hcount, hgrand.trans hwhole⟩ ((tells_endMarker marker).ok hend)⟩
  have hmarked : marker.For setup := hf.marked
  exact hmarked.kind

/-- The end of a skipped file. -/
theorem Told.endSkipped {exact : Prop} {setup : EntrySetup}
    (ht : Told env exact l (.skipping setup) h ended entry f) (trailer : Message)
    (hend : endSkipped setup l = .ok () l') :
    ∃ ended', Told env exact l' .idle
      (h.observe env (l.intake (.skipping setup)) (some (.fileEnd trailer)) (l'.intake .idle))
      ended' none
      (f.onAll (env.frameReports l (.skipping setup) (.fileEnd trailer) l' .idle)) := by
  obtain rfl := ht.opens
  cases hend
  refine ⟨_, ht.closed ⟨_, _, _, rfl⟩ rfl (.inl rfl) ⟨le_rfl, fun _ => rfl⟩ ⟨rfl, rfl⟩ ?_⟩
  exact refl_of Tells l.disk

/-- The end of an entry. -/
theorem onFrame_fileEnd_follows (pc : StreamPc codec) {trailer : Message}
    (ht : Told env True l pc.phase h ended entry f)
    (hpay : ∀ s, pc = .payload s → s.currentTotal = s.hashed.length ∧ doneOf entry = s.currentTotal)
    (hf : Facts env (l.intake pc.phase) h) (hlive : pc.over = false)
    (hphase : ∀ p, pc.phase ≠ .await p)
    (hframe : onFrame env (.fileEnd trailer) pc = (do takeFileEnd env trailer pc; return (.idle, []))) :
    FrameFollows env l pc h f (.fileEnd trailer) (onFrame env (.fileEnd trailer) pc l) := by
  rw [hframe]
  simp only [bind, EStateM.bind]
  cases pc with
  | marker setup marker =>
    simp only [takeFileEnd]
    cases hend : env.endMarker setup marker l with
    | ok _ l' =>
      obtain ⟨ended', htold⟩ := ht.endMarker hf hend
      exact follows_ok rfl htold
    | error e l' =>
      exact follows_thrown (.marker setup marker) ht hf hlive hphase
        ((tells_endMarker marker).error hend)
  | skipping setup =>
    obtain ⟨ended', htold⟩ := ht.endSkipped trailer rfl
    exact follows_ok rfl htold
  | payload s =>
    simp only [takeFileEnd, LoopM.onDisk, bind, EStateM.bind]
    obtain ⟨hlength, hdone⟩ := hpay s rfl
    obtain ⟨done, -, rfl⟩ := ht.opens
    obtain rfl : done = s.currentTotal := hdone
    cases hend : env.completeReceived s.session (trailer.get "sha256") s.currentTotal
        (env.prims.sha256Hex s.hashed) l.disk with
    | ok size d =>
      -- the digest was taken on the way, so the file is committed only if it has come whole
      have hsize := completeReceived_size hend
      have hwhole : s.currentTotal = size :=
        (completeReceived_received hend (env.prims.sha256Hex_ne _)).trans hsize.symm
      refine follows_ok rfl (ht.closed ⟨_, _, _, rfl⟩ rfl (.inl hsize)
        ⟨hwhole.le, fun _ => hwhole⟩ ⟨rfl, rfl⟩ ?_)
      exact tells_completeReceived.ok hend
    | error e d =>
      exact follows_thrown (.payload s) ht hf hlive hphase (tells_completeReceived.error hend)
  | idle => exact follows_thrown .idle ht hf hlive hphase (refl_of Tells l.disk)
  | await p => exact absurd rfl (hphase p)
  | finished => cases hlive
  | thrown e => cases hlive

/-- **Whatever frame it is, what is shown follows.** -/
theorem onFrame_follows (hcodec : codec.Decodes zstd) {pc : StreamPc codec}
    (ht : Told env True l pc.phase h ended entry f)
    (hpay : ∀ s, pc = .payload s → s.currentTotal = s.hashed.length ∧ doneOf entry = s.currentTotal)
    (hf : Facts env (l.intake pc.phase) h) (hlive : pc.over = false) (frame : Frame) :
    FrameFollows env l pc h f frame (onFrame env frame pc l) := by
  have hrefl := refl_of Tells l.disk
  cases pc with
  | finished => cases hlive
  | thrown e => cases hlive
  | await p => exact onFrame_await_follows ht hf frame
  -- no entry is open, so a header opens one and the end closes the account
  | idle =>
    have hphase : ∀ p, Phase.idle ≠ .await p := fun _ => Phase.noConfusion
    cases frame with
    | manifest text => exact onFrame_manifest_follows .idle ht hf hlive hphase rfl
    | fileHeader header =>
      have hframe : onFrame env (.fileHeader header) (.idle : StreamPc codec) =
          (do let pending ← env.takeFileHeader header
              return (.await pending, [.resume pending.request])) := rfl
      rw [hframe]
      simp only [bind, EStateM.bind]
      cases htake : env.takeFileHeader header l with
      | ok p l' => exact follows_ok rfl (ht.header hf htake)
      | error e l' =>
        exact follows_thrown .idle ht hf hlive hphase ((tells_takeFileHeader header).error htake)
    | done =>
      have hframe : onFrame env .done (.idle : StreamPc codec) =
          (do takeDone; return (.finished, [.ack])) := rfl
      rw [hframe]
      simp only [bind, EStateM.bind]
      cases htake : takeDone l with
      | ok _ l' =>
        intro hf'
        rw [reports_frame (.inl rfl)]
        exact .returned rfl (ht.done hf' htake)
      | error e l' =>
        obtain rfl := takeDone_error htake
        exact follows_thrown .idle ht hf hlive hphase (refl_of Tells l'.disk)
    | _ => exact follows_thrown .idle ht hf hlive hphase hrefl
  | marker setup marker =>
    have hphase : ∀ p, Phase.marker setup marker ≠ .await p := fun _ => Phase.noConfusion
    cases frame with
    | manifest text => exact onFrame_manifest_follows (.marker setup marker) ht hf hlive hphase rfl
    | fileEnd trailer => exact onFrame_fileEnd_follows (.marker setup marker) ht hpay hf hlive hphase rfl
    | _ => exact follows_thrown (.marker setup marker) ht hf hlive hphase hrefl
  -- what comes for a skipped file is not shown
  | skipping setup =>
    have hphase : ∀ p, Phase.skipping setup ≠ .await p := fun _ => Phase.noConfusion
    cases frame with
    | manifest text => exact onFrame_manifest_follows (.skipping setup) ht hf hlive hphase rfl
    | fileEnd trailer => exact onFrame_fileEnd_follows (.skipping setup) ht hpay hf hlive hphase rfl
    | data payload =>
      refine follows_ok rfl (?_ : Told env True l (.skipping setup) _ ended entry _)
      rw [onAll_frameReports hrefl]
      exact ht
    | _ => exact follows_thrown (.skipping setup) ht hf hlive hphase hrefl
  | payload s =>
    have hphase : ∀ p, Phase.payload s.session s.out s.hashed ≠ .await p := fun _ => Phase.noConfusion
    cases frame with
    | manifest text => exact onFrame_manifest_follows (.payload s) ht hf hlive hphase rfl
    | fileEnd trailer => exact onFrame_fileEnd_follows (.payload s) ht hpay hf hlive hphase rfl
    | data payload => exact onFrame_data_follows hcodec ht (hpay s rfl) hf
    | _ => exact follows_thrown (.payload s) ht hf hlive hphase hrefl

/-- **A step of `receive_files`.** -/
theorem StreamRecv.follows_next (hcodec : codec.Decodes zstd) {r r' : StreamRecv codec}
    {input : StreamInput}
    (hk : StreamRecv.Follows env r h f) (hf : Facts env r.intake h)
    (hf' : Facts env r'.intake (h.observe env r.intake input.seen r'.intake))
    (hr : r.next env input = some r') :
    StreamRecv.Follows env r' (h.observe env r.intake input.seen r'.intake)
      (f.onAll (r.reports env input r')) := by
  have hlive := StreamRecv.next_live hr
  obtain ⟨l, pc⟩ := r
  cases hk with
  | returned hpc hc =>
    have hpc : (StreamRecv.mk l pc).intake.phase = .finished := hpc
    rw [hpc] at hlive
    cases hlive
  | @going ended entry ht hgoing hpay =>
    have hover : pc.over = false := by
      cases pc with
      | finished => cases hlive
      | thrown e => cases hlive
      | _ => rfl
    have hgo := StreamPc.phase_ne_thrown hover
    unfold StreamRecv.next at hr
    rw [if_neg (by rw [hover]; exact Bool.false_ne_true)] at hr
    have hr := Option.some.inj hr
    cases input with
    | frame frame =>
      dsimp only at hr
      rw [feed_eq hover] at hr
      have hframe := onFrame_follows hcodec ht hpay hf hover frame
      cases honFrame : onFrame env frame pc l with
      | ok result l' =>
        obtain ⟨pc', reply⟩ := result
        rw [honFrame] at hr hframe
        obtain rfl := hr
        exact hframe hf'
      | error e l' =>
        rw [honFrame] at hr hframe
        obtain rfl := hr
        exact hframe
    -- a stream that ends leaves the loop with an error, and the figures as they were
    | closed =>
      have hclosed : ∃ e, r' = { loop := l, pc := .thrown e } := by
        obtain rfl := hr
        cases pc with
        | finished => cases hover
        | thrown e => cases hover
        | _ => exact ⟨_, rfl⟩
      obtain ⟨e, rfl⟩ := hclosed
      exact .resting (ht.thrown hf hgo l e) rfl
    | broken e =>
      obtain rfl := hr
      exact .resting (ht.thrown hf hgo l e) rfl

end StreamFrames

end Kiko.Transfer
