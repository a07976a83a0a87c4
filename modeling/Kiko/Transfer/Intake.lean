import Kiko.Lib.Transition
import Kiko.Transfer.Stream
import Kiko.Transfer.Mux

/-!
# A receiver that is sent anything at all

`receive_files` and `receive_files_mux` against a peer that may send whatever it likes, in
any order, and go away at any time. What the two loops do to the disk and to the plan is the
same, and `Intake.Step` says what: an entry is prepared, its answer is taken, its partial
file is written, its trailer ends it. Both loops take only such steps (`StreamRecv.next_step`,
`MuxLoop.next_step`), so what holds of every run of `Intake.Step` holds of both
(`Received.invariant`).

`History` remembers what a receiver has been through: the manifest it has taken, the headers
it has accepted, and how each entry ended. It is read off the steps of the real loops, not of
the abstract one.

The two loops differ in how they are written and hardly in what they do. Without a common
relation each invariant of a receiver would be proved twice, over some twenty branches each
time, and a new message would be a new branch in every one of those proofs. With it a branch
is looked at twice altogether, once for each loop, where it is shown to be a step. The
relation is wider than the code on purpose: it says what may happen to the disk and to the
plan, and not which frame makes it happen, so a loop may be changed without it as long as it
does nothing new.

What it must not lose are the guards. A step that ends an entry says that the digest was
verified, one that opens a payload says what was asked and what was answered: the results
about what is committed rest on these premises and would be false of a relation without them.
-/

set_option autoImplicit false

namespace Kiko.Transfer

open Lexical FileTree

/-! ## Where a receiver stands

A phase is what the two program counters have in common: what has been asked, what is open,
whether the call is over. Counters, the readers of the mux path and the decompressor are left
behind. -/

/-- Where a receive loop stands, on either path. -/
inductive Phase
  | idle
  | await (pending : Pending)
  | marker (setup : EntrySetup) (marker : Marker)
  | skipping (setup : EntrySetup)
  /-- the partial file at `out` is open and holds `content` -/
  | payload (session : PayloadSession) (out : Place) (content : Bytes)
  /-- the payload is in, the trailer is next -/
  | received (session : PayloadSession)
  | finished
  | thrown (error : KikoError)
deriving DecidableEq, Repr

/-- The call is over. -/
def Phase.over : Phase → Bool
  | .finished | .thrown _ => true
  | _ => false

/-- A receive loop, without its counters. -/
structure Intake where
  disk : Disk
  plan : Option ReceivePlan := none
  sawManifest : Bool := false
  sawFileHeader : Bool := false
  phase : Phase := .idle

def StreamPc.phase {codec : StreamCodec} : StreamPc codec → Phase
  | .idle => .idle
  | .await p => .await p
  | .marker setup m => .marker setup m
  | .skipping setup => .skipping setup
  | .payload s => .payload s.session s.out s.hashed
  | .finished => .finished
  | .thrown e => .thrown e

def MuxPc.phase {n : Nat} : MuxPc n → Phase
  | .idle => .idle
  | .await p => .await p
  | .marker setup m => .marker setup m
  | .skipping setup _ => .skipping setup
  | .receiving s out recv => .payload s out recv.part
  | .payloadEnd s _ => .received s
  | .finished => .finished
  | .thrown e => .thrown e

/-- A loop at a phase. -/
def Loop.intake (l : Loop) (phase : Phase) : Intake where
  disk := l.disk
  plan := l.plan
  sawManifest := l.sawManifest
  sawFileHeader := l.sawFileHeader
  phase := phase

def StreamRecv.intake {codec : StreamCodec} (r : StreamRecv codec) : Intake :=
  r.loop.intake r.pc.phase

def MuxLoop.intake {n : Nat} (r : MuxLoop n) : Intake := r.loop.intake r.pc.phase

/-! ## The abstract receiver

`Step` has a constructor for each kind of thing that is done to the disk, and the operations
in it are those of the loops, taken from `Kiko.Transfer.FileSession` and not written again. An
operation that throws leaves the disk as it is and the receiver `thrown` (`after`). -/

/-- The partial file of a settled payload is opened: it holds what was hashed. -/
def ReceiveEnv.openPart (env : ReceiveEnv) (s : PayloadSession) : ReceiveM Phase := do
  let t ← ReceiveM.tree
  match env.partPlace t s.partPath with
  | none => throw ("failed to open output file: " ++ s.partPath.text)
  | some (place, _) =>
    ReceiveM.change [place] (t.set place (.file s.hashed))
    return .payload s place s.hashed

/-- The answer to a question: a settled session is opened. -/
def ReceiveEnv.settle (env : ReceiveEnv) (p : Pending) (frame : Frame) : ReceiveM Phase := do
  match ← env.onAck p frame with
  | .inl (.marker setup marker) => return .marker setup marker
  | .inl (.skipPayload setup) => return .skipping setup
  | .inl (.receivePayload s) => env.openPart s
  | .inr p => return .await p

/-- The disk with another content in the file at a place. -/
def Disk.put (d : Disk) (out : Place) (content : Bytes) : Disk :=
  { d with tree := d.tree.set out (.file content) }

/-- A frame that belongs to a payload, or none at all. -/
def Quiet : Option Frame → Prop
  | none | some (.data _) | some .chunkEnd => True
  | _ => False

namespace Intake

/-- The receiver after an operation on the disk. -/
def after {α : Type} (s : Intake) (m : ReceiveM α) (next : α → Phase) : Intake :=
  match m s.disk with
  | .ok a d => { s with disk := d, phase := next a }
  | .error e d => { s with disk := d, phase := .thrown e }

/-- What the digest of a received payload is taken of: the open file, or, where nothing was
    hashed on the way, the file as it is found. -/
inductive Digested (env : ReceiveEnv) : Phase → PayloadSession → String → Prop
  | hashed {session : PayloadSession} {out : Place} {content : Bytes} :
      Digested env (.payload session out content) session (env.prims.sha256Hex content)
  | found {session : PayloadSession} : Digested env (.received session) session ""

/-- What a receiver does when it is sent a frame, or goes on without one. -/
inductive Step (env : ReceiveEnv) : Intake → Option Frame → Intake → Prop
  | manifest {s : Intake} {text : ManifestText} {manifest : TransferManifest} {plan : ReceivePlan}
      {d : Disk} (hlate : s.sawFileHeader = false) (honce : s.sawManifest = false)
      (hdecode : decodeTransferManifest env.prims text = .ok manifest)
      (hplan : env.preflightTransferManifest manifest s.disk = .ok plan d) :
      Step env s (some (.manifest text)) { s with disk := d, plan := some plan, sawManifest := true }
  | header {s : Intake} {header : Message} {plan : Option ReceivePlan} (hphase : s.phase = .idle)
      (hpath : header.get "path" ≠ "")
      (hrecord : recordReceivePlanHeader s.plan (header.get "path") = .ok plan) :
      Step env s (some (.fileHeader header))
        ({ s with plan := plan, sawFileHeader := true }.after (env.prepare plan header) .await)
  | ack {s : Intake} {p : Pending} {frame : Frame} (hphase : s.phase = .await p) :
      Step env s (some frame) (s.after (env.settle p frame) id)
  | put {s : Intake} {f : Option Frame} {session : PayloadSession} {out : Place}
      {content content' : Bytes} {next : Phase} (hphase : s.phase = .payload session out content)
      (hquiet : Quiet f)
      (hnext : next = .payload session out content' ∨ next = .received session ∨ ∃ e, next = .thrown e) :
      Step env s f { s with disk := s.disk.put out content', phase := next }
  | marker {s : Intake} {setup : EntrySetup} {marker : Marker} {trailer : Message}
      (hphase : s.phase = .marker setup marker) :
      Step env s (some (.fileEnd trailer)) (s.after (env.completeMarker setup marker) fun _ => .idle)
  | skipped {s : Intake} {setup : EntrySetup} {trailer : Message} (hphase : s.phase = .skipping setup) :
      Step env s (some (.fileEnd trailer)) { s with phase := .idle }
  | commit {s : Intake} {session : PayloadSession} {trailer : Message} {size : Nat} {actual : String}
      (hphase : Digested env s.phase session actual) :
      Step env s (some (.fileEnd trailer))
        (s.after (env.completeReceived session (trailer.get "sha256") size actual) fun _ => .idle)
  | done {s : Intake} (hphase : s.phase = .idle) (hall : validateReceivePlanComplete s.plan = .ok ()) :
      Step env s (some .done) { s with phase := .finished }
  | stay {s : Intake} {f : Option Frame} (hquiet : Quiet f) : Step env s f s
  | fail {s : Intake} {f : Option Frame} {e : KikoError} {saw : Bool} :
      Step env s f { s with sawFileHeader := saw, phase := .thrown e }

end Intake

/-! ## What holds of the open file

The length a receiver has in mind is the length of the file on the disk. The source never asks
for it again once the file is open, so this is an invariant and not a check. -/

/-- The partial file stands at the place its path names, and holds `content`. -/
structure Stored (env : ReceiveEnv) (t : Tree) (part : FsPath) (out : Place) (content : Bytes) : Prop where
  located : locate t env.cwd part = some out
  holds : t out = some (.file content)
  ne : out ≠ []

/-- A settled payload goes on where the partial file ends. -/
structure Ready (env : ReceiveEnv) (t : Tree) (s : PayloadSession) : Prop where
  offset : s.resumeOffset = s.hashed.length
  offered : Offered env t s.partPath s.setup.declaredSize s.hashed

/-- What a phase says of the disk. -/
def Phase.Sound (env : ReceiveEnv) (t : Tree) : Phase → Prop
  | .await (.payload setup part hashed _) => Offered env t part setup.declaredSize hashed
  | .payload session out content => Stored env t session.partPath out content
  | .received session => ∃ out content, Stored env t session.partPath out content
  | _ => True

/-- What holds of a receiver at all times. -/
structure Intake.Sound (env : ReceiveEnv) (s : Intake) : Prop where
  disk : s.phase.Sound env s.disk.tree
  early : s.sawFileHeader = false → s.phase = .idle ∨ s.phase.over = true

section Sound

variable {env : ReceiveEnv} {s : Intake} {d d' : Disk} {t : Tree}

theorem preflightTransferManifest_ok {manifest : TransferManifest} {plan : ReceivePlan}
    (h : env.preflightTransferManifest manifest d = .ok plan d') :
    (∃ summary, env.preflight d.tree manifest = .ok (plan, summary)) ∧ d'.tree = d.tree ∧
      d'.touched = d.touched := by
  simp only [ReceiveEnv.preflightTransferManifest, bind_tree, bind_check_ok] at h
  obtain ⟨⟨plan', summary⟩, hplan, h⟩ := h
  rw [bind_status, bind_modify] at h
  obtain ⟨rfl, rfl⟩ := pure_ok.mp h
  exact ⟨⟨summary, hplan⟩, rfl, rfl⟩

/-- The question of a receiver is about the file that is there. -/
theorem prepare_sound {plan : Option ReceivePlan} {header : Message} {p : Pending}
    (h : env.prepare plan header d = .ok p d') : (Phase.await p).Sound env d'.tree := by
  simp only [ReceiveEnv.prepare, bind_tree, bind_check_ok] at h
  obtain ⟨setup, -, h⟩ := h
  split_ifs at h
  · obtain ⟨setup', marker, rfl⟩ := prepareSymlink_ok h
    trivial
  · obtain ⟨current, rfl⟩ := prepareDirectory_ok h
    trivial
  · simp only [ReceiveEnv.prepareFile, bind_tree] at h
    split_ifs at h
    · rw [bind_status] at h
      obtain ⟨rfl, -⟩ := pure_ok.mp h
      trivial
    · rw [bind_tree] at h
      split_ifs at h
      · obtain ⟨rfl, -⟩ := pure_ok.mp h
        trivial
      · obtain ⟨current, part, hashed, prefixSha256, rfl, hoff⟩ := preparePayload_ok h
        exact hoff

theorem recvResumeAck_le {frame : Frame} {requested declared accepted : Nat} {relative : String}
    (h : recvResumeAck frame requested declared relative = .ok accepted) : accepted ≤ requested := by
  cases frame with
  | resumeAck message =>
    simp only [recvResumeAck, bind, Except.bind] at h
    split at h
    next => cases h
    next n _ =>
      split_ifs at h with hle
      obtain rfl := Except.ok.inj h
      omega
  | _ => cases h

/-- What an answer leaves behind is ready, whoever gave it. -/
theorem onAck_ready {p : Pending} {frame : Frame} (hp : (Phase.await p).Sound env d.tree) :
    (∀ session, env.onAck p frame d = .ok (.inl (.receivePayload session)) d' →
      Ready env d'.tree session) ∧
    ∀ p', env.onAck p frame d = .ok (.inr p') d' → (Phase.await p').Sound env d'.tree := by
  cases p with
  | marker setup marker =>
    refine ⟨fun session h => ?_, fun p' h => ?_⟩ <;>
    · simp only [ReceiveEnv.onAck, bind_check_ok] at h
      obtain ⟨_, -, h⟩ := h
      cases (pure_ok.mp h).1
  | conflictSkip setup =>
    refine ⟨fun session h => ?_, fun p' h => ?_⟩ <;>
    · simp only [ReceiveEnv.onAck, bind_check_ok] at h
      obtain ⟨_, -, h⟩ := h
      split_ifs at h
      · exact absurd h throw_ne_ok
      · cases (pure_ok.mp h).1
  -- a duplicate that the sender has not is asked about again, as a file
  | duplicate setup =>
    refine ⟨fun session h => ?_, fun p' h => ?_⟩
    · simp only [ReceiveEnv.onAck, bind_check_ok] at h
      obtain ⟨_, -, h⟩ := h
      split_ifs at h
      · obtain ⟨_, _, -, h⟩ := bind_ok.mp h
        cases (pure_ok.mp h).1
      · obtain ⟨_, _, -, h⟩ := bind_ok.mp h
        rw [bind_status] at h
        cases (pure_ok.mp h).1
    · simp only [ReceiveEnv.onAck, bind_check_ok] at h
      obtain ⟨_, -, h⟩ := h
      split_ifs at h
      · obtain ⟨p'', d₁, hprep, h⟩ := bind_ok.mp h
        obtain ⟨heq, rfl⟩ := pure_ok.mp h
        obtain rfl := Sum.inr.inj heq
        obtain ⟨current, part, hashed, prefixSha256, rfl, hoff⟩ := preparePayload_ok hprep
        exact hoff
      · obtain ⟨_, _, -, h⟩ := bind_ok.mp h
        rw [bind_status] at h
        cases (pure_ok.mp h).1
  -- no more was accepted than was offered, and that is what is left of the file
  | payload setup part hashed prefixSha256 =>
    refine ⟨fun session h => ?_, fun p' h => ?_⟩
    · simp only [ReceiveEnv.onAck, bind_check_ok] at h
      obtain ⟨accepted, hack, h⟩ := h
      obtain ⟨s', d₁, hacc, h⟩ := bind_ok.mp h
      obtain ⟨heq, rfl⟩ := pure_ok.mp h
      obtain rfl := Session.receivePayload.inj (Sum.inl.inj heq)
      obtain ⟨rfl, rfl, -, hlen, hoff⟩ := acceptOffset_offered hp (recvResumeAck_le hack) hacc
      exact ⟨hlen, hoff⟩
    · simp only [ReceiveEnv.onAck, bind_check_ok] at h
      obtain ⟨_, -, h⟩ := h
      obtain ⟨_, _, -, h⟩ := bind_ok.mp h
      cases (pure_ok.mp h).1

theorem openPart_sound {session : PayloadSession} {next : Phase} (hr : Ready env d.tree session)
    (h : env.openPart session d = .ok next d') : next.Sound env d'.tree := by
  rw [ReceiveEnv.openPart, bind_tree] at h
  cases hp : env.partPlace d.tree session.partPath with
  | none =>
    rw [hp] at h
    exact absurd h throw_ne_ok
  | some p =>
    obtain ⟨place, content⟩ := p
    simp only [hp, bind_change] at h
    obtain ⟨hloc, hleaf, hne, -⟩ := partPlace_offered hr.offered hp
    obtain ⟨rfl, rfl⟩ := pure_ok.mp h
    exact ⟨(locate_set_file hleaf _ _).trans hloc, Tree.set_self .., hne⟩

theorem settle_sound {p : Pending} {frame : Frame} {next : Phase} (hp : (Phase.await p).Sound env d.tree)
    (h : env.settle p frame d = .ok next d') : next.Sound env d'.tree := by
  obtain ⟨result, d₁, hack, h⟩ := bind_ok.mp h
  obtain ⟨hready, hagain⟩ := @onAck_ready env d d₁ p frame hp
  cases result with
  | inl session =>
    cases session with
    | marker setup marker =>
      obtain ⟨rfl, rfl⟩ := pure_ok.mp h
      trivial
    | skipPayload setup =>
      obtain ⟨rfl, rfl⟩ := pure_ok.mp h
      trivial
    | receivePayload s => exact openPart_sound (hready s hack) h
  | inr p' =>
    obtain ⟨rfl, rfl⟩ := pure_ok.mp h
    exact hagain p' hack

/-- A file that is open can be written again. -/
theorem Stored.put {part : FsPath} {out : Place} {content : Bytes} (h : Stored env d.tree part out content)
    (content' : Bytes) : Stored env (d.put out content').tree part out content' where
  located := (locate_set_file (.inr ⟨_, h.holds⟩) _ _).trans h.located
  holds := Tree.set_self ..
  ne := h.ne

theorem Intake.after_sound {α : Type} {m : ReceiveM α} {next : α → Phase}
    (h : ∀ a d, m s.disk = .ok a d → (next a).Sound env d.tree) :
    (s.after m next).phase.Sound env (s.after m next).disk.tree := by
  unfold Intake.after
  cases hm : m s.disk with
  | ok a d => exact h a d hm
  | error e d => trivial

theorem Intake.after_saw {α : Type} (m : ReceiveM α) (next : α → Phase) :
    (s.after m next).sawFileHeader = s.sawFileHeader := by
  unfold Intake.after
  cases m s.disk <;> rfl

/-- **Every step is taken on a sound disk, and leaves one.** -/
theorem Intake.Sound.step {f : Option Frame} {s' : Intake} (h : s.Sound env)
    (hs : Intake.Step env s f s') : s'.Sound env := by
  have hbusy (hidle : s.phase ≠ .idle) (hover : s.phase.over = false) : s.sawFileHeader = true := by
    by_contra hsaw
    rcases h.early (by simpa using hsaw) with h' | h'
    · exact hidle h'
    · rw [hover] at h'
      cases h'
  cases hs with
  -- A manifest is planned before anything is written: only directories may be new.
  | manifest hlate honce hdecode hplan =>
    refine ⟨?_, h.early⟩
    obtain ⟨-, htree, -⟩ := preflightTransferManifest_ok hplan
    dsimp only
    rw [htree]
    exact h.disk
  -- What is asked is asked about the file that is there.
  | header hphase hpath hrecord =>
    refine ⟨after_sound fun p d hp => prepare_sound hp, fun hsaw => ?_⟩
    rw [after_saw] at hsaw
    cases hsaw
  -- The answer may be anyone's; it is the file that has to have been hashed.
  | @ack p frame hphase =>
    have hp : (Phase.await p).Sound env s.disk.tree := hphase ▸ h.disk
    refine ⟨after_sound fun next d hn => settle_sound hp hn, fun hsaw => ?_⟩
    rw [after_saw, hbusy (by simp [hphase]) (by rw [hphase]; rfl)] at hsaw
    cases hsaw
  | @put f session out content content' next hphase hquiet hnext =>
    have hstored : Stored env s.disk.tree session.partPath out content := by
      have := h.disk
      rwa [hphase] at this
    have hsaw := hbusy (by simp [hphase]) (by rw [hphase]; rfl)
    refine ⟨?_, fun hs => absurd (hsaw.symm.trans hs) (by simp)⟩
    rcases hnext with rfl | rfl | ⟨e, rfl⟩
    · exact hstored.put content'
    · exact ⟨out, content', hstored.put content'⟩
    · trivial
  | marker hphase =>
    refine ⟨after_sound fun _ _ _ => trivial, fun hsaw => ?_⟩
    rw [after_saw, hbusy (by simp [hphase]) (by rw [hphase]; rfl)] at hsaw
    cases hsaw
  | skipped hphase => exact ⟨trivial, fun _ => .inl rfl⟩
  | commit hphase =>
    refine ⟨after_sound fun _ _ _ => trivial, fun hsaw => ?_⟩
    have hbusy' : s.sawFileHeader = true := by
      generalize hp : s.phase = phase at hphase
      cases hphase <;> exact hbusy (by simp [hp]) (by rw [hp]; rfl)
    rw [after_saw, hbusy'] at hsaw
    cases hsaw
  | done hphase hall => exact ⟨trivial, fun _ => .inr rfl⟩
  | stay hquiet => exact h
  | fail => exact ⟨trivial, fun _ => .inr rfl⟩

end Sound

/-! ## The two loops take only such steps

One lemma for each function a loop calls on a frame, and from these one for the loop. A move
of the mux path that touches no file is a step that does nothing. -/

section Loops

variable {env : ReceiveEnv} {l l' : Loop}

theorem takeManifest_result (env : ReceiveEnv) (text : ManifestText) (l : Loop) :
    (∃ manifest plan d, l.sawFileHeader = false ∧ l.sawManifest = false ∧
        decodeTransferManifest env.prims text = .ok manifest ∧
        env.preflightTransferManifest manifest l.disk = .ok plan d ∧
        env.takeManifest text l = .ok () { l with disk := d, plan := some plan, sawManifest := true }) ∨
      ∃ e, env.takeManifest text l = .error e l := by
  unfold ReceiveEnv.takeManifest
  rw [bind_get]
  by_cases hlate : l.sawFileHeader = true
  · exact .inr ⟨_, by rw [if_pos hlate]; rfl⟩
  rw [if_neg hlate, bind_get]
  by_cases honce : l.sawManifest = true
  · exact .inr ⟨_, by rw [if_pos honce]; rfl⟩
  rw [if_neg honce]
  cases hdecode : decodeTransferManifest env.prims text with
  | error e => exact .inr ⟨e, rfl⟩
  | ok manifest =>
    cases hplan : env.preflightTransferManifest manifest l.disk with
    | ok plan d =>
      refine .inl ⟨manifest, plan, d, by simpa using hlate, by simpa using honce, rfl, hplan, ?_⟩
      simp [ReceiveM.check, LoopM.onDisk, bind, EStateM.bind, pure, EStateM.pure, hplan, modify,
        modifyGet, MonadStateOf.modifyGet, EStateM.modifyGet]
    | error e d =>
      have hd : d = l.disk := by
        simp only [ReceiveEnv.preflightTransferManifest, bind_tree] at hplan
        cases hpre : env.preflight l.disk.tree manifest with
        | error e' =>
          rw [hpre] at hplan
          cases hplan
          rfl
        | ok result =>
          rw [hpre] at hplan
          cases hplan
      refine .inr ⟨e, ?_⟩
      simp [ReceiveM.check, LoopM.onDisk, bind, EStateM.bind, pure, EStateM.pure, hplan, hd]

theorem takeFileHeader_result (env : ReceiveEnv) (header : Message) (l : Loop) :
    (∃ plan, header.get "path" ≠ "" ∧ recordReceivePlanHeader l.plan (header.get "path") = .ok plan ∧
        env.takeFileHeader header l =
          match env.prepare plan header l.disk with
          | .ok p d => .ok p { l with disk := d, plan := plan, sawFileHeader := true }
          | .error e d => .error e { l with disk := d, plan := plan, sawFileHeader := true }) ∨
      ∃ e, env.takeFileHeader header l = .error e { l with sawFileHeader := true } := by
  unfold ReceiveEnv.takeFileHeader
  rw [bind_modify]
  by_cases hpath : header.get "path" = ""
  · exact .inr ⟨_, by simp only [if_pos hpath]; rfl⟩
  simp only [if_neg hpath]
  cases hrecord : recordReceivePlanHeader l.plan (header.get "path") with
  | error e =>
    refine .inr ⟨e, ?_⟩
    simp [bind, EStateM.bind, get, getThe, MonadStateOf.get, EStateM.get, LoopM.onDisk, ReceiveM.check,
      hrecord, throw, throwThe, MonadExceptOf.throw, EStateM.throw]
  | ok plan =>
    refine .inl ⟨plan, hpath, rfl, ?_⟩
    simp only [bind, EStateM.bind, get, getThe, MonadStateOf.get, EStateM.get, LoopM.onDisk,
      ReceiveM.check, hrecord, pure, EStateM.pure, modify, modifyGet, MonadStateOf.modifyGet,
      EStateM.modifyGet]
    cases env.prepare plan header l.disk <;> rfl

/-- A failure that leaves the disk as it is. -/
theorem fail_step (phase : Phase) (f : Option Frame) (e : KikoError) :
    Intake.Step env (l.intake phase) f (l.intake (.thrown e)) :=
  .fail (s := l.intake phase)

theorem takeManifest_step (env : ReceiveEnv) (l : Loop) (text : ManifestText) (phase : Phase) :
    match env.takeManifest text l with
    | .ok _ l' => Intake.Step env (l.intake phase) (some (.manifest text)) (l'.intake phase)
    | .error e l' => Intake.Step env (l.intake phase) (some (.manifest text)) (l'.intake (.thrown e)) := by
  rcases takeManifest_result env text l with ⟨manifest, plan, d, hlate, honce, hdecode, hplan, h⟩ | ⟨e, h⟩
  · rw [h]
    exact .manifest (s := l.intake phase) hlate honce hdecode hplan
  · rw [h]
    exact fail_step phase _ e

theorem takeFileHeader_step (env : ReceiveEnv) (l : Loop) (header : Message) :
    match env.takeFileHeader header l with
    | .ok p l' => Intake.Step env (l.intake .idle) (some (.fileHeader header)) (l'.intake (.await p))
    | .error e l' =>
      Intake.Step env (l.intake .idle) (some (.fileHeader header)) (l'.intake (.thrown e)) := by
  rcases takeFileHeader_result env header l with ⟨plan, hpath, hrecord, h⟩ | ⟨e, h⟩
  · have hstep : Intake.Step env (l.intake .idle) (some (.fileHeader header)) _ :=
      .header rfl hpath hrecord
    rw [h]
    unfold Intake.after at hstep
    cases hprep : env.prepare plan header l.disk with
    | ok p d =>
      have hprep' : env.prepare plan header (l.intake .idle).disk = .ok p d := hprep
      simp only [hprep'] at hstep
      exact hstep
    | error e d =>
      have hprep' : env.prepare plan header (l.intake .idle).disk = .error e d := hprep
      simp only [hprep'] at hstep
      exact hstep
  · rw [h]
    exact .fail (s := l.intake .idle)

theorem opened_content {t : Tree} {session : PayloadSession} {place : Place} {content : Bytes}
    (hr : Ready env t session) (hp : env.partPlace t session.partPath = some (place, content)) :
    (if 0 < session.resumeOffset then content else []) = session.hashed := by
  have hoff := hr.offset
  by_cases hpos : 0 < session.resumeOffset
  · have hne : session.hashed ≠ [] := by
      rintro hnil
      rw [hnil] at hoff
      simp only [List.length_nil] at hoff
      omega
    rw [if_pos hpos]
    exact ((partPlace_offered hr.offered hp).2.2.2 hne).1
  · rw [if_neg hpos]
    exact (List.eq_nil_of_length_eq_zero (by omega)).symm

/-- Appending to the partial file, or cutting it, opens it with what was hashed. -/
theorem openPart_openStream {d : Disk} {session : PayloadSession} (hr : Ready env d.tree session) :
    env.openPart session d =
      match env.openStream session d with
      | .ok out d' => .ok (.payload session out session.hashed) d'
      | .error e d' => .error e d' := by
  rw [ReceiveEnv.openPart, ReceiveEnv.openStream, bind_tree, bind_tree]
  cases hp : env.partPlace d.tree session.partPath with
  | none => rfl
  | some p =>
    obtain ⟨place, content⟩ := p
    have hcontent := opened_content hr hp
    simp only [bind_change, hcontent]
    rfl

theorem openPart_openMux {d : Disk} {session : PayloadSession} (hr : Ready env d.tree session) :
    env.openPart session d =
      match env.openMux session d with
      | .ok opened d' => .ok (.payload session opened.1 opened.2) d'
      | .error e d' => .error e d' := by
  rw [ReceiveEnv.openPart, ReceiveEnv.openMux, bind_tree, bind_tree]
  cases hp : env.partPlace d.tree session.partPath with
  | none => rfl
  | some p =>
    obtain ⟨place, content⟩ := p
    have hcontent := opened_content hr hp
    have hthere : ¬ (0 < session.resumeOffset ∧ (d.tree place).isNone = true) := by
      rintro ⟨hpos, hnone⟩
      have hne : session.hashed ≠ [] := by
        intro hnil
        have := hr.offset
        rw [hnil] at this
        simp only [List.length_nil] at this
        omega
      rw [((partPlace_offered hr.offered hp).2.2.2 hne).2] at hnone
      cases hnone
    simp only [if_neg hthere, bind_change, hcontent]
    rfl

theorem settle_eq (env : ReceiveEnv) (p : Pending) (frame : Frame) (d : Disk) :
    env.settle p frame d =
      match env.onAck p frame d with
      | .error e d => .error e d
      | .ok (.inr p) d => .ok (.await p) d
      | .ok (.inl (.marker setup m)) d => .ok (.marker setup m) d
      | .ok (.inl (.skipPayload setup)) d => .ok (.skipping setup) d
      | .ok (.inl (.receivePayload session)) d => env.openPart session d := by
  simp only [ReceiveEnv.settle, bind, EStateM.bind]
  rcases env.onAck p frame d with ⟨⟨session⟩ | p', d'⟩ | ⟨e, d'⟩
  · cases session <;> rfl
  · rfl
  · rfl

end Loops

section StreamLoop

variable {env : ReceiveEnv} {codec : StreamCodec} {l : Loop}

/-- A frame that leaves the loop at `pc`, or throws, does what the abstract receiver may do. -/
def FrameStep (env : ReceiveEnv) {codec : StreamCodec} (l : Loop) (phase : Phase) (frame : Frame)
    (result : EStateM.Result KikoError Loop (StreamPc codec × List Frame)) : Prop :=
  match result with
  | .ok (pc, _) l' => Intake.Step env (l.intake phase) (some frame) (l'.intake pc.phase)
  | .error e l' => Intake.Step env (l.intake phase) (some frame) (l'.intake (.thrown e))

theorem onFrame_await {p : Pending} (hp : (Phase.await p).Sound env l.disk.tree) (frame : Frame) :
    FrameStep env l (.await p) frame (onFrame env frame (.await p : StreamPc codec) l) := by
  have hstep : Intake.Step env (l.intake (.await p)) (some frame) _ := .ack rfl
  have hdisk : (l.intake (.await p)).disk = l.disk := rfl
  rw [Intake.after, hdisk, settle_eq] at hstep
  simp only [onFrame, FrameStep, bind, EStateM.bind, LoopM.onDisk]
  cases hack : env.onAck p frame l.disk with
  | error e d =>
    simp only [hack] at hstep
    exact hstep
  | ok result d =>
    simp only [hack] at hstep
    cases result with
    | inr p' => exact hstep
    | inl session =>
      cases session with
      | marker setup m => exact hstep
      | skipPayload setup => exact hstep
      | receivePayload session =>
        have hr := (onAck_ready hp).1 session hack
        simp only [openPart_openStream hr] at hstep
        simp only [openSession, bind, EStateM.bind, LoopM.onDisk]
        cases ho : env.openStream session d with
        | ok out d' =>
          simp only [ho] at hstep
          exact hstep
        | error e d' =>
          simp only [ho] at hstep
          exact hstep

theorem onFrame_manifest (pc : StreamPc codec) (text : ManifestText) :
    FrameStep env l pc.phase (.manifest text)
      ((do env.takeManifest text; return (pc, ([] : List Frame))) l) := by
  have hstep := takeManifest_step env l text pc.phase
  simp only [FrameStep, bind, EStateM.bind]
  cases h : env.takeManifest text l with
  | ok _ l' =>
    rw [h] at hstep
    exact hstep
  | error e l' =>
    rw [h] at hstep
    exact hstep

theorem onFrame_header (header : Message) :
    FrameStep env l .idle (.fileHeader header)
      ((do
        let pending ← env.takeFileHeader header
        return ((.await pending : StreamPc codec), [Frame.resume pending.request])) l) := by
  have hstep := takeFileHeader_step env l header
  simp only [FrameStep, bind, EStateM.bind]
  cases h : env.takeFileHeader header l with
  | ok p l' =>
    rw [h] at hstep
    exact hstep
  | error e l' =>
    rw [h] at hstep
    exact hstep

/-- A data frame is written at the end of the open file, or refused. -/
theorem takeData_result {s : StreamPayload codec} {d : Disk} {part : FsPath}
    (hs : Stored env d.tree part s.out s.hashed) (payload : Bytes) :
    (∃ e, takeData s payload d = .error e d) ∨
      ∃ (s' : StreamPayload codec) (d' : Disk), takeData s payload d = .ok s' d' ∧
        s'.session = s.session ∧ s'.out = s.out ∧
        ((s'.hashed = s.hashed ∧ d' = d) ∨ d' = d.put s.out s'.hashed) := by
  have hcommit (s₁ : StreamPayload codec) (hsession : s₁.session = s.session) (hout : s₁.out = s.out)
      (hhashed : s₁.hashed = s.hashed) (bytes : Bytes) :
      ∃ (s' : StreamPayload codec) (d' : Disk), commitReceivedPayload s₁ bytes d = .ok s' d' ∧
        s'.session = s.session ∧ s'.out = s.out ∧
        ((s'.hashed = s.hashed ∧ d' = d) ∨ d' = d.put s.out s'.hashed) := by
    unfold commitReceivedPayload
    by_cases hnil : bytes = []
    · rw [if_pos hnil]
      exact ⟨s₁, d, rfl, hsession, hout, .inl ⟨hhashed, rfl⟩⟩
    · rw [if_neg hnil]
      refine ⟨{ s₁ with hashed := s₁.hashed ++ bytes, currentTotal := s₁.currentTotal + bytes.length },
        d.put s.out (s₁.hashed ++ bytes), ?_, hsession, hout, .inr rfl⟩
      simp only [append, bind, EStateM.bind, ReceiveM.tree, get, getThe, MonadStateOf.get, EStateM.get,
        pure, EStateM.pure, hout, hs.holds, ReceiveM.change, modify, modifyGet,
        MonadStateOf.modifyGet, EStateM.modifyGet, List.append_nil, hhashed]
      rfl
  unfold takeData
  dsimp only
  by_cases hzstd : s.session.setup.useZstd = true
  · rw [if_pos hzstd]
    cases hspace : ensureDeclaredSpace s.currentTotal s.session.setup.declaredSize 0
        s.session.setup.relative with
    | error e => exact .inl ⟨e, rfl⟩
    | ok _ =>
      cases hdec : codec.decompress s.decompressor payload
          (s.session.setup.declaredSize - s.currentTotal) with
      | error e => exact .inl ⟨e, rfl⟩
      | ok out =>
        obtain ⟨dec, bytes⟩ := out
        exact .inr (hcommit { s with decompressor := dec } rfl rfl rfl bytes)
  · rw [if_neg hzstd]
    cases hspace : (if payload = [] then .ok () else
        ensureDeclaredSpace s.currentTotal s.session.setup.declaredSize payload.length
          s.session.setup.relative : Except KikoError Unit) with
    | error e => exact .inl ⟨e, rfl⟩
    | ok _ => exact .inr (hcommit s rfl rfl rfl payload)

theorem endMarker_step (env : ReceiveEnv) (l : Loop) (setup : EntrySetup) (m : Marker) (trailer : Message) :
    match env.endMarker setup m l with
    | .ok _ l' =>
      Intake.Step env (l.intake (.marker setup m)) (some (.fileEnd trailer)) (l'.intake .idle)
    | .error e l' =>
      Intake.Step env (l.intake (.marker setup m)) (some (.fileEnd trailer)) (l'.intake (.thrown e)) := by
  have hstep : Intake.Step env (l.intake (.marker setup m)) (some (.fileEnd trailer)) _ := .marker rfl
  have hdisk : (l.intake (.marker setup m)).disk = l.disk := rfl
  rw [Intake.after, hdisk] at hstep
  simp only [ReceiveEnv.endMarker, bind, EStateM.bind, LoopM.onDisk]
  cases h : env.completeMarker setup m l.disk with
  | ok _ d =>
    simp only [h] at hstep
    exact hstep
  | error e d =>
    simp only [h] at hstep
    exact hstep

theorem takeDone_step (env : ReceiveEnv) (l : Loop) :
    match takeDone l with
    | .ok _ l' => Intake.Step env (l.intake .idle) (some .done) (l'.intake .finished)
    | .error e l' => Intake.Step env (l.intake .idle) (some .done) (l'.intake (.thrown e)) := by
  simp only [takeDone, bind_get]
  cases h : validateReceivePlanComplete l.plan with
  | ok _ => exact .done (s := l.intake .idle) rfl h
  | error e => exact fail_step _ _ e

/-- **Whatever frame it is, `receive_files` does with it what the abstract receiver may do.** -/
theorem onFrame_step {pc : StreamPc codec} (hpc : pc.over = false)
    (hs : pc.phase.Sound env l.disk.tree) (frame : Frame) :
    FrameStep env l pc.phase frame (onFrame env frame pc l) := by
  cases pc with
  | finished => cases hpc
  | thrown e => cases hpc
  | await p => exact onFrame_await hs frame
  -- between two entries: a manifest, a header or the end
  | idle =>
    cases frame with
    | manifest text => exact onFrame_manifest .idle text
    | fileHeader header => exact onFrame_header header
    | done =>
      have hstep := takeDone_step env l
      have hframe : onFrame env .done (.idle : StreamPc codec) =
          (do takeDone; return (.finished, [.ack])) := rfl
      rw [hframe]
      simp only [FrameStep, bind, EStateM.bind]
      cases h : takeDone l with
      | ok _ l' =>
        rw [h] at hstep
        exact hstep
      | error e l' =>
        rw [h] at hstep
        exact hstep
    | _ => exact fail_step _ _ _
  | marker setup m =>
    cases frame with
    | manifest text => exact onFrame_manifest (.marker setup m) text
    | fileEnd trailer =>
      have hstep := endMarker_step env l setup m trailer
      simp only [onFrame, takeFileEnd, FrameStep, bind, EStateM.bind]
      cases h : env.endMarker setup m l with
      | ok _ l' =>
        rw [h] at hstep
        exact hstep
      | error e l' =>
        rw [h] at hstep
        exact hstep
    | _ => exact fail_step _ _ _
  -- what is skipped may still come, and is thrown away
  | skipping setup =>
    cases frame with
    | manifest text => exact onFrame_manifest (.skipping setup) text
    | data payload => exact .stay trivial
    | fileEnd trailer => exact .skipped (s := l.intake (.skipping setup)) rfl
    | _ => exact fail_step _ _ _
  | payload s =>
    cases frame with
    | manifest text => exact onFrame_manifest (.payload s) text
    | data payload =>
      simp only [onFrame, FrameStep, bind, EStateM.bind, LoopM.onDisk]
      rcases takeData_result hs payload with ⟨e, h⟩ | ⟨s', d', h, hsession, hout, hd⟩
      · rw [h]
        exact fail_step _ _ e
      · rw [h]
        simp only [pure, EStateM.pure, StreamPc.phase, hsession, hout]
        rcases hd with ⟨hhashed, rfl⟩ | rfl
        · rw [hhashed]
          exact .stay trivial
        · exact .put (s := l.intake (.payload s.session s.out s.hashed)) rfl trivial (.inl rfl)
    | fileEnd trailer =>
      have hstep := @Intake.Step.commit env (l.intake (.payload s.session s.out s.hashed)) _ trailer
        s.currentTotal _ .hashed
      have hdisk : (l.intake (.payload s.session s.out s.hashed)).disk = l.disk := rfl
      rw [Intake.after, hdisk] at hstep
      simp only [onFrame, takeFileEnd, FrameStep, bind, EStateM.bind, LoopM.onDisk]
      cases h : env.completeReceived s.session (trailer.get "sha256") s.currentTotal
          (env.prims.sha256Hex s.hashed) l.disk with
      | ok size d =>
        simp only [h] at hstep
        exact hstep
      | error e d =>
        simp only [h] at hstep
        exact hstep
    | _ => exact fail_step _ _ _

/-- What can happen to `receive_files`: a frame, the end of the channel, or an error that has
    another cause. -/
inductive StreamInput
  | frame (frame : Frame)
  | closed
  | broken (error : KikoError)

/-- The frame the loop takes. -/
def StreamInput.seen : StreamInput → Option Frame
  | .frame f => some f
  | _ => none

/-- `receive_files` goes on. -/
def StreamRecv.next (env : ReceiveEnv) (r : StreamRecv codec) (input : StreamInput) :
    Option (StreamRecv codec) :=
  if r.pc.over then none
  else some <|
    match input with
    | .frame frame => (r.feed env frame).1
    | .closed => r.closed
    | .broken e => { r with pc := .thrown e }

theorem StreamRecv.next_step {r r' : StreamRecv codec} {input : StreamInput}
    (hs : r.intake.Sound env) (h : r.next env input = some r') :
    Intake.Step env r.intake input.seen r'.intake := by
  obtain ⟨l, pc⟩ := r
  unfold StreamRecv.next at h
  split_ifs at h with hover
  obtain rfl := Option.some.inj h
  have hpc : pc.over = false := by simpa using hover
  cases input with
  | frame frame =>
    have hstep := onFrame_step hpc hs.disk frame
    dsimp only
    rw [feed_eq hpc]
    unfold FrameStep at hstep
    cases hframe : onFrame env frame pc l with
    | ok result l' =>
      rw [hframe] at hstep
      exact hstep
    | error e l' =>
      rw [hframe] at hstep
      exact hstep
  | closed =>
    cases pc with
    | finished => cases hpc
    | thrown e => cases hpc
    | _ => exact fail_step _ _ _
  | broken e => exact fail_step _ _ e

end StreamLoop

section MuxLoops

variable {env : ReceiveEnv} {m n : Nat} {l : Loop}

/-- What the loop makes of a frame is what the abstract receiver may do with it. -/
def ControlStep (env : ReceiveEnv) {n : Nat} (l : Loop) (phase : Phase) (frame : Frame)
    (result : EStateM.Result KikoError Loop (MuxPc n × List Frame)) : Prop :=
  match result with
  | .ok (pc, _) l' => Intake.Step env (l.intake phase) (some frame) (l'.intake pc.phase)
  | .error e l' => Intake.Step env (l.intake phase) (some frame) (l'.intake (.thrown e))

theorem onControl_await {p : Pending} (hp : (Phase.await p).Sound env l.disk.tree) (frame : Frame) :
    ControlStep env l (.await p) frame (onControl env frame (.await p : MuxPc n) l) := by
  have hstep : Intake.Step env (l.intake (.await p)) (some frame) _ := .ack rfl
  have hdisk : (l.intake (.await p)).disk = l.disk := rfl
  rw [Intake.after, hdisk, settle_eq] at hstep
  simp only [onControl, ControlStep, bind, EStateM.bind, LoopM.onDisk]
  cases hack : env.onAck p frame l.disk with
  | error e d =>
    simp only [hack] at hstep
    exact hstep
  | ok result d =>
    simp only [hack] at hstep
    cases result with
    | inr p' => exact hstep
    | inl session =>
      cases session with
      | marker setup m => exact hstep
      | skipPayload setup => exact hstep
      | receivePayload session =>
        have hr := (onAck_ready hp).1 session hack
        simp only [openPart_openMux hr] at hstep
        simp only [openMuxSession, bind, EStateM.bind, LoopM.onDisk]
        cases ho : env.openMux session d with
        | ok opened d' =>
          simp only [ho] at hstep
          exact hstep
        | error e d' =>
          simp only [ho] at hstep
          exact hstep

theorem takePayloadEnd_step (env : ReceiveEnv) (l : Loop) (session : PayloadSession) (written : Nat) (trailer : Message) :
    match takePayloadEnd env session written trailer l with
    | .ok _ l' => Intake.Step env (l.intake (.received session)) (some (.fileEnd trailer)) (l'.intake .idle)
    | .error e l' =>
      Intake.Step env (l.intake (.received session)) (some (.fileEnd trailer)) (l'.intake (.thrown e)) := by
  have hstep := @Intake.Step.commit env (l.intake (.received session)) _ trailer written _ .found
  have hdisk : (l.intake (.received session)).disk = l.disk := rfl
  rw [Intake.after, hdisk] at hstep
  unfold takePayloadEnd
  by_cases hmore : session.setup.declaredSize < written
  · rw [if_pos hmore]
    exact fail_step _ _ _
  · rw [if_neg hmore]
    simp only [LoopM.countFile, bind_modify]
    simp only [bind, EStateM.bind, LoopM.onDisk]
    cases h : env.completeReceived session (trailer.get "sha256") written "" l.disk with
    | ok size d =>
      simp only [h] at hstep
      exact hstep
    | error e d =>
      simp only [h] at hstep
      exact hstep

/-- **Whatever frame it is, `receive_files_mux` does with it what the abstract receiver may do.** -/
theorem onControl_step {pc : MuxPc n} (hpc : pc.over = false)
    (hreads : ∀ s out recv, pc ≠ .receiving s out recv) (hs : pc.phase.Sound env l.disk.tree)
    (frame : Frame) : ControlStep env l pc.phase frame (onControl env frame pc l) := by
  cases pc with
  | finished => cases hpc
  | thrown e => cases hpc
  -- while the readers are at work the loop reads no frame
  | receiving s out recv => exact absurd rfl (hreads s out recv)
  | await p => exact onControl_await hs frame
  -- between two entries: a manifest, a header or the end
  | idle =>
    cases frame with
    | manifest text =>
      have hstep := takeManifest_step env l text .idle
      simp only [onControl, ControlStep, bind, EStateM.bind]
      cases h : env.takeManifest text l with
      | ok _ l' =>
        rw [h] at hstep
        exact hstep
      | error e l' =>
        rw [h] at hstep
        exact hstep
    | fileHeader header =>
      have hstep := takeFileHeader_step env l header
      simp only [onControl, ControlStep, bind, EStateM.bind]
      cases h : env.takeFileHeader header l with
      | ok p l' =>
        rw [h] at hstep
        exact hstep
      | error e l' =>
        rw [h] at hstep
        exact hstep
    | done =>
      have hstep := takeDone_step env l
      simp only [onControl, ControlStep, bind, EStateM.bind]
      cases h : takeDone l with
      | ok _ l' =>
        rw [h] at hstep
        exact hstep
      | error e l' =>
        rw [h] at hstep
        exact hstep
    | _ => exact fail_step _ _ _
  -- what needs no payload waits for its trailer
  | marker setup m =>
    cases frame with
    | fileEnd trailer =>
      have hstep := endMarker_step env l setup m trailer
      simp only [onControl, ControlStep, bind, EStateM.bind]
      cases h : env.endMarker setup m l with
      | ok _ l' =>
        rw [h] at hstep
        exact hstep
      | error e l' =>
        rw [h] at hstep
        exact hstep
    | _ => exact fail_step _ _ _
  | skipping setup k =>
    by_cases hk : k < n
    · cases frame with
      | chunkEnd =>
        simp only [onControl, if_pos hk]
        exact .stay trivial
      | _ =>
        simp only [onControl, if_pos hk]
        exact fail_step _ _ _
    · cases frame with
      | fileEnd trailer =>
        simp only [onControl, if_neg hk]
        exact .skipped (s := l.intake (.skipping setup)) rfl
      | _ =>
        simp only [onControl, if_neg hk]
        exact fail_step _ _ _
  | payloadEnd s written =>
    cases frame with
    | fileEnd trailer =>
      have hstep := takePayloadEnd_step env l s written trailer
      simp only [onControl, ControlStep, bind, EStateM.bind]
      cases h : takePayloadEnd env s written trailer l with
      | ok _ l' =>
        rw [h] at hstep
        exact hstep
      | error e l' =>
        rw [h] at hstep
        exact hstep
    | _ => exact fail_step _ _ _

theorem control_step {r : MuxLoop n} (hpc : r.pc.over = false)
    (hreads : ∀ s out recv, r.pc ≠ .receiving s out recv) (hs : r.intake.Sound env) (frame : Frame) :
    Intake.Step env r.intake (some frame) (r.control env frame).1.intake := by
  have hstep := onControl_step hpc hreads hs.disk frame
  unfold ControlStep at hstep
  unfold MuxLoop.control
  cases hres : onControl env frame r.pc r.loop with
  | ok result l' =>
    rw [hres] at hstep
    exact hstep
  | error e l' =>
    rw [hres] at hstep
    exact hstep

/-- What can happen to `receive_files_mux`. -/
inductive MuxInput (n : Nat)
  | take (k : Fin n) (frame : Frame)
  | work (move : RecvMove n)
  | ret
  | closed
  | broken (error : KikoError)

/-- The frame the loop takes itself; the readers' are not its. -/
def MuxInput.seen {n : Nat} (r : MuxLoop n) : MuxInput n → Option Frame
  | .take _ frame =>
    match r.pc with
    | .receiving .. => none
    | _ => some frame
  | _ => none

/-- `receive_files_mux` goes on. -/
def MuxLoop.next (env : ReceiveEnv) (codec : BlockCodec) (r : MuxLoop (m + 1)) :
    MuxInput (m + 1) → Option (MuxLoop (m + 1))
  | .take k frame => (r.take env codec k frame).map (·.1)
  | .work move => r.work move
  | .ret => r.ret
  | .closed => r.closed
  | .broken e =>
    match r.pc with
    | .receiving .. | .finished | .thrown _ => none
    | _ => some { r with pc := .thrown e }

/-- The readers' work shows in the file that is open. -/
theorem wrote_step {session : PayloadSession} {out : Place} {recv : MuxRecv n} (recv' : MuxRecv n) :
    Intake.Step env (l.intake (.payload session out recv.part)) none
      ((MuxLoop.mk l (.receiving session out recv)).wrote session out recv').intake :=
  .put (s := l.intake (.payload session out recv.part)) rfl trivial (.inl rfl)

theorem MuxLoop.next_step {codec : BlockCodec} {r r' : MuxLoop (m + 1)} {input : MuxInput (m + 1)}
    (hs : r.intake.Sound env) (h : r.next env codec input = some r') :
    Intake.Step env r.intake (input.seen r) r'.intake := by
  obtain ⟨l, pc⟩ := r
  cases input with
  | take k frame =>
    obtain ⟨⟨r₁, reply⟩, htake, rfl⟩ := Option.map_eq_some_iff.mp h
    cases pc with
    | receiving s out recv =>
      obtain ⟨recv', -, heq⟩ := Option.map_eq_some_iff.mp htake
      obtain ⟨rfl, -⟩ := Prod.mk.inj heq
      exact wrote_step recv'
    | finished => simp [MuxLoop.take, MuxPc.reads] at htake
    | thrown e => simp [MuxLoop.take, MuxPc.reads] at htake
    | _ =>
      simp only [MuxLoop.take] at htake
      split_ifs at htake
      have hr₁ := congrArg Prod.fst (Option.some.inj htake)
      dsimp only at hr₁
      rw [← hr₁]
      exact control_step rfl (by simp) hs frame
  -- a move of a reader writes into the open file, or does nothing to the disk
  | work move =>
    cases pc with
    | receiving s out recv =>
      obtain ⟨recv', -, rfl⟩ := Option.map_eq_some_iff.mp h
      exact wrote_step recv'
    | _ => cases h
  -- the readers are joined: the file is cut at the front or the call fails
  | ret =>
    cases pc with
    | receiving s out recv =>
      simp only [MuxLoop.next, MuxLoop.ret] at h
      split_ifs at h
      obtain rfl := Option.some.inj h
      unfold MuxLoop.returned
      cases recv.result.1 with
      | ok written =>
        exact .put (s := l.intake (.payload s out recv.part)) rfl trivial (.inr (.inl rfl))
      | error e =>
        exact .put (s := l.intake (.payload s out recv.part)) rfl trivial (.inr (.inr ⟨e, rfl⟩))
    | _ => cases h
  | closed =>
    cases pc with
    | receiving s out recv => cases h
    | finished => cases h
    | thrown e => cases h
    | _ =>
      obtain rfl := Option.some.inj h
      exact fail_step _ _ _
  | broken e =>
    cases pc with
    | receiving s out recv => cases h
    | finished => cases h
    | thrown e => cases h
    | _ =>
      obtain rfl := Option.some.inj h
      exact fail_step _ _ e

end MuxLoops

/-! ## What a receiver has been through

The history is kept beside the receiver and not in it: the code has no such thing, and a step
must not be able to depend on it. `observe` looks at the state before and the state after,
which is enough, since an entry ends where a phase with a session gives way to one without. -/

/-- How an entry ended. -/
inductive How
  | created
  | skipped
  /-- the file that stands at the target, and the digest the trailer has named -/
  | committed (file : Option (Node Bytes)) (sha256 : String)
deriving DecidableEq, Repr

/-- An entry that has ended. -/
structure Completion where
  setup : EntrySetup
  how : How
deriving DecidableEq, Repr

/-- What a receiver has taken: the manifest, the headers it has asked about, and the entries
    that have ended. -/
structure History where
  manifest : Option ManifestText := none
  accepted : List Message := []
  completed : List Completion := []
deriving DecidableEq, Repr

/-- What a trailer has ended, between the state it was taken in and the state after it. -/
def Intake.ending (env : ReceiveEnv) (s : Intake) (trailer : Message) (s' : Intake) : Option Completion :=
  match s.phase with
  | .marker setup (.symlink _ true) | .skipping setup => some { setup := setup, how := .skipped }
  | .marker setup _ => some { setup := setup, how := .created }
  | .payload session _ _ | .received session =>
    let target := locate s.disk.tree env.cwd session.setup.currentPath
    some
      { setup := session.setup
        how := .committed (target.bind s'.disk.tree) (trailer.get "sha256") }
  | _ => none

/-- What a step adds to the history, seen from outside: the frame taken, and where the receiver
    stands before and after. -/
def History.observe (env : ReceiveEnv) (h : History) (s : Intake) (frame : Option Frame) (s' : Intake) :
    History :=
  match frame, s'.phase with
  | some (.manifest _), .thrown _ => h
  | some (.manifest text), _ => { h with manifest := some text }
  | some (.fileHeader header), .await _ => { h with accepted := h.accepted ++ [header] }
  | some (.fileEnd trailer), .idle =>
    { h with completed := h.completed ++ (s.ending env trailer s').toList }
  | _, _ => h

/-- A receiver with its history. -/
def watch {ρ ι : Type} (env : ReceiveEnv) (next : ρ → ι → Option ρ) (seen : ρ → ι → Option Frame)
    (view : ρ → Intake) (s : ρ × History) (input : ι) : Option (ρ × History) :=
  (next s.1 input).map fun r => (r, s.2.observe env (view s.1) (seen s.1 input) (view r))

/-- **What a receiver can come to**, from a disk, on either path, whatever it is sent. -/
inductive Received (env : ReceiveEnv) (d : Disk) : Intake → History → Prop
  | stream {codec : StreamCodec} {r : StreamRecv codec} {h : History}
      (hr : Lts.Reach (watch env (StreamRecv.next env) (fun _ input => StreamInput.seen input)
        StreamRecv.intake) ({ loop := { disk := d } }, {}) (r, h)) :
      Received env d r.intake h
  | mux {m : Nat} {codec : BlockCodec} {r : MuxLoop (m + 1)} {h : History}
      (hr : Lts.Reach (watch env (MuxLoop.next env codec) (fun r input => MuxInput.seen r input)
        MuxLoop.intake) ({ loop := { disk := d } }, {}) (r, h)) :
      Received env d r.intake h

section Received

variable {env : ReceiveEnv} {d : Disk} {s : Intake} {h : History}

theorem sound_start (env : ReceiveEnv) (d : Disk) : ({ disk := d } : Intake).Sound env :=
  ⟨trivial, fun _ => .inl rfl⟩

/-- A call that is over takes nothing more. -/
theorem StreamRecv.next_live {codec : StreamCodec} {r r' : StreamRecv codec} {input : StreamInput}
    (h : r.next env input = some r') : r.intake.phase.over = false := by
  obtain ⟨l, pc⟩ := r
  cases pc with
  | finished => cases h
  | thrown e => cases h
  | _ => rfl

theorem MuxLoop.next_live {m : Nat} {codec : BlockCodec} {r r' : MuxLoop (m + 1)} {input : MuxInput (m + 1)}
    (h : r.next env codec input = some r') : r.intake.phase.over = false := by
  obtain ⟨l, pc⟩ := r
  cases pc with
  | finished => cases input <;> simp [MuxLoop.next, MuxLoop.take, MuxLoop.work, MuxLoop.ret, MuxLoop.closed, MuxPc.reads] at h
  | thrown e => cases input <;> simp [MuxLoop.next, MuxLoop.take, MuxLoop.work, MuxLoop.ret, MuxLoop.closed, MuxPc.reads] at h
  | _ => rfl

/-- An invariant of the abstract receiver, along the runs of a loop that takes its steps. -/
theorem watch_invariant {ρ ι : Type} {next : ρ → ι → Option ρ} {seen : ρ → ι → Option Frame}
    {view : ρ → Intake} {r₀ : ρ} {s : ρ × History} {I : Intake → History → Prop}
    (hr : Lts.Reach (watch env next seen view) (r₀, {}) s)
    (hstep : ∀ {r r' : ρ} {input : ι}, (view r).Sound env → next r input = some r' →
      Intake.Step env (view r) (seen r input) (view r'))
    (hlive : ∀ {r r' : ρ} {input : ι}, next r input = some r' → (view r).phase.over = false)
    (hsound : (view r₀).Sound env) (start : I (view r₀) {})
    (keep : ∀ {s : Intake} {h : History} {f : Option Frame} {s' : Intake}, s.Sound env →
      s.phase.over = false → I s h → Intake.Step env s f s' → I s' (h.observe env s f s')) :
    (view s.1).Sound env ∧ I (view s.1) s.2 := by
  refine hr.invariant (I := fun s => (view s.1).Sound env ∧ I (view s.1) s.2) ⟨hsound, start⟩ ?_
  rintro ⟨r, h⟩ s' input ⟨hs, hI⟩ - hw
  obtain ⟨r', hnext, rfl⟩ := Option.map_eq_some_iff.mp hw
  have := hstep hs hnext
  exact ⟨hs.step this, keep hs (hlive hnext) hI this⟩

/-- **The invariant rule for receivers.** What holds at the start and survives every step of
    the abstract receiver, while it goes on, holds of both loops in every run. -/
theorem Received.invariant {I : Intake → History → Prop} (hr : Received env d s h)
    (start : I { disk := d } {})
    (keep : ∀ {s : Intake} {h : History} {f : Option Frame} {s' : Intake}, s.Sound env →
      s.phase.over = false → I s h → Intake.Step env s f s' → I s' (h.observe env s f s')) : I s h := by
  cases hr with
  | stream hr =>
    exact (watch_invariant hr StreamRecv.next_step StreamRecv.next_live (sound_start env d) start keep).2
  | mux hr => exact (watch_invariant hr MuxLoop.next_step MuxLoop.next_live (sound_start env d) start keep).2

end Received

/-! ## Runs under a condition

Where a statement holds only as long as something outside does (the output directory keeps
leading where it led, the names are none for partial files), the condition is one on the steps
of a run, and the run is that of `Received` with every step of it asked for the condition. -/

/-- A receiver with a record that is kept of its steps. -/
def track {ρ ι η : Type} (next : ρ → ι → Option ρ) (seen : ρ → ι → Option Frame) (view : ρ → Intake)
    (note : η → Intake → Option Frame → Intake → η) (s : ρ × η) (input : ι) : Option (ρ × η) :=
  (next s.1 input).map fun r => (r, note s.2 (view s.1) (seen s.1 input) (view r))

/-- **What a receiver can come to in steps that all meet `G`**, from a disk, on either path; `note`
    keeps the record. -/
inductive ReceivedUnder {η : Type} (env : ReceiveEnv) (G : Intake → Option Frame → Prop)
    (note : η → Intake → Option Frame → Intake → η) (h₀ : η) (d : Disk) : Intake → η → Prop
  | stream {codec : StreamCodec} {r : StreamRecv codec} {h : η}
      (hr : Lts.ReachUnder (track (StreamRecv.next env) (fun _ input => StreamInput.seen input)
        StreamRecv.intake note) (fun s input => G s.1.intake (StreamInput.seen input))
        ({ loop := { disk := d } }, h₀) (r, h)) :
      ReceivedUnder env G note h₀ d r.intake h
  | mux {m : Nat} {codec : BlockCodec} {r : MuxLoop (m + 1)} {h : η}
      (hr : Lts.ReachUnder (track (MuxLoop.next env codec) (fun r input => MuxInput.seen r input)
        MuxLoop.intake note) (fun s input => G s.1.intake (MuxInput.seen s.1 input))
        ({ loop := { disk := d } }, h₀) (r, h)) :
      ReceivedUnder env G note h₀ d r.intake h

section Under

variable {η : Type} {env : ReceiveEnv} {G : Intake → Option Frame → Prop}
  {note : η → Intake → Option Frame → Intake → η} {h₀ : η} {d : Disk} {s : Intake} {h : η}

theorem track_invariant {ρ ι : Type} {next : ρ → ι → Option ρ} {seen : ρ → ι → Option Frame}
    {view : ρ → Intake} {r₀ : ρ} {s : ρ × η} {I : Intake → η → Prop}
    (hr : Lts.ReachUnder (track next seen view note) (fun s input => G (view s.1) (seen s.1 input)) (r₀, h₀) s)
    (hstep : ∀ {r r' : ρ} {input : ι}, (view r).Sound env → next r input = some r' →
      Intake.Step env (view r) (seen r input) (view r'))
    (hlive : ∀ {r r' : ρ} {input : ι}, next r input = some r' → (view r).phase.over = false)
    (hsound : (view r₀).Sound env) (start : I (view r₀) h₀)
    (keep : ∀ {s : Intake} {h : η} {f : Option Frame} {s' : Intake}, s.Sound env → s.phase.over = false →
      I s h → G s f → Intake.Step env s f s' → I s' (note h s f s')) :
    (view s.1).Sound env ∧ I (view s.1) s.2 := by
  refine hr.invariant (I := fun s => (view s.1).Sound env ∧ I (view s.1) s.2) ⟨hsound, start⟩ ?_
  rintro ⟨r, h⟩ s' input ⟨hs, hI⟩ hG hw
  obtain ⟨r', hnext, rfl⟩ := Option.map_eq_some_iff.mp hw
  have := hstep hs hnext
  exact ⟨hs.step this, keep hs (hlive hnext) hI hG this⟩

/-- **The invariant rule under a condition.** -/
theorem ReceivedUnder.invariant {I : Intake → η → Prop} (hr : ReceivedUnder env G note h₀ d s h)
    (start : I { disk := d } h₀)
    (keep : ∀ {s : Intake} {h : η} {f : Option Frame} {s' : Intake}, s.Sound env → s.phase.over = false →
      I s h → G s f → Intake.Step env s f s' → I s' (note h s f s')) : I s h := by
  cases hr with
  | stream hr =>
    exact (track_invariant hr StreamRecv.next_step StreamRecv.next_live (sound_start env d) start keep).2
  | mux hr => exact (track_invariant hr MuxLoop.next_step MuxLoop.next_live (sound_start env d) start keep).2

end Under

end Kiko.Transfer
