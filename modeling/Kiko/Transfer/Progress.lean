import Kiko.Transfer.Acknowledged
import Kiko.Transfer.ManifestJson
import Kiko.Transfer.ProgressState
import Kiko.Transfer.Tells

/-!
# What is shown of a receive call (`core/progress`, `transfer_file_session`)

`Shown` is what a front end comes to draw while `run_recv` looks for a route, receives over one
stream or over many channels, fails and starts again. To say what the drawn figures mean there
is an account of the attempt: the entries that have ended with the bytes they came to, and the
one that is open.

`Told` relates the account, the loop and the figures, and `Facts.room` is why the account
stays within what the manifest has promised.

A display has numbers and a receiver has a disk, and there is no function from one to the
other: bytes are reported when they have come, on the mux path by readers that run on while the
report is made, and an entry that is left and taken up again is shown from its offset. What
they have in common is a ledger of entries. The account is that ledger; it is made from the
history of the receiver and not from the reports, so that a report too many would show.
-/

set_option autoImplicit false

namespace Kiko.Transfer

open Lexical FileTree Effect

/-! ## The figures

Of the state that is drawn only the numbers matter here, and whether it is over. What a report does to
them is a function of them alone. -/

/-- The numbers of a `TransferProgressState`. -/
structure Figures where
  currentFile : String
  currentDone : Nat
  currentSize : Nat
  overallDone : Nat
  overallTotal : Nat
  filesDone : Nat
  filesTotal : Nat
  finished : Bool
  failed : Bool
  canceled : Bool
deriving DecidableEq, Repr

/-- The transfer is over. -/
def Figures.over (f : Figures) : Bool := f.finished || f.failed || f.canceled

namespace Figures

/-- What a report does to the numbers. -/
def on (f : Figures) : ProgressEvent → Figures
  | .transferOverview fileCount totalBytes => { f with filesTotal := fileCount, overallTotal := totalBytes }
  | .receivePlan summary => { f with overallTotal := summary.totalBytes }
  | .fileStart path size => { f with currentFile := path, currentSize := size, currentDone := 0 }
  | .fileAdvance bytesDelta =>
    if f.over then f
    else { f with
      currentDone := addU64 f.currentDone bytesDelta
      overallDone := addU64 f.overallDone bytesDelta }
  | .fileComplete _ _ _ => { f with filesDone := f.filesDone + 1 }
  | .transferComplete fileCount totalBytes =>
    { f with
      filesTotal := fileCount
      filesDone := fileCount
      overallDone := totalBytes
      overallTotal := if f.overallTotal = 0 then totalBytes else f.overallTotal
      finished := true
      failed := false
      canceled := false }
  | .transferRetry _ _ _ =>
    { f with
      currentFile := ""
      currentDone := 0
      currentSize := 0
      overallDone := 0
      filesDone := 0
      finished := false
      failed := false
      canceled := false }
  | _ => f

/-- Reports, one after the other. -/
def onAll (f : Figures) (events : List ProgressEvent) : Figures := events.foldl on f

end Figures

namespace TransferProgressState

def figures (s : TransferProgressState) : Figures where
  currentFile := s.currentFile
  currentDone := s.currentDone
  currentSize := s.currentSize
  overallDone := s.overallDone
  overallTotal := s.overallTotal
  filesDone := s.filesDone
  filesTotal := s.filesTotal
  finished := s.finished
  failed := s.failed
  canceled := s.canceled

@[simp] theorem figures_appendLog (s : TransferProgressState) (text : String) :
    (s.appendLog text).figures = s.figures := rfl

/-- The texts have no part in the numbers. -/
theorem figures_on (s : TransferProgressState) (e : ProgressEvent) :
    (s.on e).figures = s.figures.on e := by
  cases e with
  | routeTiming timing =>
    show (s.routeTimingRecorded timing).figures = s.figures
    unfold routeTimingRecorded
    dsimp only
    split_ifs
    · rfl
    · rfl
  | fileAdvance bytesDelta =>
    show (s.fileAdvanced bytesDelta).figures = _
    unfold fileAdvanced Figures.on Figures.over
    cases hfinished : s.finished <;> cases hfailed : s.failed <;> cases hcanceled : s.canceled <;>
      simp [figures, hfinished, hfailed, hcanceled]
  | transferRetryDelay nextAttempt maxAttempts delayMs =>
    show (s.transferRetryWaiting nextAttempt maxAttempts delayMs).figures = s.figures
    unfold transferRetryWaiting
    split_ifs
    · rfl
    · rfl
  | _ => rfl

theorem figures_onAll (s : TransferProgressState) (events : List ProgressEvent) :
    (s.onAll events).figures = s.figures.onAll events := by
  induction events generalizing s with
  | nil => rfl
  | cons e events ih =>
    show ((s.on e).onAll events).figures = (s.figures.on e).onAll events
    rw [ih, figures_on]

end TransferProgressState

/-! ## What a receive loop reports

Each report stands where the source has it: some before the step they announce, some after it,
and those of an operation on the disk also when it throws. -/

def Report.event : Report → ProgressEvent
  | .status text => .status text
  | .receivePlan summary => .receivePlan summary

/-- What the operations on the disk have reported in between. -/
def Disk.told (d d' : Disk) : List ProgressEvent := (d'.log.drop d.log.length).map Report.event

/-- The end of the constructor of `ReceiveFileSession`. -/
def Session.reports : Session → List ProgressEvent
  | .marker setup _ => [.fileStart setup.relative 0]
  | .skipPayload setup => [.fileStart setup.relative setup.declaredSize, .fileAdvance setup.declaredSize]
  | .receivePayload s =>
    .fileStart s.setup.relative s.setup.declaredSize ::
      if 0 < s.resumeOffset then
        [.fileResume s.setup.relative s.resumeOffset s.setup.declaredSize, .fileAdvance s.resumeOffset]
      else []

/-- `complete_marker`, `complete_skipped` and `complete_received`. -/
def Phase.completion : Phase → List ProgressEvent
  | .marker setup _ => [.fileComplete setup.relative 0 false]
  | .skipping setup => [.fileComplete setup.relative setup.declaredSize true]
  | .payload s _ _ | .received s => [.fileComplete s.setup.relative s.setup.declaredSize true]
  | _ => []

/-- What either loop reports of a frame it takes, between the states before and after it, besides the
    operations on the disk. -/
def ReceiveEnv.frameEvents (env : ReceiveEnv) (l : Loop) (phase : Phase) (frame : Frame) (l' : Loop)
    (phase' : Phase) : List ProgressEvent :=
  match phase, frame, phase' with
  | .await p, frame, _ =>
    match env.onAck p frame l.disk with
    | .ok (.inl session) _ => session.reports
    | _ => []
  | phase, .fileEnd _, .idle => phase.completion
  | _, .done, .finished => [.transferComplete l'.fileCount l'.grandTotal]
  | _, _, _ => []

def ReceiveEnv.frameReports (env : ReceiveEnv) (l : Loop) (phase : Phase) (frame : Frame) (l' : Loop)
    (phase' : Phase) : List ProgressEvent :=
  l.disk.told l'.disk ++ env.frameEvents l phase frame l' phase'

/-- Bytes that have come. -/
def advance (bytesDelta : Nat) : List ProgressEvent := if bytesDelta = 0 then [] else [.fileAdvance bytesDelta]

/-- `receive_files`. -/
def StreamRecv.reports {codec : StreamCodec} (env : ReceiveEnv) (r : StreamRecv codec) (input : StreamInput)
    (r' : StreamRecv codec) : List ProgressEvent :=
  match input with
  | .frame frame =>
    env.frameReports r.loop r.pc.phase frame r'.loop r'.pc.phase ++
      match r.pc, r'.pc with
      | .payload s, .payload s' => advance (s'.currentTotal - s.currentTotal)
      | _, _ => []
  | _ => []

/-- `receive_files_mux`: the readers report how far the front has come. -/
def MuxLoop.reports {n : Nat} (env : ReceiveEnv) (r : MuxLoop n) (input : MuxInput n) (r' : MuxLoop n) :
    List ProgressEvent :=
  match r.pc, r'.pc, input with
  | .receiving _ _ recv, .receiving _ _ recv', _ => advance (recv'.advanced - recv.advanced)
  | .receiving _ _ _, _, _ => []
  | _, _, .take _ frame => env.frameReports r.loop r.pc.phase frame r'.loop r'.pc.phase
  | _, _, _ => []

/-! ## A receive call, with its reconnects

An attempt that is given up leaves its figures on the screen until the next one resets them. -/

/-- An attempt of `run_recv`: a route is looked for, then one of the loops runs. -/
inductive ReceiveCall (codec : StreamCodec)
  | connecting
  | stream (r : StreamRecv codec)
  | mux {m : Nat} (r : MuxLoop (m + 1))

/-- What is reported before a receive loop runs. -/
def ProgressEvent.early : ProgressEvent → Bool
  | .status _ | .connectivityReport _ | .routePhase _ _ | .routeOutcome _ | .routeTiming _ | .handshakeOk
  | .codeReady _ | .transferOverview _ _ => true
  | _ => false

namespace ReceiveCall

variable {codec : StreamCodec}

def phase : ReceiveCall codec → Phase
  | .connecting => .idle
  | .stream r => r.pc.phase
  | .mux r => r.pc.phase

/-- An attempt that is given up: it never came to a loop, or its loop has thrown. -/
def broken : ReceiveCall codec → Bool
  | .connecting => true
  | call =>
    match call.phase with
    | .thrown _ => true
    | _ => false

end ReceiveCall

/-- **What a front end comes to show** of `run_recv`, whatever each attempt is sent, over a stream or over
    many channels, and whatever the disk is when it starts. -/
inductive Shown (env : ReceiveEnv) (codec : StreamCodec) (block : BlockCodec) (maxLogLines : Nat) :
    ReceiveCall codec → History → TransferProgressState → Prop
  | start : Shown env codec block maxLogLines .connecting {} { maxLogLines := maxLogLines }
  | early {h : History} {s : TransferProgressState} (hs : Shown env codec block maxLogLines .connecting h s)
      {e : ProgressEvent} (he : e.early = true) : Shown env codec block maxLogLines .connecting h (s.on e)
  | overStream {h : History} {s : TransferProgressState} (hs : Shown env codec block maxLogLines .connecting h s)
      (d : Disk) : Shown env codec block maxLogLines (.stream { loop := { disk := d } }) {} s
  | overMux {h : History} {s : TransferProgressState} (hs : Shown env codec block maxLogLines .connecting h s)
      (m : Nat) (d : Disk) :
      Shown env codec block maxLogLines (.mux (m := m) { loop := { disk := d } }) {} s
  | stream {r r' : StreamRecv codec} {h : History} {s : TransferProgressState}
      (hs : Shown env codec block maxLogLines (.stream r) h s) {input : StreamInput}
      (hr : r.next env input = some r') :
      Shown env codec block maxLogLines (.stream r') (h.observe env r.intake input.seen r'.intake)
        (s.onAll (r.reports env input r'))
  | mux {m : Nat} {r r' : MuxLoop (m + 1)} {h : History} {s : TransferProgressState}
      (hs : Shown env codec block maxLogLines (.mux r) h s) {input : MuxInput (m + 1)}
      (hr : r.next env block input = some r') :
      Shown env codec block maxLogLines (.mux r') (h.observe env r.intake (input.seen r) r'.intake)
        (s.onAll (r.reports env input r'))
  | retry {call : ReceiveCall codec} {h : History} {s : TransferProgressState}
      (hs : Shown env codec block maxLogLines call h s) (hbroken : call.broken = true)
      (nextAttempt maxAttempts delayMs : Int) (reason : KikoError) :
      Shown env codec block maxLogLines .connecting {}
        (s.onAll [.transferRetry nextAttempt maxAttempts reason,
          .transferRetryDelay nextAttempt maxAttempts delayMs])

/-! ## What the manifest promises

The total that is shown as the whole is the one the plan was made with, and that is the sum of
what the files of the manifest are said to hold. -/

section Manifest

variable {env : ReceiveEnv} {t : Tree} {st st' : Preflight} {entry : TransferManifestEntry}
  {manifest : TransferManifest}

/-- The rounds leave the promised total in the summary. -/
theorem planEntry_totalBytes (h : env.planEntry t st entry = .ok st') :
    st'.summary.totalBytes = st.summary.totalBytes := by
  unfold ReceiveEnv.planEntry at h
  extract_lets isFile none rest fresh at h
  split_ifs at h with hpath
  · exact absurd h error_bind_ne
  simp -zeta only [fresh] at h
  split_ifs at h with hseen
  · exact absurd h error_bind_ne
  simp -zeta only [rest] at h
  obtain ⟨current, -, h⟩ := exists_of_bind_ok h
  extract_lets existing at h
  obtain ⟨total, -, h⟩ := exists_of_bind_ok h
  obtain ⟨⟨action, target⟩, -, h⟩ := exists_of_bind_ok h
  obtain ⟨_, -, h⟩ := exists_of_bind_ok h
  extract_lets st₁ summary planned overwritten resumed at h
  -- the round goes through four continuations; each is followed once
  suffices hresumed : ∀ resume, resumed () resume = .ok st' →
      st'.summary.totalBytes = st.summary.totalBytes by
    split_ifs at h
    · obtain ⟨_, -, h⟩ := exists_of_bind_ok h
      obtain ⟨resume, -, h⟩ := exists_of_bind_ok h
      exact hresumed resume h
    · exact hresumed none h
  intro resume h
  simp -zeta only [resumed] at h
  extract_lets accounted decided counted at h
  have haccounted {st₂ : Preflight} {summary : ReceivePlanSummary}
      (h : accounted () st₂ summary = .ok st') :
      st'.summary = summary := by
    simp -zeta only [accounted] at h
    extract_lets listed at h
    split_ifs at h
    · obtain ⟨written, -, h⟩ := exists_of_bind_ok h
      obtain rfl := Except.ok.inj h
      rfl
    · obtain rfl := Except.ok.inj h
      rfl
  have hdecided {summary : ReceivePlanSummary} (h : decided () summary = .ok st') :
      st'.summary.totalBytes = summary.totalBytes := by
    simp -zeta only [decided] at h
    extract_lets skipping at h
    split at h
    next => rw [haccounted h]
    next =>
      obtain ⟨st₂, -, h⟩ := exists_of_bind_ok h
      split_ifs at h
      · rw [haccounted h]
      · rw [haccounted h]
  have hcounted {summary : ReceivePlanSummary} (h : counted () summary = .ok st') :
      st'.summary.totalBytes = summary.totalBytes := by
    simp -zeta only [counted] at h
    extract_lets resuming at h
    split_ifs at h
    · have hsame := hdecided h
      exact hsame
    · exact hdecided h
  split_ifs at h
  · have hsame := hcounted h
    exact hsame
  · exact hcounted h

theorem planEntries_totalBytes {entries : List TransferManifestEntry}
    (h : entries.foldlM (env.planEntry t) st = .ok st') :
    st'.summary.totalBytes = st.summary.totalBytes := by
  induction entries generalizing st with
  | nil =>
    obtain rfl := Except.ok.inj h
    rfl
  | cons entry entries ih =>
    rw [List.foldlM_cons] at h
    obtain ⟨st₁, hround, h⟩ := exists_of_bind_ok h
    rw [ih h, planEntry_totalBytes hround]

/-- **What is told of a plan**: a status line, and a summary with the manifest's total. -/
theorem preflightTransferManifest_told {plan : ReceivePlan} {d d' : Disk}
    (h : env.preflightTransferManifest manifest d = .ok plan d') :
    ∃ text summary, d.told d' = [.status text, .receivePlan summary] ∧
      summary.totalBytes = manifest.totalSize := by
  simp only [ReceiveEnv.preflightTransferManifest, bind_tree, bind_check_ok] at h
  obtain ⟨⟨plan', summary⟩, hplan, h⟩ := h
  rw [bind_status, bind_modify] at h
  obtain ⟨-, rfl⟩ := pure_ok.mp h
  refine ⟨"manifest: " ++ toString manifest.entries.length ++ " item(s), " ++ toString manifest.totalSize ++
    " bytes", summary, ?_, ?_⟩
  · unfold Disk.told
    rw [List.append_assoc, List.drop_left]
    rfl
  · unfold ReceiveEnv.preflight at hplan
    extract_lets start at hplan
    obtain ⟨st, hrounds, hplan⟩ := exists_of_bind_ok hplan
    split_ifs at hplan
    obtain ⟨_, -, hplan⟩ := exists_of_bind_ok hplan
    obtain ⟨-, rfl⟩ := Prod.mk.inj (Except.ok.inj hplan)
    exact planEntries_totalBytes hrounds

theorem decodeManifestEntries_total {entries : List TransferManifestEntry} {total total' : Nat}
    (hle : total ≤ u64Max) (h : entries.foldlM decodeManifestEntry total = .ok total') :
    total' = total + fileBytes entries ∧ total' ≤ u64Max := by
  induction entries generalizing total with
  | nil =>
    obtain rfl := Except.ok.inj h
    exact ⟨rfl, hle⟩
  | cons entry entries ih =>
    rw [List.foldlM_cons] at h
    obtain ⟨total₁, hround, h⟩ := exists_of_bind_ok h
    have hentry : total₁ = total + (if entry.kind = "file" then entry.size else 0) ∧
        total₁ ≤ u64Max := by
      unfold decodeManifestEntry at hround
      split_ifs at hround with hmode hfile
      · obtain ⟨_, -, hadd⟩ := exists_of_bind_ok hround
        rw [if_pos hfile]
        exact addManifestSize_ok hle hadd
      · obtain ⟨_, -, hsame⟩ := exists_of_bind_ok hround
        obtain rfl := Except.ok.inj hsame
        rw [if_neg hfile]
        exact ⟨rfl, hle⟩
    obtain ⟨hsum, hle'⟩ := ih hentry.2 h
    refine ⟨?_, hle'⟩
    rw [hsum, hentry.1, Nat.add_assoc]
    congr 1
    unfold fileBytes
    by_cases hfile : entry.kind = "file"
    · simp [hfile]
    · simp [hfile]

/-- A manifest that is decoded promises what its files are said to hold. -/
theorem decodeTransferManifest_total {prims : Primitives} {text : ManifestText}
    (h : decodeTransferManifest prims text = .ok manifest) :
    manifest.totalSize = fileBytes manifest.entries ∧ manifest.totalSize ≤ u64Max := by
  unfold decodeTransferManifest at h
  by_cases hlarge : kMaxTransferManifestBytes < prims.manifestTextSize text
  · rw [if_pos hlarge] at h
    cases h
  by_cases hversion : text.version ≠ 1
  · rw [if_neg hlarge, if_pos hversion] at h
    cases h
  by_cases hmany : kMaxTransferManifestEntries < text.entries.length
  · rw [if_neg hlarge, if_neg hversion, if_pos hmany] at h
    cases h
  rw [if_neg hlarge, if_neg hversion, if_neg hmany] at h
  obtain ⟨total, hfold, h⟩ := exists_of_bind_ok h
  split_ifs at h
  obtain rfl := Except.ok.inj h
  obtain ⟨hsum, hle⟩ := decodeManifestEntries_total (Nat.zero_le _) hfold
  exact ⟨hsum.trans (Nat.zero_add _), hle⟩

/-- What is no file has no bytes. -/
theorem checkPlanKind_size {total total' : Nat} (h : ReceiveEnv.checkPlanKind total entry = .ok total')
    (hkind : entry.kind ≠ "file") : entry.size = 0 := by
  unfold ReceiveEnv.checkPlanKind at h
  split_ifs at h with hlink hsize hdir hslash hsize'
  · exact not_not.mp hsize
  · exact not_not.mp hsize'

theorem sum_sizes {entries : List TransferManifestEntry}
    (h : ∀ entry ∈ entries, entry.kind ≠ "file" → entry.size = 0) :
    (entries.map (·.size)).sum = fileBytes entries := by
  induction entries with
  | nil => rfl
  | cons entry entries ih =>
    have hrest := ih fun e he => h e (List.mem_cons_of_mem _ he)
    rw [List.map_cons, List.sum_cons, hrest]
    unfold fileBytes
    by_cases hfile : entry.kind = "file"
    · simp [hfile]
    · simp [hfile, h entry (List.mem_cons_self ..) hfile]

end Manifest

/-! ## The account of an attempt

What is shown as done is what has ended and what has come of the open entry. The lemmas are one
for each thing that can happen to the account: an entry is opened, advances, is closed. -/

/-- An entry that has ended: what it adds to the total, and what was shown of it. -/
structure Ended where
  bytes : Nat
  shown : Nat

/-- The entry that is open, as it is shown. -/
structure OpenEntry where
  relative : String
  size : Nat
  done : Nat

def bytesOf (ended : List Ended) : Nat := (ended.map (·.bytes)).sum

def shownOf (ended : List Ended) (entry : Option OpenEntry) : Nat :=
  (ended.map (·.shown)).sum + (entry.map (·.done)).getD 0

/-- The figures show the entries that have ended and the one that is open. -/
structure Drawn (ended : List Ended) (entry : Option OpenEntry) (f : Figures) : Prop where
  going : f.finished = false ∧ f.failed = false ∧ f.canceled = false
  files : f.filesDone = ended.length
  overall : f.overallDone = shownOf ended entry % 2 ^ 64
  current : ∀ e, entry = some e → f.currentFile = e.relative ∧ f.currentSize = e.size ∧ f.currentDone = e.done
  fits : ∀ e, entry = some e → e.done ≤ e.size ∧ e.size ≤ u64Max

/-- The entry of a session when its constructor returns. -/
def Session.entry : Session → OpenEntry
  | .marker setup _ => { relative := setup.relative, size := 0, done := 0 }
  | .skipPayload setup => { relative := setup.relative, size := setup.declaredSize, done := setup.declaredSize }
  | .receivePayload s =>
    { relative := s.setup.relative, size := s.setup.declaredSize, done := s.resumeOffset }

section Drawn

variable {ended : List Ended} {entry : Option OpenEntry} {e : OpenEntry} {f : Figures}

theorem onAll_append (f : Figures) (a b : List ProgressEvent) : f.onAll (a ++ b) = (f.onAll a).onAll b :=
  List.foldl_append

/-- Status lines are no numbers. -/
theorem onAll_told {d d' : Disk} (h : Tells d d') (f : Figures) : f.onAll (d.told d') = f := by
  obtain ⟨texts, h⟩ := h
  unfold Disk.told
  rw [h, List.drop_left]
  clear h
  induction texts with
  | nil => rfl
  | cons text texts ih => exact ih

theorem Drawn.over_eq (h : Drawn ended entry f) : f.over = false := by
  obtain ⟨hfinished, hfailed, hcanceled⟩ := h.going
  rw [Figures.over, hfinished, hfailed, hcanceled]
  rfl

theorem drawn_start (f : Figures) (hgoing : f.finished = false ∧ f.failed = false ∧ f.canceled = false)
    (hfiles : f.filesDone = 0) (hoverall : f.overallDone = 0) : Drawn [] none f where
  going := hgoing
  files := hfiles
  overall := hoverall
  current := nofun
  fits := nofun

/-- An open entry goes on. -/
theorem Drawn.fileAdvance {n : Nat} (h : Drawn ended (some e) f) (hfits : e.done + n ≤ e.size) :
    Drawn ended (some { e with done := e.done + n }) (f.on (.fileAdvance n)) := by
  have hon : f.on (.fileAdvance n) = { f with
      currentDone := addU64 f.currentDone n, overallDone := addU64 f.overallDone n } := by
    show (if f.over then f else _) = _
    rw [h.over_eq]
    rfl
  obtain ⟨hfile, hsize, hdone⟩ := h.current e rfl
  have hmax := (h.fits e rfl).2
  rw [hon]
  refine ⟨h.going, h.files, ?_, ?_, ?_⟩
  · show addU64 f.overallDone n = shownOf ended (some { e with done := e.done + n }) % 2 ^ 64
    rw [h.overall, addU64, Nat.mod_add_mod]
    congr 1
    exact Nat.add_assoc ..
  · rintro _ ⟨⟩
    refine ⟨hfile, hsize, ?_⟩
    show addU64 f.currentDone n = e.done + n
    rw [hdone]
    apply Nat.mod_eq_of_lt
    unfold u64Max at hmax
    omega
  · rintro _ ⟨⟩
    exact ⟨hfits, hmax⟩

theorem Drawn.advanced {n : Nat} (h : Drawn ended (some e) f) (hfits : e.done + n ≤ e.size) :
    Drawn ended (some { e with done := e.done + n }) (f.onAll (advance n)) := by
  unfold advance
  by_cases hn : n = 0
  · subst hn
    exact h
  · rw [if_neg hn]
    exact h.fileAdvance hfits

/-- An entry is opened. -/
theorem Drawn.opened {session : Session} (h : Drawn ended none f)
    (hfits : session.entry.done ≤ session.entry.size ∧ session.entry.size ≤ u64Max) :
    Drawn ended (some session.entry) (f.onAll session.reports) := by
  have hstart (relative : String) (size : Nat) (hmax : size ≤ u64Max) :
      Drawn ended (some { relative := relative, size := size, done := 0 })
        (f.on (.fileStart relative size)) := by
    refine ⟨h.going, h.files, h.overall, ?_, ?_⟩
    · rintro _ ⟨⟩
      exact ⟨rfl, rfl, rfl⟩
    · rintro _ ⟨⟩
      exact ⟨Nat.zero_le _, hmax⟩
  cases session with
  | marker setup marker => exact hstart setup.relative 0 (Nat.zero_le _)
  | skipPayload setup =>
    have hall := (hstart setup.relative setup.declaredSize hfits.2).fileAdvance
      (Nat.zero_add setup.declaredSize).le
    rw [Nat.zero_add] at hall
    exact hall
  | receivePayload s =>
    have hopen := hstart s.setup.relative s.setup.declaredSize hfits.2
    by_cases hresume : 0 < s.resumeOffset
    · have hreports : (Session.receivePayload s).reports =
          [.fileStart s.setup.relative s.setup.declaredSize,
            .fileResume s.setup.relative s.resumeOffset s.setup.declaredSize,
            .fileAdvance s.resumeOffset] := by
        simp only [Session.reports, if_pos hresume]
      have hresumed := hopen.fileAdvance (n := s.resumeOffset) ((Nat.zero_add _).trans_le hfits.1)
      rw [hreports]
      rw [Nat.zero_add] at hresumed
      exact hresumed
    · have hreports : (Session.receivePayload s).reports =
          [.fileStart s.setup.relative s.setup.declaredSize] := by
        simp only [Session.reports, if_neg hresume]
      have hentry : (Session.receivePayload s).entry =
          { relative := s.setup.relative, size := s.setup.declaredSize, done := 0 } := by
        simp only [Session.entry, Nat.eq_zero_of_not_pos hresume]
      rw [hreports, hentry]
      exact hopen

/-- The open entry ends. -/
theorem Drawn.closed (h : Drawn ended (some e) f) (bytes : Nat) (path : String) (size : Nat)
    (verified : Bool) :
    Drawn (ended ++ [{ bytes := bytes, shown := e.done }]) none
      (f.onAll [.fileComplete path size verified]) where
  going := h.going
  files := by
    show f.filesDone + 1 = _
    rw [h.files, List.length_append, List.length_singleton]
  overall := by
    show f.overallDone = _
    rw [h.overall]
    simp [shownOf]
  current := nofun
  fits := nofun

end Drawn

/-! ## What is known of a receiver at any time -/

/-- A session's entry is the one of its header. -/
structure EntrySetup.Read (setup : EntrySetup) : Prop where
  path : setup.relative = setup.header.get "path"
  size : setup.header.getU64 "size" 0 = .ok setup.declaredSize

structure Facts (env : ReceiveEnv) (s : Intake) (h : History) : Prop where
  sound : s.Sound env
  marked : s.phase.Marked
  measured : s.phase.Measured
  setup : ∀ setup, s.phase.setup? = some setup → setup.Read
  completed : ∀ c ∈ h.completed, c.setup.Read
  accounted : (∀ e, s.phase ≠ .thrown e) → Accounted env s h

section Facts

variable {env : ReceiveEnv} {s s' : Intake} {h : History} {f : Option Frame}

theorem facts_start (env : ReceiveEnv) (d : Disk) : Facts env { disk := d } {} where
  sound := sound_start env d
  marked := trivial
  measured := trivial
  setup := nofun
  completed := nofun
  accounted _ := accounted_start env d

theorem EntrySetup.Read.moved {setup : EntrySetup} (h : setup.Read) (current : FsPath) :
    ({ setup with currentPath := current } : EntrySetup).Read := ⟨h.path, h.size⟩

theorem after_setup {α : Type} {m : ReceiveM α} {next : α → Phase}
    (h : ∀ a d, m s.disk = .ok a d → ∀ setup, (next a).setup? = some setup → setup.Read) :
    ∀ setup, (s.after m next).phase.setup? = some setup → setup.Read := by
  unfold Intake.after
  cases hm : m s.disk with
  | ok a d => exact h a d hm
  | error e d => nofun

/-- The entry that is open is the one of its header in every phase. -/
theorem Intake.Step.setup_read (hstep : Intake.Step env s f s') (hs : s.Sound env) (hm : s.phase.Marked)
    (hr : ∀ setup, s.phase.setup? = some setup → setup.Read) :
    ∀ setup, s'.phase.setup? = some setup → setup.Read := by
  cases hstep with
  | manifest => exact hr
  | @header header recorded hphase hpath hrecord =>
    apply after_setup
    intro p d hprep setup hsetup
    obtain ⟨⟨setup', current, hentry, hheader, hp⟩, -⟩ := prepare_keeps hprep
    obtain ⟨hrelative, -, hsize, -⟩ := entrySetup_ok hentry
    obtain rfl := Option.some.inj hsetup
    rw [hp]
    apply EntrySetup.Read.moved
    exact ⟨by rw [hheader]; exact hrelative, by rw [hheader]; exact hsize⟩
  | @ack p frame hphase =>
    have hsound := hs.disk
    rw [hphase] at hm hsound hr
    apply after_setup
    intro next d hsettle setup hsetup
    obtain ⟨-, ⟨current, hnext⟩, -⟩ := settle_keeps hsound hm hsettle
    rw [show (id next).setup? = next.setup? from rfl, hnext] at hsetup
    obtain rfl := Option.some.inj hsetup
    exact (hr p.setup rfl).moved current
  | @put f session out content content' next hphase hquiet hnext =>
    rw [hphase] at hr
    rcases hnext with rfl | rfl | ⟨e, rfl⟩
    · exact hr
    · exact hr
    · nofun
  | marker hphase =>
    apply after_setup
    intro _ _ _
    nofun
  | skipped hphase => nofun
  | commit hphase =>
    apply after_setup
    intro _ _ _
    nofun
  | done hphase hall => nofun
  | stay hquiet => exact hr
  | fail => nofun

/-- What has ended was open. -/
theorem ending_setup {trailer : Message} {c : Completion} (h : s.ending env trailer s' = some c) :
    s.phase.setup? = some c.setup := by
  cases hphase : s.phase with
  | marker setup marker =>
    simp only [Intake.ending, hphase] at h
    cases marker with
    | directory =>
      obtain rfl := Option.some.inj h
      rfl
    | symlink target skip =>
      cases skip with
      | true =>
        obtain rfl := Option.some.inj h
        rfl
      | false =>
        obtain rfl := Option.some.inj h
        rfl
  | skipping setup =>
    simp only [Intake.ending, hphase] at h
    obtain rfl := Option.some.inj h
    rfl
  | payload session out content =>
    simp only [Intake.ending, hphase] at h
    obtain rfl := Option.some.inj h
    rfl
  | received session =>
    simp only [Intake.ending, hphase] at h
    obtain rfl := Option.some.inj h
    rfl
  | _ =>
    simp only [Intake.ending, hphase] at h
    cases h

theorem observe_completed {c : Completion} (hc : c ∈ (h.observe env s f s').completed) :
    c ∈ h.completed ∨ s.phase.setup? = some c.setup := by
  unfold History.observe at hc
  split at hc
  next => exact .inl hc
  next => exact .inl hc
  next => exact .inl hc
  next trailer _ _ =>
    rcases List.mem_append.mp hc with hc | hc
    · exact .inl hc
    · exact .inr (ending_setup (Option.mem_toList.mp hc))
  next => exact .inl hc

theorem Facts.step (hf : Facts env s h) (hlive : s.phase.over = false) (hstep : Intake.Step env s f s') :
    Facts env s' (h.observe env s f s') where
  sound := hf.sound.step hstep
  marked := hstep.marked hf.sound hf.marked
  measured := hstep.measured hf.sound hf.measured
  setup := hstep.setup_read hf.sound hf.marked hf.setup
  completed c hc := by
    rcases observe_completed hc with hc | hc
    · exact hf.completed c hc
    · exact hf.setup c.setup hc
  accounted hgo := by
    have hgoing : ∀ e, s.phase ≠ .thrown e := by
      intro e he
      rw [he] at hlive
      cases hlive
    exact (hf.accounted hgoing).step hf.sound hf.marked hlive hstep hgo

end Facts

/-! ## What has ended fits in what was promised

Each accepted header is the one of an entry of the manifest, and no entry is counted twice; so
the sizes of what has ended, with the open one, are a part of the total. -/

/-- An entry of the account is the one of the history. -/
def Weighs (e : Ended) (c : Completion) : Prop :=
  e.bytes = c.setup.declaredSize ∨
    e.bytes = 0 ∧ headerKind c.setup.header c.setup.relative c.setup.declaredSize ≠ "file"

/-- The size a header names. -/
def headerBytes (header : Message) : Nat :=
  match header.getU64 "size" 0 with
  | .ok size => size
  | .error _ => 0

section Promised

variable {env : ReceiveEnv} {s : Intake} {h : History} {manifest : TransferManifest} {plan : ReceivePlan}
  {accepted closed : List Message} {completed : List Completion} {ended : List Ended} {text : ManifestText}

theorem headerBytes_eq {header : Message} {size : Nat} (h : header.getU64 "size" 0 = .ok size) :
    headerBytes header = size := by
  rw [headerBytes, h]

theorem Counted.unfiled (h : Counted env manifest plan accepted) :
    ∀ entry ∈ manifest.entries, entry.kind ≠ "file" → entry.size = 0 := by
  obtain ⟨t, hmade⟩ := h.made
  intro entry hmem hkind
  rw [← hmade.manifests] at hmem
  obtain ⟨planned, hplanned, rfl⟩ := List.mem_map.mp hmem
  obtain ⟨total, total', hok⟩ := (hmade.planned planned hplanned).kind
  exact checkPlanKind_size hok hkind

theorem announced_sum {order : List TransferManifestEntry} (h : List.Forall₂ Announces accepted order) :
    (accepted.map headerBytes).sum = (order.map (·.size)).sum := by
  induction h with
  | nil => rfl
  | cons hfirst _ ih =>
    rw [List.map_cons, List.map_cons, List.sum_cons, List.sum_cons, ih, headerBytes_eq hfirst.size]

/-- Headers that were counted do not name more than the manifest has. -/
theorem Counted.sum_le (h : Counted env manifest plan accepted) :
    (accepted.map headerBytes).sum ≤ (manifest.entries.map (·.size)).sum := by
  obtain ⟨order, hannounced, hsub⟩ := exists_forall₂ h.announced
  have hsame : order.map (·.path) = plan.receivedPaths := h.received ▸ announced_paths hannounced
  have hnodup : order.Nodup := List.Nodup.of_map (·.path) (hsame ▸ h.once)
  obtain ⟨l, hperm, hsublist⟩ := List.subperm_of_subset hnodup hsub
  rw [announced_sum hannounced, ← (hperm.map (·.size)).sum_eq]
  exact (hsublist.map (·.size)).sum_le_sum fun _ _ => Nat.zero_le _

/-- What has ended weighs what its headers have named. -/
theorem bytesOf_closed {prims : Primitives} (hclosed : List.Forall₂ (Completes prims) closed completed)
    (hw : List.Forall₂ Weighs ended completed) (hread : ∀ c ∈ completed, c.setup.Read)
    (hannounced : ∀ header ∈ closed, ∃ entry ∈ manifest.entries, Announces header entry)
    (hunfiled : ∀ entry ∈ manifest.entries, entry.kind ≠ "file" → entry.size = 0) :
    bytesOf ended = (closed.map headerBytes).sum := by
  induction hclosed generalizing ended with
  | nil =>
    cases hw
    rfl
  | @cons header c closed completed hfirst _ ih =>
    cases hw with
    | @cons e _ ended _ hweighs hrest =>
      have hbytes : e.bytes = headerBytes header := by
        obtain ⟨hpath, hsize⟩ := hread c (List.mem_cons_self ..)
        rw [hfirst.header] at hpath hsize
        rcases hweighs with hdeclared | ⟨hzero, hkind⟩
        · rw [hdeclared, headerBytes_eq hsize]
        · obtain ⟨entry, hmem, hann⟩ := hannounced header (List.mem_cons_self ..)
          have hsame : c.setup.declaredSize = entry.size := Except.ok.inj (hsize.symm.trans hann.size)
          rw [hfirst.header, hpath, hann.path, hsame, hann.kind] at hkind
          rw [hzero, headerBytes_eq hann.size, hunfiled entry hmem hkind]
      have hsum := ih hrest (fun c hc => hread c (List.mem_cons_of_mem _ hc))
        fun header hheader => hannounced header (List.mem_cons_of_mem _ hheader)
      show e.bytes + bytesOf ended = _
      rw [hbytes, hsum, List.map_cons, List.sum_cons]

/-- **There is room for the entry that is open.** With a manifest, what has ended and all of the open entry
    come to no more than the manifest's total; at the end it is all there. -/
theorem Facts.room (hf : Facts env s h) (hgo : ∀ e, s.phase ≠ .thrown e) (hm : h.manifest = some text)
    (hw : List.Forall₂ Weighs ended h.completed) :
    ∃ manifest, decodeTransferManifest env.prims text = .ok manifest ∧
      bytesOf ended + (s.phase.setup?.map (·.declaredSize)).getD 0 ≤ manifest.totalSize ∧
      (s.phase = .finished →
        bytesOf ended = manifest.totalSize ∧ ended.length = manifest.entries.length) := by
  have haccounted := hf.accounted hgo
  obtain ⟨manifest, plan, hdecode, hplan, hcounted⟩ := haccounted.counted text hm
  obtain ⟨closed, haccepted, hclosed⟩ := haccounted.ended
  have htotal : (manifest.entries.map (·.size)).sum = manifest.totalSize :=
    (sum_sizes hcounted.unfiled).trans (decodeTransferManifest_total hdecode).1.symm
  have hsub : ∀ header ∈ closed, ∃ entry ∈ manifest.entries, Announces header entry := by
    intro header hheader
    apply hcounted.announced
    rw [haccepted]
    exact List.mem_append_left _ hheader
  have hbytes := bytesOf_closed hclosed hw hf.completed hsub hcounted.unfiled
  refine ⟨manifest, hdecode, ?_, ?_⟩
  · have hle := hcounted.sum_le
    rw [htotal, haccepted, List.map_append, List.sum_append, ← hbytes] at hle
    cases hsetup : s.phase.setup? with
    | none =>
      rw [hsetup] at hle
      exact hle
    | some setup =>
      rw [hsetup] at hle
      have hread := (hf.setup setup hsetup).size
      simp only [Option.map_some, Option.toList_some, List.map_cons, List.map_nil, List.sum_cons,
        List.sum_nil,
        Nat.add_zero, headerBytes_eq hread] at hle
      exact hle
  · intro hend
    have hall := haccounted.complete hend
    rw [hplan] at hall
    obtain ⟨-, order, hperm, hannounced⟩ := hcounted.all hall
    rw [hend] at haccepted
    obtain rfl : h.accepted = closed := haccepted.trans (List.append_nil closed)
    constructor
    · rw [hbytes, announced_sum hannounced, (hperm.map (·.size)).sum_eq, htotal]
    · rw [hw.length_eq, ← hclosed.length_eq, hannounced.length_eq, hperm.length_eq]

end Promised

/-! ## What is shown of an attempt -/

/-- The entry a phase has open. Of a payload no more is shown than its partial file holds. -/
def Phase.Opens : Phase → Option OpenEntry → Prop
  | .marker setup _, entry => entry = some { relative := setup.relative, size := 0, done := 0 }
  | .skipping setup, entry =>
    entry = some { relative := setup.relative, size := setup.declaredSize, done := setup.declaredSize }
  | .payload s _ content, entry =>
    ∃ done ≤ content.length, entry = some { relative := s.setup.relative, size := s.setup.declaredSize, done := done }
  | .received s, entry =>
    ∃ done, entry = some { relative := s.setup.relative, size := s.setup.declaredSize, done := done }
  | .thrown _, _ => True
  | _, entry => entry = none

/-- What is shown of a loop that has not returned. Where `exact` holds, all of an entry that has ended was
    shown. -/
structure Told (env : ReceiveEnv) (exact : Prop) (l : Loop) (phase : Phase) (h : History) (ended : List Ended)
    (entry : Option OpenEntry) (f : Figures) : Prop where
  drawn : Drawn ended entry f
  below : ∀ e ∈ ended, e.shown ≤ e.bytes ∧ (exact → e.shown = e.bytes)
  weighs : List.Forall₂ Weighs ended h.completed
  opens : phase.Opens entry
  counts : (∀ e, phase ≠ .thrown e) → l.fileCount = ended.length ∧ l.grandTotal = bytesOf ended % 2 ^ 64
  total : ∀ text, h.manifest = some text → ∃ manifest, decodeTransferManifest env.prims text = .ok manifest ∧
    f.overallTotal = manifest.totalSize ∧ shownOf ended entry ≤ manifest.totalSize

/-- What is shown of a loop that has returned. -/
structure Complete (env : ReceiveEnv) (l : Loop) (h : History) (f : Figures) : Prop where
  finished : f.finished = true ∧ f.failed = false ∧ f.canceled = false
  files : f.filesDone = h.completed.length ∧ f.filesTotal = f.filesDone
  overall : f.overallDone = l.grandTotal ∧ l.grandTotal < 2 ^ 64
  total : ∀ text, h.manifest = some text → ∃ manifest, decodeTransferManifest env.prims text = .ok manifest ∧
    f.overallTotal = manifest.totalSize ∧ f.overallDone = manifest.totalSize ∧
    f.filesDone = manifest.entries.length

/-- The bytes a display may show of an entry. -/
def doneOf (entry : Option OpenEntry) : Nat := (entry.map (·.done)).getD 0

def declaredOf (phase : Phase) : Nat := (phase.setup?.map (·.declaredSize)).getD 0

section Told

variable {env : ReceiveEnv} {exact : Prop} {l l' : Loop} {phase phase' : Phase} {h h' : History}
  {ended : List Ended} {entry entry' : Option OpenEntry} {f f' : Figures} {p : Pending} {frame : Frame}
  {session : Session} {d d' : Disk}

theorem shown_le_bytes (h : ∀ e ∈ ended, e.shown ≤ e.bytes) :
    (ended.map (·.shown)).sum ≤ bytesOf ended :=
  List.sum_le_sum h

/-- Of the open entry no more is shown than was declared. -/
theorem Told.done_le (ht : Told env exact l phase h ended entry f) (hgo : ∀ e, phase ≠ .thrown e) :
    doneOf entry ≤ declaredOf phase := by
  have hopens := ht.opens
  have hfits := ht.drawn.fits
  cases phase with
  | marker setup marker =>
    obtain rfl := hopens
    exact Nat.zero_le _
  | skipping setup =>
    obtain rfl := hopens
    exact le_rfl
  | payload s out content =>
    obtain ⟨done, -, rfl⟩ := hopens
    exact (hfits _ rfl).1
  | received s =>
    obtain ⟨done, rfl⟩ := hopens
    exact (hfits _ rfl).1
  | thrown e => exact absurd rfl (hgo e)
  | _ =>
    obtain rfl := hopens
    exact Nat.zero_le _

/-- **A step in which no entry ends.** -/
theorem Told.move (ht : Told env exact l phase h ended entry f) (hf : Facts env (l.intake phase) h)
    (hgo : ∀ e, phase ≠ .thrown e) (hdrawn : Drawn ended entry' f')
    (htotal : f'.overallTotal = f.overallTotal)
    (hmanifest : h'.manifest = h.manifest) (hcompleted : h'.completed = h.completed)
    (hopens : phase'.Opens entry')
    (hcounts : (∀ e, phase' ≠ .thrown e) → l'.fileCount = l.fileCount ∧ l'.grandTotal = l.grandTotal)
    (hroom : doneOf entry' ≤ declaredOf phase) : Told env exact l' phase' h' ended entry' f' where
  drawn := hdrawn
  below := ht.below
  weighs := hcompleted ▸ ht.weighs
  opens := hopens
  counts hgo' := by
    obtain ⟨hcount, hgrand⟩ := hcounts hgo'
    rw [hcount, hgrand]
    exact ht.counts hgo
  total text hm := by
    rw [hmanifest] at hm
    obtain ⟨manifest, hdecode, hpromised, -⟩ := ht.total text hm
    obtain ⟨manifest', hdecode', hle, -⟩ := hf.room hgo hm ht.weighs
    obtain rfl : manifest = manifest' := Except.ok.inj (hdecode.symm.trans hdecode')
    refine ⟨manifest, hdecode, htotal.trans hpromised, ?_⟩
    have hshown := shown_le_bytes fun e he => (ht.below e he).1
    exact (Nat.add_le_add hshown hroom).trans hle

/-- A loop that throws leaves what was shown. -/
theorem Told.thrown (ht : Told env exact l phase h ended entry f) (hf : Facts env (l.intake phase) h)
    (hgo : ∀ e, phase ≠ .thrown e) (l' : Loop) (e : KikoError) :
    Told env exact l' (.thrown e) h ended entry f :=
  ht.move hf hgo ht.drawn rfl rfl rfl trivial (fun h => absurd rfl (h e)) (ht.done_le hgo)

/-! ### Frames -/

theorem onAll_frameReports (h : Tells l.disk l'.disk) (f : Figures) :
    f.onAll (env.frameReports l phase frame l' phase') =
      f.onAll (env.frameEvents l phase frame l' phase') := by
  rw [ReceiveEnv.frameReports, onAll_append, onAll_told h]

/-- A call that throws is not remembered. -/
theorem observe_thrown {s s' : Intake} {g : Option Frame} {e : KikoError} (hs' : s'.phase = .thrown e) :
    h.observe env s g s' = h := by
  unfold History.observe
  rw [hs']
  split <;> first | rfl | contradiction

/-- A loop that throws at a frame reports what the operations on the disk have said. -/
theorem frameEvents_thrown (hphase : ∀ p, phase ≠ .await p) (e : KikoError) :
    env.frameEvents l phase frame l' (.thrown e) = [] := by
  cases phase with
  | await p => exact absurd rfl (hphase p)
  | _ => cases frame <;> rfl

theorem Told.frame_thrown (ht : Told env exact l phase h ended entry f) (hf : Facts env (l.intake phase) h)
    (hgo : ∀ e, phase ≠ .thrown e) (hphase : ∀ p, phase ≠ .await p) (htells : Tells l.disk l'.disk)
    (e : KikoError) :
    Told env exact l' (.thrown e)
      (h.observe env (l.intake phase) (some frame) (l'.intake (.thrown e))) ended entry
      (f.onAll (env.frameReports l phase frame l' (.thrown e))) := by
  rw [observe_thrown rfl, onAll_frameReports htells, frameEvents_thrown hphase]
  exact ht.thrown hf hgo l' e

end Told

end Kiko.Transfer
