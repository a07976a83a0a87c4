import Kiko.Transfer.Resume
import Kiko.Transfer.Acknowledged

/-!
# Transfers that are interrupted

A channel can close at any time, a thread can fail at any time. What is then left of the file that was
under way is its partial file, and the next attempt asks for the rest of it. So whatever the moment, the
partial file has to be a beginning of the source, and as long as what the receiver has counted:

* over a stream the loop appends what comes, and a payload in its middle (`Halfway`) is told from the
  frames that have been taken since its header (`Trail`);
* over many channels the readers write all over the file, and it is the front up to which everything
  has come that counts: behind it the file is cut off when the readers are joined.

`LeftAt` says what is left, and that the next attempt's question about it is answered with its length.

No run has to be followed to its end for this. The moment is any state that can be reached, the failure
is that there are no further steps, and what is on the disk in that state is what is left. So the
invariants of a transfer that goes through have to be said of its middle as well: of the bytes that have
come and not only of those that will have.

Over a stream the difficulty is to know which payload the open file belongs to, when all that the system
state says is where the receiver stands and what is on its way. `Trail` finds it: the receiver has taken
a beginning of what was said to it, so the last header in that beginning is the one that is open. Over
many channels the payload is known, since both sides hold it, and the difficulty is the front.
-/

set_option autoImplicit false

namespace Kiko.Transfer

open Lexical FileTree Dialogue

/-! ## Payloads that were cut off

What the decompressor has given so far is a beginning of what it will give. This is the one thing that
is used of a compressed stream here; see `Kiko.Core.Compression` for what is assumed of it. -/

section Cut

variable {Dec : Type} {decompress : Dec → Bytes → Nat → Except KikoError (Dec × Bytes)}

/-- Of a stream that can be decompressed every beginning can be, to a beginning. -/
theorem decompressAll_prefix {dec : Dec} {room : Nat} {before after : List Bytes} {bytes : Bytes}
    (h : decompressAll decompress dec room (before ++ after) = .ok bytes) :
    ∃ begun, decompressAll decompress dec room before = .ok begun ∧ begun <+: bytes := by
  induction before generalizing dec room bytes with
  | nil => exact ⟨[], rfl, List.nil_prefix⟩
  | cons payload before ih =>
    rw [List.cons_append, decompressAll] at h
    obtain ⟨⟨dec', out⟩, hout, h⟩ := exists_of_bind_ok h
    obtain ⟨rest, hrest, h⟩ := exists_of_bind_ok h
    obtain rfl := Except.ok.inj h
    obtain ⟨begun, hbegun, hprefix⟩ := ih hrest
    refine ⟨out ++ begun, ?_, (List.prefix_append_right_inj out).mpr hprefix⟩
    simp only [decompressAll, hout, hbegun, bind, Except.bind]

end Cut

section Halfway

variable {codec : StreamCodec} {env : ReceiveEnv} {source : Source env.prims} {d : Disk} {s : PayloadSession}

/-- **What has come of a payload is a beginning of what is still to come.** -/
theorem drain_begun (l : Loop) (t : Tree) (out : Place) (hres : Resumes env source d.tree s)
    {before after : List Bytes} (hpayloads : before ++ after = streamPayloads codec s.setup.useZstd source.content s.resumeOffset) :
    ∃ begun dec, begun <+: source.content.drop s.resumeOffset ∧
      drain (StreamRecv.feed env) (midPayload l d t s out s.hashed codec.decoder) (before.map .data) =
        (midPayload l d t s out (s.hashed ++ begun) dec, []) := by
  have hflat := Pieces.flatten_cut kPlainChunk_pos s.resumeOffset (source.content.drop s.resumeOffset)
  have hfits : s.hashed.length + (source.content.drop s.resumeOffset).length ≤ s.setup.declaredSize := by
    have := hres.offered.length_le
    rw [List.length_drop, hres.offset, hres.size] at *
    omega
  unfold streamPayloads at hpayloads
  cases hzstd : s.setup.useZstd with
  | false =>
    simp only [hzstd, Bool.false_eq_true, if_false] at hpayloads
    have hbegun : before.flatten <+: source.content.drop s.resumeOffset := by
      rw [← hflat, ← hpayloads, List.flatten_append]
      exact List.prefix_append ..
    have hlen := hbegun.length_le
    exact ⟨before.flatten, codec.decoder, hbegun, drain_data_raw hzstd codec.decoder before (by omega)⟩
  | true =>
    simp only [hzstd, if_true] at hpayloads
    have hwhole := codec.lossless
      ((Pieces.cut kPlainChunk s.resumeOffset (source.content.drop s.resumeOffset)).map (·.bytes))
      (s.setup.declaredSize - s.hashed.length) (by rw [hflat]; omega)
    rw [hflat, ← hpayloads] at hwhole
    obtain ⟨begun, hdec, hbegun⟩ := decompressAll_prefix hwhole
    have hlen := hbegun.length_le
    obtain ⟨dec, hdrain⟩ := drain_data_zstd (l := l) (d := d) (t := t) hzstd (by omega) hdec
    exact ⟨begun, dec, hbegun, hdrain⟩

end Halfway
/-! ## What was asked

The offer in a header names a length and the digest of that many bytes, and the two are about the same
file at the same moment. -/

/-- With what is offered goes its own digest. -/
def Pending.Asked (env : ReceiveEnv) : Pending → Prop
  | .payload _ _ hashed prefixSha256 => prefixSha256 = offeredSha256 env.prims hashed
  | _ => True

section Asks

variable {env : ReceiveEnv} {setup : EntrySetup} {current : FsPath} {header : Message} {plan : Option ReceivePlan}
  {p : Pending} {d d' : Disk}

theorem offerPartial_asks (h : env.offerPartial setup current d = .ok p d') : p.Asked env := by
  simp only [ReceiveEnv.offerPartial, bind_check_ok, bind_tree] at h
  obtain ⟨_, -, have_, -, h⟩ := h
  by_cases hpos : 0 < have_
  · rw [if_pos hpos] at h
    cases hread : env.hashExistingPartPrefix d.tree (partPathFor current) have_ with
    | none =>
      simp only [hread] at h
      obtain ⟨rfl, -⟩ := pure_ok.mp h
      rfl
    | some bytes =>
      simp only [hread] at h
      obtain ⟨rfl, -⟩ := pure_ok.mp h
      have hne : bytes ≠ [] := by
        rintro rfl
        unfold ReceiveEnv.hashExistingPartPrefix at hread
        split at hread
        next content _ =>
          split_ifs at hread with hle
          have hlength := congrArg List.length (Option.some.inj hread)
          simp only [List.length_take, List.length_nil] at hlength
          omega
        next => cases hread
      simp [Pending.Asked, offeredSha256, hne]
  · rw [if_neg hpos] at h
    obtain ⟨rfl, -⟩ := pure_ok.mp h
    rfl

theorem preparePayload_asks (h : env.preparePayload setup d = .ok p d') : p.Asked env := by
  obtain ⟨current, d₁, -, h⟩ := bind_ok.mp h
  rw [bind_tree, bind_check_ok] at h
  obtain ⟨_, -, h⟩ := h
  obtain ⟨_, d₂, -, h⟩ := bind_ok.mp h
  exact offerPartial_asks h

theorem prepare_asks (h : env.prepare plan header d = .ok p d') : p.Asked env := by
  simp only [ReceiveEnv.prepare, bind_tree, bind_check_ok] at h
  obtain ⟨setup, -, h⟩ := h
  split_ifs at h
  · obtain ⟨current, skip, rfl⟩ := prepareSymlink_ok h
    trivial
  · obtain ⟨current, rfl⟩ := prepareDirectory_ok h
    trivial
  · simp only [ReceiveEnv.prepareFile, bind_tree] at h
    split_ifs at h
    · rw [bind_status] at h
      obtain ⟨rfl, -⟩ := pure_ok.mp h
      trivial
    · rw [bind_tree] at h
      split_ifs at h
      · obtain ⟨rfl, -⟩ := pure_ok.mp h
        trivial
      · exact preparePayload_asks h

theorem takeFileHeader_asks {l l' : Loop} (h : env.takeFileHeader header l = .ok p l') : p.Asked env := by
  simp only [ReceiveEnv.takeFileHeader, bind_modify] at h
  split_ifs at h
  · exact absurd h throw_ne_ok
  · rw [bind_get] at h
    obtain ⟨plan, l₁, -, h⟩ := bind_ok.mp h
    rw [bind_modify] at h
    obtain ⟨d, hprep, -⟩ := onDisk_ok.mp h
    exact prepare_asks hprep

end Asks

/-! ## What was agreed -/

section Settled

variable {env : ReceiveEnv} {source : Source env.prims} {p : Pending} {d d' : Disk} {s : PayloadSession}

/-- What a receiver goes on from has the digest of the file's beginning. -/
theorem settleSession_hashed (hasked : p.Asked env)
    (h : env.settleSession source p d = .ok (.receivePayload s) d')
    (hdistinct : Distinct env.prims source.content s.hashed) (hle : s.hashed.length ≤ source.content.length) :
    s.hashed <+: source.content := by
  cases p with
  | marker setup marker => cases (pure_ok.mp h).1
  | conflictSkip setup => cases (pure_ok.mp h).1
  | duplicate setup =>
    obtain ⟨_, d₁, -, h⟩ := bind_ok.mp h
    rw [bind_status] at h
    cases (pure_ok.mp h).1
  | payload setup part hashed prefixSha256 =>
    obtain rfl : prefixSha256 = offeredSha256 env.prims hashed := hasked
    obtain ⟨s', d₁, hacc, h⟩ := bind_ok.mp h
    obtain ⟨heq, rfl⟩ := pure_ok.mp h
    obtain rfl := Session.receivePayload.inj heq
    unfold ReceiveEnv.acceptOffset at hacc
    by_cases hsame : agreedOffset source hashed (offeredSha256 env.prims hashed) = hashed.length
    · rw [if_pos hsame] at hacc
      obtain ⟨rfl, -⟩ := pure_ok.mp hacc
      by_cases hnil : hashed = []
      · subst hnil
        exact List.nil_prefix
      · by_contra hnot
        have hpos : 0 < hashed.length := List.length_pos_of_ne_nil hnil
        have hdiffer := hdistinct hle fun heq => hnot (List.prefix_iff_eq_take.mpr heq)
        have hne := env.prims.sha256Hex_ne hashed
        rw [agreedOffset, offeredSha256, if_neg hnil, if_pos ⟨hpos, hne, hdiffer⟩] at hsame
        omega
    · have hzero : agreedOffset source hashed (offeredSha256 env.prims hashed) = 0 := by
        unfold agreedOffset at hsame ⊢
        split_ifs at hsame ⊢
        · rfl
        · exact absurd rfl hsame
      rw [hzero] at hsame hacc
      simp only [if_neg hsame, Nat.lt_irrefl, if_false, bind_status, bind_tree] at hacc
      obtain ⟨_, d₂, -, hacc⟩ := bind_ok.mp hacc
      obtain ⟨rfl, -⟩ := pure_ok.mp hacc
      exact List.nil_prefix

end Settled

/-! ## Where a receiver stands in what is said to it

`Origin` is the state between two entries that was passed last, with what had been taken by then.
Everything that is known about an open payload is known from its origin on. -/

section Trail

variable {env : ReceiveEnv} {codec : StreamCodec}

/-- A header that is answered with a question was read between two entries. -/
theorem feed_header_await {r : StreamRecv codec} {header : Message} {l : Loop} {p : Pending}
    (h : (StreamRecv.feed env r (.fileHeader header)).1 = { loop := l, pc := .await p }) :
    env.takeFileHeader header r.loop = .ok p l := by
  obtain ⟨loop, pc⟩ := r
  by_cases hover : pc.over = true
  · have hsame : (StreamRecv.feed env { loop := loop, pc := pc } (.fileHeader header)).1 =
        { loop := loop, pc := pc } := by
      cases pc with
      | finished => rfl
      | thrown e => rfl
      | _ => cases hover
    rw [hsame] at h
    cases h
    cases hover
  · rw [feed_eq (Bool.eq_false_iff.mpr hover)] at h
    cases hframe : onFrame env (.fileHeader header) pc loop with
    | error e l' =>
      rw [hframe] at h
      cases h
    | ok result l' =>
      obtain ⟨pc', reply⟩ := result
      rw [hframe] at h
      cases h
      cases pc with
      | idle =>
        obtain ⟨pending, l₁, htake, hframe⟩ := bind_ok.mp hframe
        obtain ⟨heq, rfl⟩ := pure_ok.mp hframe
        obtain rfl := StreamPc.await.inj (Prod.mk.inj heq).1
        exact htake
      | await q =>
        -- a header is no answer
        obtain ⟨settled, l₁, hack, -⟩ := bind_ok.mp hframe
        obtain ⟨d, hack, -⟩ := onDisk_ok.mp hack
        exfalso
        have hno (requested declared : Nat) (relative : String) :
            recvResumeAck (.fileHeader header) requested declared relative = .error "expected resume ack" := rfl
        cases q <;>
        · simp only [ReceiveEnv.onAck, bind_check_ok, hno] at hack
          obtain ⟨_, hack, -⟩ := hack
          cases hack
      | marker setup marker => exact absurd hframe throw_ne_ok
      | skipping setup => exact absurd hframe throw_ne_ok
      | payload s => exact absurd hframe throw_ne_ok
      | finished => exact absurd rfl hover
      | thrown e => exact absurd rfl hover

/-- Where a receiver has stood, what was said to it from there, and which entries were still to come. -/
inductive Origin (env : ReceiveEnv) (codec : StreamCodec) (sources : List (Source env.prims)) (d : Disk) :
    StreamRecv codec → List Frame → List (Source env.prims) → Prop
  | start (text : ManifestText) (htext : encodeTransferManifest env.prims (sources.map (·.entry)) = .ok text) :
      Origin env codec sources d { loop := { disk := d } } [.manifest text] sources
  | entry (r₀ : StreamRecv codec) (base : List Frame) (source : Source env.prims) (rest : List (Source env.prims))
      (l : Loop) (p : Pending) (hbefore : Origin env codec sources d r₀ base (source :: rest))
      (hheader : env.takeFileHeader (makeFileHeader source.entry) (drain (StreamRecv.feed env) r₀ base).1.loop =
        .ok p l) :
      Origin env codec sources d { loop := l, pc := .await p } ((streamSend codec).entry source (agreedSession source p))
        rest

theorem Origin.suffix {sources rest : List (Source env.prims)} {d : Disk} {r₀ : StreamRecv codec} {base : List Frame}
    (h : Origin env codec sources d r₀ base rest) : rest <:+ sources := by
  induction h with
  | start => exact List.suffix_refl _
  | entry r₀ base source rest l p hbefore hheader ih => exact (List.suffix_cons source rest).trans ih

/-- A receiver that is not over has taken the beginning of what was said to it. -/
inductive Trail (sources : List (Source env.prims)) (d : Disk) (s : StreamTransfer.System env codec) : Prop
  | ended (hover : s.recv.pc.over = true)
  | unsaid (hrecv : s.recv = { loop := { disk := d } }) (hdown : s.down = []) (htodo : s.send.todo = [])
      (hover : s.send.wait.over = true)
  | along (r₀ : StreamRecv codec) (base pre : List Frame) (rest : List (Source env.prims))
      (horigin : Origin env codec sources d r₀ base rest)
      (hscript : pre ++ (s.down ++ s.send.todo) = base ++ ((streamSend codec).announce rest).1)
      (hwait : s.send.wait = ((streamSend codec).announce rest).2)
      (hrecv : s.recv = (drain (StreamRecv.feed env) r₀ pre).1)

variable {sources : List (Source env.prims)} {d : Disk} {capDown capUp : Option Nat}
  {s s' : StreamTransfer.System env codec} {final : Except (KikoError × Disk) Loop}

theorem trail_start : Trail sources d (StreamTransfer.init codec sources d) := by
  unfold StreamTransfer.init SendOps.start
  cases htext : encodeTransferManifest env.prims (sources.map (·.entry)) with
  | error e => exact .unsaid rfl rfl rfl rfl
  | ok text => exact .along _ _ [] sources (.start text htext) rfl rfl rfl

theorem trail_step (htalk : StreamTransfer.InTalk final s) (h : Trail sources d s) {l : StreamTransfer.Label}
    (hs : StreamTransfer.step capDown capUp s l = some s') : Trail sources d s' := by
  cases l with
  -- what is to be sent and what is under way are together what will be said
  | send =>
    simp only [StreamTransfer.step] at hs
    split at hs
    next => cases hs
    next f todo htodo =>
      split_ifs at hs
      obtain rfl := Option.some.inj hs
      cases h with
      | ended hover => exact .ended hover
      | unsaid hrecv hdown hnil => exact absurd hnil (by rw [htodo]; exact List.cons_ne_nil _ _)
      | along r₀ base pre rest horigin hscript hwait hrecv =>
        refine .along r₀ base pre rest horigin ?_ hwait hrecv
        rw [htodo, List.append_cons] at hscript
        exact hscript
  -- the frame that is taken is the next of what was said since the origin
  | take =>
    simp only [StreamTransfer.step] at hs
    split at hs
    next => cases hs
    next f down hdown =>
      split_ifs at hs with hlive
      obtain rfl := Option.some.inj hs
      cases h with
      | ended hover => rw [hover] at hlive; cases hlive.2
      | unsaid hrecv hnil => exact absurd hnil (by rw [hdown]; exact List.cons_ne_nil _ _)
      | along r₀ base pre rest horigin hscript hwait hrecv =>
        refine .along r₀ base (pre ++ [f]) rest horigin ?_ hwait ?_
        · rw [hdown] at hscript
          rw [List.append_assoc]
          exact hscript
        · rw [drain_append, ← hrecv]
          rfl
  | reply =>
    simp only [StreamTransfer.step] at hs
    split at hs
    next => cases hs
    next f reply hreply =>
      split_ifs at hs
      obtain rfl := Option.some.inj hs
      cases h with
      | ended hover => exact .ended hover
      | unsaid hrecv hdown htodo hwait => exact .unsaid hrecv hdown htodo hwait
      | along r₀ base pre rest horigin hscript hwait hrecv =>
        exact .along r₀ base pre rest horigin hscript hwait hrecv
  -- an answer says what comes next, and so the receiver waits where its question was asked
  | answer =>
    simp only [StreamTransfer.step] at hs
    split at hs
    next => cases hs
    next f up hup =>
      obtain ⟨send, hans, rfl⟩ := Option.map_eq_some_iff.mp hs
      unfold StreamTransfer.InTalk at htalk
      rw [hup, List.cons_append] at htalk
      obtain ⟨hahead, hexp⟩ := htalk.answered
      obtain ⟨hdown, htodo⟩ := List.append_eq_nil_iff.mp hahead
      cases h with
      | ended hover => exact .ended hover
      | unsaid hrecv hdown' htodo' hwait =>
        unfold SendOps.answer at hans
        rw [htodo'] at hans
        cases hw : s.send.wait with
        | returned => simp [hw] at hans
        | thrown e => simp [hw] at hans
        | _ => rw [hw] at hwait; cases hwait
      | along r₀ base pre rest horigin hscript hwait hrecv =>
        rw [hwait] at hexp
        cases rest with
        | nil =>
          rcases hexp with ⟨l, hfinished, -⟩ | ⟨e, l, hthrown, -⟩
          · exact .ended (by rw [hfinished]; rfl)
          · exact .ended (by rw [hthrown]; rfl)
        | cons source rest =>
          rcases hexp with ⟨l, p, hawait, hframe, hoffers, -⟩ | ⟨e, l, hthrown, -⟩
          · have hanswer : send.todo = (streamSend codec).entry source (agreedSession source p) ++
                ((streamSend codec).announce rest).1 ∧ send.wait = ((streamSend codec).announce rest).2 := by
              obtain ⟨rfl, -⟩ := List.cons.inj hframe
              unfold SendOps.answer at hans
              rw [htodo, hwait] at hans
              dsimp only [SendOps.announce] at hans
              rw [onResume_eq hoffers] at hans
              obtain rfl := Option.some.inj hans
              exact ⟨rfl, rfl⟩
            have hheader : env.takeFileHeader (makeFileHeader source.entry)
                (drain (StreamRecv.feed env) r₀ base).1.loop = .ok p l := by
              refine feed_header_await ?_
              rw [hahead, List.append_nil] at hscript
              rw [hrecv, hscript, drain_append] at hawait
              exact hawait
            refine .along { loop := l, pc := .await p } _ [] rest (.entry r₀ base source rest l p horigin hheader) ?_
              hanswer.2 hawait
            rw [List.nil_append, hdown, List.nil_append]
            exact hanswer.1
          · exact .ended (by rw [hthrown]; rfl)
  | closed =>
    simp only [StreamTransfer.step] at hs
    split_ifs at hs with hgone
    obtain rfl := Option.some.inj hs
    refine .ended ?_
    obtain ⟨-, -, -, hlive⟩ := hgone
    change s.recv.closed.pc.over = true
    unfold StreamRecv.closed
    cases hpc : s.recv.pc with
    | finished => rw [hpc] at hlive; cases hlive
    | thrown e => rw [hpc] at hlive; cases hlive
    | _ => rfl

theorem reach_trail (h : Lts.Reach (StreamTransfer.step capDown capUp) (StreamTransfer.init codec sources d) s) :
    Trail sources d s :=
  Lts.ReachUnder.invariant_with h (J := StreamTransfer.InTalk (conclusion env sources { disk := d }))
    (fun hr => StreamTransfer.reach_talk hr) trail_start fun htalk _ htrail _ hs => trail_step htalk htrail hs

end Trail

/-! ## A receiver between two entries

Without an answer of the sender nothing is opened: whatever else arrives, the receiver rests or is over. -/

section Resting

variable {env : ReceiveEnv} {codec : StreamCodec}

/-- No entry is open. -/
def StreamPc.resting : StreamPc codec → Bool
  | .idle | .await _ | .finished | .thrown _ => true
  | .marker .. | .skipping _ | .payload _ => false

/-- What opens no entry: everything but an answer. -/
def Frame.opening : Frame → Bool
  | .manifest _ | .fileHeader _ | .done => true
  | _ => false

theorem onAck_opening {p : Pending} {frame : Frame} (h : frame.opening = true) (d : Disk) :
    ∃ e, env.onAck p frame d = .error e d := by
  have hno (requested declared : Nat) (relative : String) :
      recvResumeAck frame requested declared relative = .error "expected resume ack" := by
    cases frame with
    | manifest text => rfl
    | fileHeader header => rfl
    | done => rfl
    | _ => cases h
  cases p <;>
  · refine ⟨"expected resume ack", ?_⟩
    simp only [ReceiveEnv.onAck, hno]
    rfl

/-- **Without an answer nothing is opened.** -/
theorem feed_resting {r : StreamRecv codec} {frame : Frame} (h : r.pc.resting = true)
    (hframe : frame.opening = true) : (StreamRecv.feed env r frame).1.pc.resting = true := by
  obtain ⟨l, pc⟩ := r
  cases pc with
  | idle =>
    cases frame with
    | manifest text =>
      rw [feed_manifest]
      cases env.takeManifest text l <;> rfl
    | fileHeader header =>
      rw [feed_fileHeader]
      cases env.takeFileHeader header l <;> rfl
    | done =>
      rw [feed_done]
      cases takeDone l <;> rfl
    | _ => cases hframe
  | await p =>
    obtain ⟨e, hack⟩ : ∃ e, env.onAck p frame l.disk = .error e l.disk := onAck_opening hframe l.disk
    rw [feed_eq rfl]
    simp only [onFrame, bind, EStateM.bind, LoopM.onDisk, hack]
    rfl
  | finished => rfl
  | thrown e => rfl
  | marker setup marker => cases h
  | skipping setup => cases h
  | payload p => cases h

theorem drain_resting (env : ReceiveEnv) {r : StreamRecv codec} {frames : List Frame} (h : r.pc.resting = true)
    (hframes : ∀ frame ∈ frames, frame.opening = true) :
    (drain (StreamRecv.feed env) r frames).1.pc.resting = true := by
  induction frames generalizing r with
  | nil => exact h
  | cons frame frames ih =>
    rw [drain_cons]
    apply ih
    · exact feed_resting h (hframes frame (List.mem_cons_self ..))
    · intro f hf
      exact hframes f (List.mem_cons_of_mem _ hf)

theorem announce_opening (rest : List (Source env.prims)) :
    ∀ frame ∈ ((streamSend codec).announce rest).1, frame.opening = true := by
  intro frame hframe
  cases rest with
  | nil =>
    rw [List.mem_singleton.mp hframe]
    rfl
  | cons source rest =>
    rw [List.mem_singleton.mp hframe]
    rfl

theorem Shows_resting {r : StreamRecv codec} {verdict : Except (KikoError × Disk) Loop}
    (h : (streamReceiver env codec).Shows r verdict) : r.pc.resting = true := by
  cases verdict with
  | ok l =>
    have hr : r = { loop := l } := h
    rw [hr]
    rfl
  | error e =>
    obtain ⟨l, hr, -⟩ := h
    rw [show r = { loop := l, pc := .thrown e.1 } from hr]
    rfl

end Resting

/-! ## What has begun

From the settled question to the open file: the partial file is cut to the agreed length, and what is
then in it has the digest the sender has compared with its own beginning. -/

section Begun

variable {env : ReceiveEnv} {source : Source env.prims} {l l' : Loop} {d' : Disk} {p : Pending} {s : PayloadSession}
  {t : Tree} {k : Nat}

/-- What stands when a payload begins: it is the source's, both sides have settled where it goes on, and up to
    there it is the source, as far as the digests tell. -/
structure Begun (env : ReceiveEnv) (source : Source env.prims) (t : Tree) (s : PayloadSession) : Prop where
  relative : s.setup.relative = source.entry.relative
  resumes : Resumes env source t s
  begins : Distinct env.prims source.content s.hashed → s.hashed <+: source.content

theorem takeFileHeader_relative (h : env.takeFileHeader (makeFileHeader source.entry) l = .ok p l') :
    p.setup.relative = source.entry.relative := by
  simp only [ReceiveEnv.takeFileHeader, bind_modify] at h
  split_ifs at h
  · exact absurd h throw_ne_ok
  · rw [bind_get] at h
    obtain ⟨plan, l₁, -, h⟩ := bind_ok.mp h
    rw [bind_modify] at h
    obtain ⟨d, hprep, -⟩ := onDisk_ok.mp h
    obtain ⟨⟨setup, current, hsetup, -, hp⟩, -⟩ := prepare_keeps hprep
    rw [hp, ← header_path]
    exact (entrySetup_ok hsetup).1

theorem settleSession_relative (hoff : Offers env source l.disk.tree p)
    (h : env.settleSession source p l.disk = .ok (.receivePayload s) d') : s.setup.relative = p.setup.relative := by
  cases p with
  | marker setup marker => cases (pure_ok.mp h).1
  | conflictSkip setup => cases (pure_ok.mp h).1
  | duplicate setup =>
    obtain ⟨_, d₁, -, h⟩ := bind_ok.mp h
    rw [bind_status] at h
    cases (pure_ok.mp h).1
  | payload setup part hashed prefixSha256 =>
    obtain ⟨s', d₁, hacc, h⟩ := bind_ok.mp h
    obtain ⟨heq, rfl⟩ := pure_ok.mp h
    obtain rfl := Session.receivePayload.inj heq
    obtain ⟨hsetup, -⟩ := acceptOffset_offered hoff.2.2.2 (agreedOffset_le source hashed prefixSha256) hacc
    rw [hsetup]
    rfl

/-- **What is settled about a header's payload is this.** -/
theorem begun_of_settled (hheader : env.takeFileHeader (makeFileHeader source.entry) l = .ok p l')
    (h : env.settleSession source p l'.disk = .ok (.receivePayload s) d') : Begun env source d'.tree s := by
  have hoffers := takeFileHeader_offers hheader
  obtain ⟨hres, -⟩ := settleSession_resumes hoffers h
  have hle : s.hashed.length ≤ source.content.length := hres.size ▸ hres.offered.length_le
  refine ⟨?_, hres, fun hdistinct => ?_⟩
  · rw [settleSession_relative hoffers h]
    exact takeFileHeader_relative hheader
  · exact settleSession_hashed (takeFileHeader_asks hheader) h hdistinct hle

/-- What an attempt has left of a file: the first `k` bytes, and the next attempt goes on behind them. -/
structure LeftAt (env : ReceiveEnv) (source : Source env.prims) (s : PayloadSession) (t : Tree) (k : Nat) : Prop where
  part : env.symlinkStatus t s.partPath = some (.file (source.content.take k))
  resumed : s.resumeOffset ≤ k
  within : k ≤ source.content.length
  next : ∀ (setup : EntrySetup) (current : FsPath) (d : Disk), d.tree = t → partPathFor current = s.partPath →
    setup.declaredSize = source.entry.size → ∃ question, env.offerPartial setup current d = .ok question d ∧
      agreedSession source question = { action := .sendPayload, accepted := k }

/-- **A beginning that is left is offered, and accepted.** -/
theorem leftAt_of_part (hkind : transferEntryKind source.entry = .file)
    (hpart : env.symlinkStatus t s.partPath = some (.file (source.content.take k)))
    (hresumed : s.resumeOffset ≤ k) (hwithin : k ≤ source.content.length) : LeftAt env source s t k where
  part := hpart
  resumed := hresumed
  within := hwithin
  next setup current d hd hcurrent hsize := by
    subst hd
    rw [← hcurrent] at hpart
    have hlength : (source.content.take k).length = k := by rw [List.length_take]; exact Nat.min_eq_left hwithin
    have hsafe : env.validateReceivePartPath d.tree (partPathFor current) setup.relative = .ok () := by
      rw [ReceiveEnv.validateReceivePartPath, hpart]
    have hresumable : env.resumablePartSize d.tree (partPathFor current) setup.declaredSize = .ok k := by
      rw [ReceiveEnv.resumablePartSize, hpart]
      dsimp only
      rw [hlength, if_neg]
      rw [hsize, source.size_eq hkind]
      omega
    have hread : env.hashExistingPartPrefix d.tree (partPathFor current) k = some (source.content.take k) := by
      rw [ReceiveEnv.hashExistingPartPrefix, hpart]
      dsimp only
      rw [hlength, if_pos (Nat.le_refl k), List.take_take, Nat.min_self]
    rw [ReceiveEnv.offerPartial, bind_tree, bind_check hsafe, bind_tree, bind_check hresumable, bind_tree]
    by_cases hpos : 0 < k
    · rw [if_pos hpos, hread]
      refine ⟨_, rfl, ?_⟩
      have hsame : ¬ (0 < (source.content.take k).length ∧ env.prims.sha256Hex (source.content.take k) ≠ "" ∧
          env.prims.sha256Hex (source.content.take k) ≠
            env.prims.sha256Hex (source.content.take (source.content.take k).length)) := by
        rw [hlength]
        exact fun h => h.2.2 rfl
      rw [agreedSession, agreedOffset, if_neg hsame, hlength]
    · rw [if_neg hpos]
      refine ⟨_, rfl, ?_⟩
      obtain rfl := Nat.eq_zero_of_not_pos hpos
      rfl

end Begun

/-! ## Interrupted streams

By induction on the trail, with the payload within the entry that was announced last. -/

section Stream

variable {codec : StreamCodec} {env : ReceiveEnv} {source : Source env.prims} {l l' : Loop} {p : Pending} {d : Disk}
  {s : PayloadSession} {out : Place} {content : Bytes} {q : StreamPayload codec}

/-- The open file is the partial file. -/
theorem part_set (hbegun : Begun env source d.tree s) (hplace : env.partPlace d.tree s.partPath = some (out, content))
    (file : Bytes) : env.symlinkStatus (d.tree.set out (.file file)) s.partPath = some (.file file) := by
  obtain ⟨hloc, hleaf, hne, -⟩ := partPlace_offered hbegun.resumes.offered hplace
  exact lstat_set_file hleaf hloc hne

/-- What a payload's partial file holds, and so the tree: what was settled on, and a beginning of what was to come. -/
def Halfway (env : ReceiveEnv) (source : Source env.prims) (p : Pending) (d : Disk) (q : StreamPayload codec) (t : Tree) :
    Prop :=
  ∃ d' out content begun, env.settleSession source p d = .ok (.receivePayload q.session) d' ∧
    env.partPlace d'.tree q.session.partPath = some (out, content) ∧
    begun <+: source.content.drop q.session.resumeOffset ∧ q.currentTotal = (q.session.hashed ++ begun).length ∧
    t = d'.tree.set out (.file (q.session.hashed ++ begun))

/-- A payload is open, and some of it has come. -/
theorem payload_begun (hheader : env.takeFileHeader (makeFileHeader source.entry) l = .ok p l')
    (hsettle : env.settleSession source p l'.disk = .ok (.receivePayload s) d) {pc : StreamPc codec} {d' : Disk}
    (hopen : openSession env (.receivePayload s) d = .ok pc d') {before after : List Frame}
    (hbody : (streamSend codec).body source (agreedSession source p) = before ++ after) :
    ∃ out content begun dec, env.partPlace d.tree s.partPath = some (out, content) ∧
      begun <+: source.content.drop s.resumeOffset ∧
      (drain (StreamRecv.feed env) { loop := { l' with disk := d' }, pc := pc } before).1 =
        midPayload l' { d with touched := d.touched ++ [out] } d.tree s out (s.hashed ++ begun) dec := by
  have haction := settleSession_action hsettle
  obtain ⟨hres, hacc⟩ := settleSession_resumes (takeFileHeader_offers hheader) hsettle
  have hdata : (streamSend codec).body source (agreedSession source p) =
      (streamPayloads codec s.setup.useZstd source.content s.resumeOffset).map .data := by
    simp [SendOps.body, haction, Session.action, streamSend, hres.zstd, hacc]
  rw [hdata] at hbody
  obtain ⟨taken, left, hpayloads, rfl, -⟩ := List.map_eq_append_iff.mp hbody
  cases hplace : env.partPlace d.tree s.partPath with
  | none =>
    simp only [openSession, ReceiveEnv.openStream, bind_assoc, bind_tree, hplace] at hopen
    cases hopen
  | some x =>
    obtain ⟨place, content⟩ := x
    simp only [openSession, bind_of_ok (openStream_eq hres hplace), hres.offset] at hopen
    obtain ⟨rfl, rfl⟩ := pure_ok.mp hopen
    obtain ⟨begun, dec, hprefix, hdrain⟩ := drain_begun (d := { d with touched := d.touched ++ [place] })
      l' d.tree place hres hpayloads.symm
    exact ⟨place, content, begun, dec, rfl, hprefix, congrArg Prod.fst hdrain⟩

/-- A session is open, and some of what it is about has come. -/
theorem session_halfway (hheader : env.takeFileHeader (makeFileHeader source.entry) l = .ok p l') {session : Session}
    (hsettle : env.settleSession source p l'.disk = .ok session d) {pc : StreamPc codec} {d' : Disk}
    (hopen : openSession env session d = .ok pc d') {before after : List Frame}
    (hbody : (streamSend codec).body source (agreedSession source p) = before ++ after)
    (hpc : (drain (StreamRecv.feed env) { loop := { l' with disk := d' }, pc := pc } before).1.pc = .payload q) :
    Halfway env source p l'.disk q
      (drain (StreamRecv.feed env) { loop := { l' with disk := d' }, pc := pc } before).1.loop.disk.tree := by
  have haction := settleSession_action hsettle
  cases session with
  | marker setup marker =>
    obtain ⟨rfl, rfl⟩ := pure_ok.mp hopen
    have hnil : (streamSend codec).body source (agreedSession source p) = [] := by
      simp [SendOps.body, haction, Session.action]
    rw [hnil] at hbody
    obtain ⟨rfl, -⟩ := List.append_eq_nil_iff.mp hbody.symm
    cases hpc
  | skipPayload setup =>
    obtain ⟨rfl, rfl⟩ := pure_ok.mp hopen
    have hnil : (streamSend codec).body source (agreedSession source p) = [] := by
      simp [SendOps.body, haction, Session.action, streamSend]
    rw [hnil] at hbody
    obtain ⟨rfl, -⟩ := List.append_eq_nil_iff.mp hbody.symm
    cases hpc
  | receivePayload s =>
    obtain ⟨out, content, begun, dec, hplace, hprefix, hdrain⟩ := payload_begun hheader hsettle hopen hbody
    rw [hdrain] at hpc ⊢
    obtain rfl := StreamPc.payload.inj hpc
    exact ⟨d, out, content, begun, hsettle, hplace, hprefix, rfl, rfl⟩

/-- **Within an entry the partial file is halfway.** -/
theorem entry_halfway (hheader : env.takeFileHeader (makeFileHeader source.entry) l = .ok p l')
    {rest : List (Source env.prims)} {pre later : List Frame}
    (hpre : pre ++ later = (streamSend codec).entry source (agreedSession source p) ++
      ((streamSend codec).announce rest).1)
    (hpc : (drain (StreamRecv.feed env) { loop := l', pc := (.await p : StreamPc codec) } pre).1.pc = .payload q) :
    Halfway env source p l'.disk q
      (drain (StreamRecv.feed env) { loop := l', pc := (.await p : StreamPc codec) } pre).1.loop.disk.tree := by
  cases pre with
  | nil => cases hpc
  | cons frame pre =>
    have hentry : (streamSend codec).entry source (agreedSession source p) =
        .resumeAck (resumeAckMessage (agreedSession source p).accepted) ::
          ((streamSend codec).body source (agreedSession source p) ++
            [.fileEnd (endMessage (trailerSha256 source (agreedSession source p)))]) := rfl
    rw [hentry] at hpre
    obtain ⟨rfl, htail⟩ := List.cons.inj hpre
    have hoffers := takeFileHeader_offers hheader
    rw [drain_cons, feed_ack hoffers] at hpc ⊢
    cases hsettle : env.settleSession source p l'.disk with
    | error e d =>
      rw [hsettle] at hpc
      dsimp only at hpc
      rw [drain_thrown] at hpc
      cases hpc
    | ok session d =>
      have hshows := drain_session codec hoffers hsettle
      rw [hsettle] at hpc
      dsimp only at hpc ⊢
      cases hopen : (openSession env session d : EStateM.Result _ _ (StreamPc codec)) with
      | error e d' =>
        rw [hopen] at hpc
        dsimp only at hpc
        rw [drain_thrown] at hpc
        cases hpc
      | ok pc d' =>
        rw [hopen] at hpc hshows
        dsimp only at hpc hshows ⊢
        -- behind its trailer no entry is open
        have hended (cs : List Frame) (hcs : ∀ f ∈ cs, f.opening = true)
            (hsplit : pre = ((streamSend codec).body source (agreedSession source p) ++
              [.fileEnd (endMessage (trailerSha256 source (agreedSession source p)))]) ++ cs) : False := by
          subst hsplit
          rw [drain_append] at hpc
          have hresting := drain_resting env (Shows_resting hshows.2) hcs
          dsimp only at hpc hresting
          rw [hpc] at hresting
          cases hresting
        rcases List.append_eq_append_iff.mp htail with ⟨cs, hbody, -⟩ | ⟨cs, hsplit, hcs⟩
        · rcases List.eq_nil_or_concat cs with rfl | ⟨cs, x, rfl⟩
          · exact (hended [] (fun _ h => nomatch h) (by rw [hbody, List.append_nil, List.append_nil])).elim
          · rw [List.concat_eq_append, ← List.append_assoc] at hbody
            obtain ⟨hbody, -⟩ := List.append_inj' hbody rfl
            exact session_halfway hheader hsettle hopen hbody hpc
        · refine (hended cs ?_ hsplit).elim
          intro f hf
          exact announce_opening rest f (hcs ▸ List.mem_append_left _ hf)

/-- **In every run the partial file of an open payload is halfway**, through the entry that was announced last. -/
theorem Trail.halfway {sources : List (Source env.prims)} {s : StreamTransfer.System env codec}
    (h : Trail sources d s) (hpc : s.recv.pc = .payload q) :
    ∃ (r₀ : StreamRecv codec) (base : List Frame) (source : Source env.prims) (rest : List (Source env.prims))
      (l : Loop) (p : Pending), Origin env codec sources d r₀ base (source :: rest) ∧
        env.takeFileHeader (makeFileHeader source.entry) (drain (StreamRecv.feed env) r₀ base).1.loop = .ok p l ∧
        Halfway env source p l.disk q s.recv.loop.disk.tree := by
  cases h with
  | ended hover =>
    rw [hpc] at hover
    cases hover
  | unsaid hrecv =>
    rw [hrecv] at hpc
    cases hpc
  | along r₀ base pre rest horigin hscript hwait hrecv =>
    rw [hrecv] at hpc ⊢
    cases horigin with
    | start text =>
      have hresting : (drain (StreamRecv.feed env) { loop := { disk := d }, pc := (.idle : StreamPc codec) }
          pre).1.pc.resting = true := by
        apply drain_resting env rfl
        intro f hf
        have hmem : f ∈ [Frame.manifest text] ++ ((streamSend codec).announce sources).1 := by
          rw [← hscript]
          exact List.mem_append_left _ hf
        rcases List.mem_append.mp hmem with hmem | hmem
        · rw [List.mem_singleton.mp hmem]
          rfl
        · exact announce_opening sources f hmem
      rw [hpc] at hresting
      cases hresting
    | entry r₁ base₁ source rest l p hbefore hheader =>
      exact ⟨r₁, base₁, source, rest, l, p, hbefore, hheader, entry_halfway hheader hscript hpc⟩

/-- What is halfway is a beginning of the source. -/
theorem Halfway.leftAt {t : Tree} (hheader : env.takeFileHeader (makeFileHeader source.entry) l = .ok p l')
    (h : Halfway env source p l'.disk q t) (hdistinct : Distinct env.prims source.content q.session.hashed) :
    LeftAt env source q.session t q.currentTotal := by
  obtain ⟨d, out, content, begun, hsettle, hplace, hprefix, htotal, rfl⟩ := h
  have hbegun := begun_of_settled hheader hsettle
  obtain ⟨tail, htail⟩ := hbegun.begins hdistinct
  have hdrop : source.content.drop q.session.resumeOffset = tail := by
    rw [hbegun.resumes.offset, ← htail, List.drop_left]
  rw [hdrop] at hprefix
  have hwhole : q.session.hashed ++ begun <+: source.content := by
    rw [← htail]
    exact (List.prefix_append_right_inj _).mpr hprefix
  rw [htotal]
  apply leftAt_of_part hbegun.resumes.kind
  · rw [← List.prefix_iff_eq_take.mp hwhole]
    exact part_set hbegun hplace _
  · rw [hbegun.resumes.offset, List.length_append]
    exact Nat.le_add_right _ _
  · exact hwhole.length_le

end Stream

/-! ## Interrupted readers

The readers may have written anywhere between the offset and the end. The file is cut at the front when
they are joined, whichever of them has failed, so what is left is a beginning whatever was written
beyond. -/

section Readers

variable {m : Nat} {codec : BlockCodec} {job : Job} {cap : Fin (m + 1) → Option Nat} {env : ReceiveEnv}
  {source : Source env.prims} {l l' : Loop} {p : Pending} {session : PayloadSession} {out : Place}
  {recv : MuxRecv (m + 1)}

theorem MuxRecv.Inv.offset_le_front {r : MuxRecv (m + 1)} (h : r.Inv job) : job.offset ≤ r.ranges.front := by
  by_contra hlt
  have hcovered : r.ranges.front ∈ r.ranges.covered := by
    rw [h.covered]
    exact .inl (Nat.lt_of_not_le hlt)
  exact r.ranges.front_notMem hcovered

theorem MuxRecv.Inv.front_le_length {r : MuxRecv (m + 1)} (h : r.Inv job) :
    r.ranges.front ≤ job.content.length := by
  by_contra hlt
  have hcovered : job.content.length ∈ r.ranges.covered := r.ranges.Iio_front_subset (Nat.lt_of_not_le hlt)
  rw [h.covered] at hcovered
  rcases hcovered with hbefore | ⟨c, hc, -, hstop⟩
  · exact Nat.not_lt.mpr job.resumes hbefore
  · obtain ⟨-, -, hend, -⟩ := Job.chunk_bounds (h.mem_log hc)
    omega

/-- **However the readers have stopped, the file they leave is the source up to the front.** -/
theorem result_of_joined (hprior : job.prior <+: job.content) {s : MuxDelivery.System (m + 1)}
    (h : Lts.Reach (MuxDelivery.step codec job cap) (MuxDelivery.init (m + 1) job) s) (hjoined : s.recv.joined) :
    s.recv.result.2 = job.content.take s.recv.ranges.front ∧ job.offset ≤ s.recv.ranges.front ∧
      s.recv.ranges.front ≤ job.content.length := by
  obtain ⟨body, hinv⟩ := MuxDelivery.reach_inv h
  have hrecv := hinv.payload.recv
  refine ⟨?_, hrecv.offset_le_front, hrecv.front_le_length⟩
  cases herror : s.recv.error with
  | some e =>
    rw [MuxRecv.result, herror]
    show s.recv.truncated = _
    rw [hrecv.truncated_eq, Job.target_eq hprior]
  | none =>
    have hdone := hinv.payload.done_of_joined hjoined herror
    obtain ⟨-, hpart, -, hfront, -⟩ := hinv.payload.arrived (Nat.succ_pos m) hdone
    rw [MuxRecv.result, herror]
    show s.recv.part = _
    rw [hpart, hfront, Job.target_eq hprior, List.take_length]

/-- With the answer the readers start, on what was settled. -/
theorem readers_started (hheader : env.takeFileHeader (makeFileHeader source.entry) l = .ok p l')
    {r : Loop} (hack : MuxLoop.control env { loop := l', pc := (.await p : MuxPc (m + 1)) }
      (.resumeAck (resumeAckMessage (agreedSession source p).accepted)) =
        ({ loop := r, pc := .receiving session out recv }, [])) :
    ∃ (d : Disk) (content : Bytes), env.settleSession source p l'.disk = .ok (.receivePayload session) d ∧
      env.partPlace d.tree session.partPath = some (out, content) ∧
      recv = MuxRecv.start (m + 1) session.hashed session.resumeOffset ∧
      r.disk.tree = d.tree.set out (.file session.hashed) := by
  have hoffers := takeFileHeader_offers hheader
  have hfeed := MuxLoop.feed_ack (m := m) hoffers
  rw [MuxLoop.feed_frame rfl, hack] at hfeed
  cases hsettle : env.settleSession source p l'.disk with
  | error e d =>
    rw [hsettle] at hfeed
    cases hfeed
  | ok settled d =>
    rw [hsettle] at hfeed
    dsimp only at hfeed
    cases settled with
    | marker setup marker => cases hfeed
    | skipPayload setup => cases hfeed
    | receivePayload s =>
      have hbegun := begun_of_settled hheader hsettle
      cases hplace : env.partPlace d.tree s.partPath with
      | none =>
        simp only [openMuxSession, ReceiveEnv.openMux, bind_assoc, bind_tree, hplace] at hfeed
        cases hfeed
      | some x =>
        obtain ⟨place, content⟩ := x
        simp only [openMuxSession, bind_of_ok (openMux_eq hbegun.resumes hplace)] at hfeed
        cases hfeed
        exact ⟨d, content, rfl, hplace, rfl, rfl⟩

/-- What the two sides of a payload have settled on. -/
def jobOf (source : Source env.prims) (session : PayloadSession) (hkind : transferEntryKind source.entry = .file)
    (hle : session.hashed.length ≤ source.content.length) : Job where
  relative := session.setup.relative
  content := source.content
  prior := session.hashed
  useZstd := session.setup.useZstd
  fits := source.size_eq hkind ▸ source.size_le
  resumes := hle

/-- **Whatever befalls the channels of a payload, the partial file is its beginning up to the front.** -/
theorem readers_leave (hheader : env.takeFileHeader (makeFileHeader source.entry) l = .ok p l')
    {r : Loop} (hack : MuxLoop.control env { loop := l', pc := (.await p : MuxPc (m + 1)) }
      (.resumeAck (resumeAckMessage (agreedSession source p).accepted)) =
        ({ loop := r, pc := .receiving session out recv }, []))
    (hdistinct : Distinct env.prims source.content session.hashed) :
    ∃ job : Job, job.content = source.content ∧ job.params = session.params ∧
      recv = MuxRecv.start (m + 1) job.prior job.offset ∧
      ∀ (codec : BlockCodec) (cap : Fin (m + 1) → Option Nat) (s : MuxDelivery.System (m + 1)),
        Lts.Reach (MuxDelivery.step codec job cap) (MuxDelivery.init (m + 1) job) s →
        ∀ r', (MuxLoop.wrote { loop := r, pc := .receiving session out recv } session out s.recv).ret = some r' →
          LeftAt env source session r'.loop.disk.tree s.recv.ranges.front := by
  obtain ⟨d, content, hsettle, hplace, rfl, htree⟩ := readers_started hheader hack
  have hbegun := begun_of_settled hheader hsettle
  have hres := hbegun.resumes
  have hle : session.hashed.length ≤ source.content.length := hres.size ▸ hres.offered.length_le
  have hoffset : (jobOf source session hres.kind hle).offset = session.resumeOffset := hres.offset.symm
  refine ⟨jobOf source session hres.kind hle, rfl, ?_, ?_, fun codec cap s hreach r' hret => ?_⟩
  · simp only [Job.params, PayloadSession.params, hoffset, hres.size]
    rfl
  · rw [hoffset]
    rfl
  · simp only [MuxLoop.wrote, MuxLoop.ret] at hret
    split_ifs at hret with hjoined
    obtain rfl := Option.some.inj hret
    obtain ⟨hfile, hresumed, hwithin⟩ := result_of_joined (hbegun.begins hdistinct) hreach hjoined
    apply leftAt_of_part hres.kind
    · show env.symlinkStatus (((r.disk.tree.set out (.file s.recv.part)).set out (.file s.recv.result.2)))
        session.partPath = _
      rw [Tree.set_set, htree, Tree.set_set, hfile]
      exact part_set hbegun hplace _
    · rw [← hoffset]
      exact hresumed
    · exact hwithin

end Readers

/-! ## Interrupted transfers

Both paths in one statement. The question of the next attempt is about what was left, so the statement
ends with how it is answered. -/

/-- **An interrupted transfer leaves a beginning of the file, and the next one goes on behind it.** Over a
    stream, wherever the channel closes while a payload is open; over many channels, however the threads of
    both sides have moved and wherever they have failed, when the readers are joined: the file is then cut
    at the front. What is left has at least what was settled on. -/
theorem interrupted_leaves_prefix (env : ReceiveEnv) :
    (∀ (codec : StreamCodec) (capDown capUp : Option Nat) (sources : List (Source env.prims)) (d : Disk)
        (s : StreamTransfer.System env codec) (q : StreamPayload codec),
      Lts.Reach (StreamTransfer.step capDown capUp) (StreamTransfer.init codec sources d) s →
      s.recv.pc = .payload q →
      ∃ source ∈ sources, q.session.setup.relative = source.entry.relative ∧
        (Distinct env.prims source.content q.session.hashed →
          LeftAt env source q.session s.recv.closed.loop.disk.tree q.currentTotal)) ∧
    ∀ (m : Nat) (source : Source env.prims) (l l' : Loop) (p : Pending) (session : PayloadSession) (out : Place)
        (recv : MuxRecv (m + 1)) (r : Loop),
      env.takeFileHeader (makeFileHeader source.entry) l = .ok p l' →
      MuxLoop.control env { loop := l', pc := .await p }
          (.resumeAck (resumeAckMessage (agreedSession source p).accepted)) =
        ({ loop := r, pc := .receiving session out recv }, []) →
      Distinct env.prims source.content session.hashed →
      ∃ job : Job, job.content = source.content ∧ job.params = session.params ∧
        recv = MuxRecv.start (m + 1) job.prior job.offset ∧
        ∀ (codec : BlockCodec) (cap : Fin (m + 1) → Option Nat) (s : MuxDelivery.System (m + 1)),
          Lts.Reach (MuxDelivery.step codec job cap) (MuxDelivery.init (m + 1) job) s →
          ∀ r', (MuxLoop.wrote { loop := r, pc := .receiving session out recv } session out s.recv).ret = some r' →
            LeftAt env source session r'.loop.disk.tree s.recv.ranges.front := by
  refine ⟨fun codec capDown capUp sources d s q hreach hpc => ?_, fun m source l l' p session out recv r hheader
    hack hdistinct => readers_leave hheader hack hdistinct⟩
  obtain ⟨r₀, base, source, rest, l, p, horigin, hheader, hhalfway⟩ := (reach_trail hreach).halfway hpc
  have hclosed : s.recv.closed.loop = s.recv.loop := by rw [StreamRecv.closed, hpc]
  refine ⟨source, horigin.suffix.subset (List.mem_cons_self ..), ?_, fun hdistinct => ?_⟩
  · obtain ⟨d', out, content, begun, hsettle, -⟩ := hhalfway
    exact (begun_of_settled hheader hsettle).relative
  · rw [hclosed]
    exact hhalfway.leftAt hheader hdistinct

/-! ## One file that was left half done -/

section Again

variable {env : ReceiveEnv} {source : Source env.prims} {l : Loop} {p : Pending} {part : Place} {offset : Nat}
  {t : Tree}

/-- What was agreed on is what the sender accepts. -/
theorem Agreed.accepted (h : Agreed env source l p part offset) (hoffers : Offers env source t p) :
    (agreedSession source p).accepted = offset := by
  have hsender := h.sender
  rw [onResume_eq hoffers] at hsender
  rw [Except.ok.inj hsender]

/-- With the answer the readers start at the agreed offset. -/
theorem Agreed.control (h : Agreed env source l p part offset) (hoffers : Offers env source t p) (m : Nat) :
    ∃ (session : PayloadSession) (r : Loop),
      MuxLoop.control env { loop := l, pc := (.await p : MuxPc (m + 1)) }
          (.resumeAck (resumeAckMessage (agreedSession source p).accepted)) =
        ({ loop := r
           pc := .receiving session part (MuxRecv.start (m + 1) (source.content.take offset) offset) }, []) ∧
      session.resumeOffset = offset ∧ session.hashed = source.content.take offset := by
  obtain ⟨session, r, hcontrol, hoffset, hhashed, -⟩ := h.mux (m + 1)
  refine ⟨session, r, ?_, hoffset, hhashed⟩
  rw [h.accepted hoffers, MuxLoop.control]
  dsimp only
  rw [hcontrol]

end Again

/-! ## A sample -/

/-- Half of the sample has come before. -/
def halfDisk : Disk where
  tree place :=
    if place = ["out"] then some .dir else if place = ["out", "hi.txt.kikopart"] then some (.file [104]) else none

theorem halfDisk_sane : Sane halfDisk.tree := by
  refine ⟨fun {p part} hp => ?_, fun {p target} hp => ?_⟩
  · simp only [halfDisk] at hp
    split_ifs at hp with hout hpart
    · obtain rfl : p = [] := by simpa using congrArg List.dropLast hout
      rfl
    · obtain rfl : p = ["out"] := by simpa using congrArg List.dropLast hpart
      rfl
    · exact absurd rfl hp
  · simp only [halfDisk] at hp
    split_ifs at hp
    · cases hp
    · cases hp

theorem half_sample : Leftover leftoverEnv leftoverSource halfDisk
    { isAbsolute := true, parts := ["out", "hi.txt"] } [104] where
  file := by decide
  slash := by decide
  mode := by decide
  mtime := by decide
  told := ⟨_, rfl⟩
  sane := halfDisk_sane
  here := rfl
  joined := by decide
  parent := by decide +kernel
  absent := by decide +kernel
  part := by decide +kernel
  space := .inr ⟨2 ^ 40, rfl, by decide⟩

/-- The payload that is open. -/
def StreamPc.payload? {codec : StreamCodec} : StreamPc codec → Option (StreamPayload codec)
  | .payload q => some q
  | _ => none

theorem StreamPc.payload?_eq_some {codec : StreamCodec} {pc : StreamPc codec} {q : StreamPayload codec}
    (h : pc.payload? = some q) : pc = .payload q := by
  cases pc with
  | payload q' => rw [Option.some.inj h]
  | _ => cases h

/-- A stream that breaks in the payload, and readers of which one fails before anything has come. -/
theorem interrupted_leaves_prefix_sample :
    (∃ (s : StreamTransfer.System leftoverEnv storedStream) (q : StreamPayload storedStream),
      Lts.Reach (StreamTransfer.step (some 1) (some 1)) (StreamTransfer.init storedStream [leftoverSource] halfDisk) s ∧
        s.recv.pc = .payload q ∧ q.session.hashed = [104] ∧
        LeftAt leftoverEnv leftoverSource q.session s.recv.closed.loop.disk.tree 3) ∧
    ∃ (session : PayloadSession) (r : Loop), LeftAt leftoverEnv leftoverSource session r.disk.tree 1 := by
  obtain ⟨hstream, hmux⟩ := interrupted_leaves_prefix leftoverEnv
  constructor
  · obtain ⟨s, hreach, hs⟩ := Lts.Reach.exists_of_run (StreamTransfer.step (some 1) (some 1))
      (StreamTransfer.init storedStream [leftoverSource] halfDisk)
      [.send, .take, .send, .take, .reply, .answer, .send, .take, .send, .take]
      (fun s => s.recv.pc.payload?.any fun q => q.session.hashed = [104] ∧ q.currentTotal = 3) (by decide +kernel)
    obtain ⟨q, hopen, hq⟩ := (Option.any_eq_true ..).mp hs
    have hpc := StreamPc.payload?_eq_some hopen
    obtain ⟨hhashed, htotal⟩ := of_decide_eq_true hq
    obtain ⟨source, hmem, -, hleft⟩ := hstream _ _ _ _ _ _ _ hreach hpc
    obtain rfl := List.mem_singleton.mp hmem
    have := hleft (by rw [hhashed]; intro _ h; exact absurd rfl h)
    rw [htotal] at this
    exact ⟨s, q, hreach, hpc, hhashed, this⟩
  · have hheader := half_sample.takeFileHeader []
    obtain ⟨part, -, hagreed⟩ := half_sample.agreed (fun _ h => absurd rfl h) [] (some (plannedFor leftoverSource.entry
      { isAbsolute := true, parts := ["out", "hi.txt"] } ["hi.txt"]))
    obtain ⟨session, r, hcontrol, -, hhashed⟩ := hagreed.control (takeFileHeader_offers hheader) 0
    obtain ⟨job, -, -, hstart, hleft⟩ := hmux 0 leftoverSource _ _ _ session part _ r hheader hcontrol
      (by rw [hhashed]; exact fun _ h => absurd rfl h)
    have hoffset : job.offset = 1 := (congrArg (fun recv => recv.ranges.front) hstart).symm
    have hrun : MuxDelivery.step MuxDelivery.storedCodec job (fun _ => none) (MuxDelivery.init 1 job)
        (.recv (.fail 0 "the connection is gone")) = some _ := rfl
    have hfront : LeftAt leftoverEnv leftoverSource session _ job.offset :=
      hleft MuxDelivery.storedCodec (fun _ => none) _ (.tail .refl trivial hrun) _ rfl
    rw [hoffset] at hfront
    exact ⟨session, _, hfront⟩

end Kiko.Transfer
